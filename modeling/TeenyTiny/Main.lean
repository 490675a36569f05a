import TeenyTiny.Session

/-!
# The command line

Reads the arguments, the source file and nothing else; writes the output file, and to standard
error what the verbosity admits. What is done, and in which order, is decided by
`Request.ofArguments` and `Host.invoke`; here they get the files of the machine.
-/

set_option autoImplicit false

namespace TeenyTiny.CommandLine

/-- What the user sees who asks for help. -/
def helpText : String :=
  "Compile a Teeny Tiny program to C\n\n" ++
    "Usage: [OPTIONS] <SOURCE>\n\n" ++
    "Arguments:\n" ++
    "  <SOURCE>  Source file to compile\n\n" ++
    "Options:\n" ++
    "  -v, --verbose...     Turn on verbose logging\n" ++
    "  -o, --output <PATH>  Where to write the generated C program [default: " ++ defaultOutput ++
    "]\n" ++
    "  -h, --help           Print help"

/-- The system's number of an error, which some calls give with its sign turned. -/
def errorNumber (code : UInt32) : Nat :=
  (min code (0 - code)).toNat

/-- What a refusal of the system means for a file job. -/
def fileError (failure : IO.Error) : FileError :=
  match failure with
  | .noFileOrDirectory _ _ _ => .missing
  | .inappropriateType _ code _ =>
      if errorNumber code = 20 then .notDirectory else .isDirectory
  | .invalidArgument _ code _ =>
      if errorNumber code = 36 then .nameTooLong else .other (toString failure)
  | _ => .other (toString failure)

/-- The content of a file, or why it cannot be read. -/
def readFile (path : String) : IO (Except FileError ByteArray) := do
  try
    return .ok (← IO.FS.readBinFile path)
  catch failure =>
    return .error (fileError failure)

/-- Writes a file, or says why it cannot be written. -/
def writeFile (path : String) (content : ByteArray) : IO (Except FileError Unit) := do
  try
    return .ok (← IO.FS.writeBinFile path content)
  catch failure =>
    return .error (fileError failure)

/-- The files of the machine. -/
def files : Host IO where
  read := readFile
  write := writeFile

/-- The stamp of what is written now, in milliseconds of a clock that never goes back. The place in
the compiler is not known. -/
def now : IO Stamp := do
  return { time := toString (← IO.monoMsNow) }

/-- Runs a job and shows what it has to say. -/
def run (invocation : Invocation) : IO UInt32 := do
  let stamp ← now
  let ending ← files.invoke (fun _ => stamp) invocation
  for line in ending.lines do
    IO.eprintln line
  return ending.exitCode.toUInt32

end TeenyTiny.CommandLine

open TeenyTiny in
/-- Compiles the file that the arguments name. -/
def main (arguments : List String) : IO UInt32 := do
  match Request.ofArguments arguments with
  | .help =>
      IO.println CommandLine.helpText
      return 0
  | .refuse misuse =>
      IO.eprintln (Session.errorText misuse.message)
      return 2
  | .run invocation => CommandLine.run invocation
