/-!
# Requests on the command line

The arguments `[-v]… [-o PATH] SOURCE` are read from left to right up to the first that asks for
help or is out of order. Short options may be bundled behind one dash; the value of an option is
the rest of its bundle, what follows an equals sign, or else the next argument. After `--` every
argument is a path.
-/

set_option autoImplicit false

namespace TeenyTiny

/-- A job for the compiler. -/
structure Invocation where
  verbosity : Nat
  output : String
  source : String
  deriving DecidableEq

/-- Why the arguments are out of order. -/
inductive Misuse where
  | unknownOption (option : String)
  | unexpectedValue (option : String)
  | missingValue (option : String)
  | emptyValue (what : String)
  | repeatedOption (option : String)
  | extraPath (path : String)
  | missingPath
  deriving DecidableEq

namespace Misuse

/-- What the user is told. -/
def message : Misuse → String
  | unknownOption option => "unknown option " ++ option
  | unexpectedValue option => option ++ " takes no value"
  | missingValue option => option ++ " needs a value"
  | emptyValue what => what ++ " must not be empty"
  | repeatedOption option => option ++ " is given twice"
  | extraPath path => "unexpected argument " ++ path
  | missingPath => "no source file is given"

end Misuse

/-- What the arguments ask for. -/
inductive Request where
  | help
  | refuse (misuse : Misuse)
  | run (invocation : Invocation)
  deriving DecidableEq

/-- The output path when none is given. -/
def defaultOutput : String := "out.c"

/-- The verbosity stops growing here. -/
def maxVerbosity : Nat := 255

/-- What the arguments read so far have set. -/
structure Settings where
  verbosity : Nat := 0
  output? : Option String := none
  source? : Option String := none
  deriving DecidableEq

namespace Settings

/-- Counts one more request for detail. -/
def louder (settings : Settings) : Settings :=
  { settings with verbosity := min maxVerbosity (settings.verbosity + 1) }

/-- Sets the output path, which has to be done once and not to nothing. -/
def setOutput (settings : Settings) (path : String) : Except Misuse Settings :=
  if path = "" then .error (.emptyValue "--output")
  else if settings.output?.isSome then .error (.repeatedOption "--output")
  else .ok { settings with output? := some path }

/-- Sets the source path, which has to be done once and not to nothing. -/
def setSource (settings : Settings) (path : String) : Except Misuse Settings :=
  if settings.source?.isSome then .error (.extraPath path)
  else if path = "" then .error (.emptyValue "SOURCE")
  else .ok { settings with source? := some path }

/-- The request, once all arguments have been read. -/
def request (settings : Settings) : Request :=
  match settings.source? with
  | none => .refuse .missingPath
  | some source => .run ⟨settings.verbosity, settings.output?.getD defaultOutput, source⟩

end Settings

/-- What one argument, or one bundle of short options, comes to. -/
inductive Argument where
  /-- It is settled, and the next one follows. -/
  | settled (settings : Settings)
  /-- The next argument is the output path. -/
  | wantsOutput (settings : Settings)
  /-- Only paths follow. -/
  | pathsOnly (settings : Settings)
  | help
  | refuse (misuse : Misuse)

namespace Argument

/-- The outcome of setting something. -/
def ofSetting : Except Misuse Settings → Argument
  | .ok settings => .settled settings
  | .error misuse => .refuse misuse

/-- Reads a bundle of short options, from after its dash. -/
def ofBundle (settings : Settings) : List Char → Argument
  | [] => .settled settings
  | 'v' :: letters => ofBundle settings.louder letters
  | 'h' :: _ => .help
  | ['o'] => .wantsOutput settings
  | 'o' :: '=' :: value => ofSetting (settings.setOutput (String.ofList value))
  | 'o' :: value => ofSetting (settings.setOutput (String.ofList value))
  | letter :: _ => .refuse (.unknownOption ("-" ++ letter.toString))

/-- Reads a long option, given its name and the value after an equals sign. -/
def ofLong (settings : Settings) (name : String) (value? : Option String) : Argument :=
  match name, value? with
  | "help", none => .help
  | "verbose", none => .settled settings.louder
  | "output", none => .wantsOutput settings
  | "output", some value => ofSetting (settings.setOutput value)
  | "help", some _ | "verbose", some _ => .refuse (.unexpectedValue ("--" ++ name))
  | _, _ => .refuse (.unknownOption ("--" ++ name))

/-- Reads one argument. A dash alone is a path. -/
def read (settings : Settings) (argument : String) : Argument :=
  match argument.toList with
  | ['-', '-'] => .pathsOnly settings
  | '-' :: '-' :: long =>
      let name := String.ofList (long.takeWhile (· != '='))
      match long.dropWhile (· != '=') with
      | [] => ofLong settings name none
      | _ :: value => ofLong settings name (some (String.ofList value))
  | '-' :: letter :: letters => ofBundle settings (letter :: letters)
  | _ => ofSetting (settings.setSource argument)

end Argument

namespace Request

/-- Whether an argument is an option rather than a value. -/
def isOption (argument : String) : Bool :=
  match argument.toList with
  | '-' :: _ :: _ => true
  | _ => false

/-- Reads arguments that are all paths. -/
def ofPaths (settings : Settings) : List String → Request
  | [] => settings.request
  | path :: paths =>
      match settings.setSource path with
      | .ok settings => ofPaths settings paths
      | .error misuse => .refuse misuse

/-- Reads the arguments that are left, given what the earlier ones have set. -/
def ofRest (settings : Settings) : List String → Request
  | [] => settings.request
  | argument :: arguments =>
      match Argument.read settings argument, arguments with
      | .settled settings, arguments => ofRest settings arguments
      | .pathsOnly settings, arguments => ofPaths settings arguments
      | .help, _ => .help
      | .refuse misuse, _ => .refuse misuse
      | .wantsOutput _, [] => .refuse (.missingValue "--output")
      | .wantsOutput settings, path :: arguments =>
          if isOption path then .refuse (.missingValue "--output")
          else
            match settings.setOutput path with
            | .ok settings => ofRest settings arguments
            | .error misuse => .refuse misuse

/-- What the arguments of a command line ask for. -/
def ofArguments (arguments : List String) : Request :=
  ofRest {} arguments

end Request

end TeenyTiny
