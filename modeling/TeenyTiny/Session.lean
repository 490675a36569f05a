import TeenyTiny.Compilation
import TeenyTiny.Request
import TeenyTiny.Workspace

/-!
# Compiling files

A file job reads a source file, compiles it and writes the C program to the output file. The
output is written last, and only if nothing went wrong, so a job that fails changes no file.

A run of the command line is a file job, with the part of its log that the verbosity admits.

Both are said once, for whatever there is to read from and write to (`Host`). The files of a
workspace are such a host, and so are those of the machine.
-/

set_option autoImplicit false

namespace TeenyTiny

/-- Why a file job failed. -/
inductive Failure where
  | unreadable (path : String) (cause : FileError)
  | rejected (diagnostic : Diagnostic)
  | unwritable (path : String) (cause : FileError)
  deriving DecidableEq

namespace Failure

/-- What is reported of a failure. -/
def message : Failure → String
  | unreadable path cause => "unable to read " ++ path ++ ": " ++ cause.message
  | rejected diagnostic => diagnostic.render
  | unwritable path cause => "unable to write " ++ path ++ ": " ++ cause.message

/-- Where a failure points in the source, if it is about the source. -/
def position? : Failure → Option Position
  | rejected diagnostic => some diagnostic.position
  | unreadable _ _ | unwritable _ _ => none

end Failure

/-- A C program ready to be written, or why there is none, and the log up to there. -/
structure Preparation where
  program : Except Failure String
  log : List Record

/-- Compiles what was read from a path. -/
def Preparation.ofContent (path : String) (content : Except FileError ByteArray) : Preparation :=
  match content with
  | .error cause => ⟨.error (.unreadable path cause), [.compiling path]⟩
  | .ok bytes =>
      match String.fromUTF8? bytes with
      | none => ⟨.error (.unreadable path .notText), [.compiling path]⟩
      | some source =>
          let compilation := Compilation.ofSource source {}
          ⟨(compilation.result source).mapError .rejected, .compiling path :: compilation.log⟩

/-- What a job has to do with files: each attempt to read or to write one succeeds or says why it
cannot be done. -/
structure Host (m : Type → Type) where
  read (path : String) : m (Except FileError ByteArray)
  write (path : String) (content : ByteArray) : m (Except FileError Unit)

/-- How a file job went. -/
structure Report where
  failure? : Option Failure
  log : List Record

/-- Compiles one file of a host to another. -/
def Host.compile {m : Type → Type} [Monad m] (host : Host m) (input output : String) :
    m Report := do
  let prepared := Preparation.ofContent input (← host.read input)
  match prepared.program with
  | .error failure => return ⟨some failure, prepared.log⟩
  | .ok program =>
      match ← host.write output program.toUTF8 with
      | .error cause => return ⟨some (.unwritable output cause), prepared.log⟩
      | .ok _ => return ⟨none, prepared.log ++ [.wrote output]⟩

/-- How a file job of a workspace went, and what it left behind. -/
structure Job extends Report where
  workspace : Workspace

namespace Workspace

/-- The files of a workspace, where the system may refuse what is tried. -/
def host (refusals : Refusals) : Host (StateM Workspace) where
  read path := do
    let workspace ← get
    return workspace.readUnless refusals.reading? path
  write path content := do
    let workspace ← get
    match workspace.writeUnless refusals.writing? path content with
    | .error cause => return .error cause
    | .ok after =>
        set after
        return .ok ()

/-- Compiles one file of a workspace to another. -/
def compile (workspace : Workspace) (input output : String) (refusals : Refusals := {}) : Job :=
  let (report, after) := Id.run (((host refusals).compile input output).run workspace)
  ⟨report, after⟩

end Workspace

/-- How an error is announced. -/
def Session.errorText (message : String) : String :=
  "error: " ++ message

/-- How a run of the command line ends. -/
structure Ending where
  exitCode : Nat
  /-- The records that are shown, in order. -/
  entries : List Entry
  /-- What went wrong. -/
  error? : Option String

namespace Ending

/-- The last line of a run that went wrong. -/
def closing (ending : Ending) : List String :=
  (ending.error?.map Session.errorText).toList

/-- What is written to standard error: the log as it is shown, and then what went wrong. -/
def lines (ending : Ending) : List String :=
  ending.entries.map Entry.render ++ ending.closing

/-- The same, with every stamp left out. -/
def messages (ending : Ending) : List String :=
  ending.entries.map (fun entry => entry.record.render) ++ ending.closing

end Ending

/-- The records of a log that a level admits, each with the stamp for its place in the log. -/
def Level.shown (level : Level) (stamps : Nat → Stamp) (log : List Record) : List Entry :=
  (log.mapIdx fun index record => ⟨stamps index, record⟩).filter fun entry =>
    level.admits entry.record.level

/-- What a file job shows at a level: its log, and why it failed. -/
def Report.ending (report : Report) (level : Level) (stamps : Nat → Stamp) : Ending where
  exitCode := if report.failure?.isSome then 1 else 0
  entries := level.shown stamps (.logging level :: report.log)
  error? := report.failure?.map Failure.message

/-- Runs a job at its verbosity. -/
def Host.invoke {m : Type → Type} [Monad m] (host : Host m) (stamps : Nat → Stamp)
    (invocation : Invocation) : m Ending :=
  match Level.ofVerbosity? invocation.verbosity with
  | none => return ⟨1, [], some (Level.excessMessage invocation.verbosity)⟩
  | some level => do
      let report ← host.compile invocation.source invocation.output
      return report.ending level stamps

/-- A run of the command line in a workspace, and what it left behind. -/
structure Session extends Ending where
  workspace : Workspace

namespace Session

/-- Runs a job at its verbosity. -/
def ofInvocation (workspace : Workspace) (invocation : Invocation)
    (refusals : Workspace.Refusals := {}) (stamps : Nat → Stamp := fun _ => {}) : Session :=
  let (ending, after) := Id.run (((Workspace.host refusals).invoke stamps invocation).run workspace)
  ⟨ending, after⟩

/-- Runs the command line. -/
def ofArguments (workspace : Workspace) (arguments : List String)
    (refusals : Workspace.Refusals := {}) (stamps : Nat → Stamp := fun _ => {}) : Session :=
  match Request.ofArguments arguments with
  | .help => ⟨⟨0, [], none⟩, workspace⟩
  | .refuse _ => ⟨⟨2, [], none⟩, workspace⟩
  | .run invocation => ofInvocation workspace invocation refusals stamps

end Session

end TeenyTiny
