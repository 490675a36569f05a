import TeenyTiny.Proofs.FaultTokens
import TeenyTiny.Session

/-!
# File jobs

A file job does all of its work or none (`Workspace.compile_all_or_nothing`). If it fails, nothing
has changed, and the failure says which of its steps could not be done (`Workspace.Fails`). If it
succeeds, one file holds the program that was compiled from what the source file held before
(`Workspace.Delivers`), and every other file is as it was. So after any number of jobs, a file that
is not as it was at the start is the work of one job that succeeded.

Nothing is assumed about what the system lets a job do. Each job may be refused its source or its
output for whatever reason, also where both files are there (`Errand.refusals`).

The log of a job says the same: what is logged while a program is read is never as weighty as the
two records about files (`Compilation.level_of_mem_log`).
-/

set_option autoImplicit false

namespace TeenyTiny

/-! ## Texts as bytes -/

theorem fromUTF8_eq_some {bytes : ByteArray} {source : String} :
    String.fromUTF8? bytes = some source ↔ bytes = source.toUTF8 := by
  unfold String.fromUTF8?
  constructor
  · intro found
    split at found
    · cases found
      rfl
    · cases found
  · rintro rfl
    rw [String.toUTF8_eq_toByteArray, dif_pos source.isValidUTF8]
    rfl

theorem fromUTF8_eq_none {bytes : ByteArray} :
    String.fromUTF8? bytes = none ↔ ∀ source : String, bytes ≠ source.toUTF8 := by
  constructor
  · intro none source same
    cases none.symm.trans (fromUTF8_eq_some.mpr same)
  · intro other
    cases found : String.fromUTF8? bytes with
    | none => rfl
    | some source => exact absurd (fromUTF8_eq_some.mp found) (other source)

/-! ## Reading and writing files -/

namespace Workspace

theorem content_put_self (workspace : Workspace) (location : Location) (content : ByteArray) :
    (workspace.put location content).content? location = some content := by
  simp [content?, put]

/-- Putting a file somewhere leaves the files elsewhere. -/
theorem content_put_other (workspace : Workspace) {location other : Location} (content : ByteArray)
    (elsewhere : other ≠ location) :
    (workspace.put location content).content? other = workspace.content? other := by
  have kept (files : List (Location × ByteArray)) :
      (files.filter fun file => file.1 != location).lookup other = files.lookup other := by
    induction files with
    | nil => rfl
    | cons file files ih =>
        obtain ⟨there, bytes⟩ := file
        by_cases same : there = location
        · subst same
          have passed : (other == there) = false := beq_eq_false_iff_ne.mpr elsewhere
          simp only [List.filter_cons, bne_self_eq_false, Bool.false_eq_true, if_false, ih,
            List.lookup_cons, passed]
        · have stays : (there != location) = true := bne_iff_ne.mpr same
          simp only [List.filter_cons, stays, if_true, List.lookup_cons, ih]
  have passed : (other == location) = false := beq_eq_false_iff_ne.mpr elsewhere
  simp only [content?, put, List.lookup_cons, passed, kept]

section Put

variable {workspace : Workspace} {location : Location} {content : ByteArray}

theorem isDirectory_put (workspace : Workspace) (location : Location) (content : ByteArray) :
    (workspace.put location content).isDirectory = workspace.isDirectory := rfl

/-- Whatever leads somewhere still does when a file has been put. -/
theorem enter_put {directory inner : Location} {name : String}
    (found : workspace.enter directory name = .ok inner) :
    (workspace.put location content).enter directory name = .ok inner := by
  unfold enter at found ⊢
  rw [isDirectory_put]
  by_cases here : name = "."
  · rwa [if_pos here] at found ⊢
  by_cases up : name = ".."
  · rwa [if_neg here, if_pos up] at found ⊢
  by_cases long : name.utf8ByteSize > maxNameBytes
  · rw [if_neg here, if_neg up, if_pos long] at found
    cases found
  by_cases inside : workspace.isDirectory (.entry directory name) = true
  · rwa [if_neg here, if_neg up, if_neg long, if_pos inside] at found ⊢
  · rw [if_neg here, if_neg up, if_neg long, if_neg inside] at found
    split at found
    · cases found
    · cases found

theorem enterAll_put {directory inner : Location} {names : List String}
    (found : workspace.enterAll directory names = .ok inner) :
    (workspace.put location content).enterAll directory names = .ok inner := by
  induction names generalizing directory with
  | nil => exact found
  | cons name names ih =>
      rw [enterAll] at found ⊢
      cases entered : workspace.enter directory name with
      | error failure =>
          rw [entered] at found
          cases found
      | ok middle =>
          rw [entered] at found
          rw [enter_put entered]
          exact ih found

theorem follow_put {path : String} {target : Target} (found : workspace.follow path = .ok target) :
    (workspace.put location content).follow path = .ok target := by
  unfold follow at found ⊢
  by_cases empty : path = ""
  · rw [if_pos empty] at found
    cases found
  by_cases null : path.toList.contains '\x00' = true
  · rw [if_neg empty, if_pos null] at found
    cases found
  by_cases long : path.utf8ByteSize > maxPathBytes
  · rw [if_neg empty, if_neg null, if_pos long] at found
    cases found
  rw [if_neg empty, if_neg null, if_neg long] at found ⊢
  dsimp only at found ⊢
  cases entered : workspace.enterAll
      (if path.toList.head? = some '/' then Location.root else Location.here)
      (pathNames path).dropLast with
  | error failure =>
      rw [entered] at found
      cases found
  | ok directory =>
      rw [entered] at found
      rw [enterAll_put entered]
      exact found

end Put

/-- A path leads to a place for a file. -/
def LeadsTo (workspace : Workspace) (path : String) (location : Location) : Prop :=
  ∃ directory name, workspace.follow path = .ok (.name directory name false) ∧
    location = .entry directory name

/-- What is written comes to lie where the path leads, and can be read there. -/
theorem exists_of_write {workspace after : Workspace} {path : String} {content : ByteArray}
    (written : workspace.write path content = .ok after) :
    ∃ location, workspace.LeadsTo path location ∧ after = workspace.put location content ∧
      after.read path = .ok content := by
  unfold write at written
  cases followed : workspace.follow path with
  | error failure =>
      rw [followed] at written
      cases written
  | ok target =>
      rw [followed] at written
      cases target with
      | directory => cases written
      | name directory name slash =>
          cases slash with
          | true => cases written
          | false =>
              dsimp only at written
              by_cases long : name.utf8ByteSize > maxNameBytes
              · rw [if_pos long] at written
                cases written
              by_cases inside : workspace.isDirectory (.entry directory name) = true
              · rw [if_neg long, if_pos inside] at written
                cases written
              rw [if_neg long, if_neg inside] at written
              cases written
              refine ⟨_, ⟨directory, name, followed, rfl⟩, rfl, ?_⟩
              rw [read, follow_put followed]
              dsimp only
              rw [if_neg long, isDirectory_put, if_neg inside, content_put_self]
              rfl

section Refusals

variable {workspace after : Workspace} {refusal? : Option FileError} {path : String}
  {content : ByteArray}

/-- What the system lets be read is what the file holds. -/
theorem read_of_readUnless (found : workspace.readUnless refusal? path = .ok content) :
    workspace.read path = .ok content := by
  cases refusal? with
  | some cause => cases found
  | none => exact found

/-- What the system lets be written is written as a whole. -/
theorem write_of_writeUnless (written : workspace.writeUnless refusal? path content = .ok after) :
    workspace.write path content = .ok after := by
  cases refusal? with
  | some cause => cases written
  | none => exact written

end Refusals

end Workspace

/-! ## The log of a compilation -/

/-- What a token calls for to be logged is a rule that is entered. -/
theorem Place.level_of_mem_move {place : Place} {blocks : List Block} {token : Token} {next : Kind}
    {record : Record}
    (member : .note record ∈ (place.move blocks token next).now ++
      (place.move blocks token next).owed) : record.level = .trace := by
  rcases List.mem_append.mp member with now | owed
  · exact beq_iff_eq.mp (mayComeNow_of_mem now)
  · exact beq_iff_eq.mp (mayBeOwed_of_mem owed)

namespace Draft

theorem mem_log_declare {draft : Draft} {name : String} {record : Record}
    (member : record ∈ (draft.declare name).log) : record ∈ draft.log ∨ record.level = .debug := by
  cases known : draft.names.hasVariable name with
  | true =>
      rw [declare_of_known known] at member
      exact .inl member
  | false =>
      rw [declare_of_new known] at member
      rcases Array.mem_push.mp member with before | rfl
      · exact .inl before
      · exact .inr rfl

/-- What is logged when an action is performed: what it asks for, or that a name is new. -/
theorem mem_log_perform {draft : Draft} {action : Action} {record : Record}
    (member : record ∈ (draft.perform action).log) :
    record ∈ draft.log ∨ action = .note record ∨ record.level = .debug := by
  cases action with
  | note other =>
      rcases Array.mem_push.mp member with before | rfl
      · exact .inl before
      · exact .inr (.inl rfl)
  | declare name =>
      rcases mem_log_declare member with before | debug
      · exact .inl before
      · exact .inr (.inr debug)
  | label name loc =>
      rcases Array.mem_push.mp member with before | rfl
      · exact .inl before
      · exact .inr (.inr rfl)
  | head _ | write _ | jump _ _ | use _ _ | settle => exact .inl member

theorem mem_log_performAll {draft : Draft} {actions : List Action} {record : Record}
    (member : record ∈ (draft.performAll actions).1.log) :
    record ∈ draft.log ∨ .note record ∈ actions ∨ record.level = .debug := by
  induction actions generalizing draft with
  | nil => exact .inl member
  | cons action actions ih =>
      rw [performAll] at member
      cases broken : action.fault? draft.names with
      | some fault =>
          rw [broken] at member
          exact .inl member
      | none =>
          rw [broken] at member
          rcases ih member with done | asked | debug
          · rcases mem_log_perform done with before | rfl | debug
            · exact .inl before
            · exact .inr (.inl List.mem_cons_self)
            · exact .inr (.inr debug)
          · exact .inr (.inl (List.mem_cons_of_mem action asked))
          · exact .inr (.inr debug)

end Draft

/-- What is logged while a program is read is about its rules and its names. -/
theorem Compilation.level_of_mem_log {source : String} {output : Output} {record : Record}
    (member : record ∈ (ofSource source output).log) :
    record.level = .trace ∨ record.level = .debug := by
  have member := Array.mem_toList_iff.mp member
  rcases Draft.mem_log_performAll member with none | asked | debug
  · cases none with
    | mk impossible => cases impossible
  · rcases exists_move_of_mem_walk asked with before | ⟨token, -, place, blocks, next, calls⟩
    · have opening : record = .program := by simpa [prologue] using before
      rw [opening]
      exact .inl rfl
    · exact .inl (Place.level_of_mem_move calls)
  · exact .inr debug

/-! ## Jobs -/

/-- The text of the records about files, in order. -/
def infoMessages (log : List Record) : List String :=
  (log.filter fun record => record.level = .info).map Record.message

theorem infoMessages_log (source : String) (output : Output) :
    infoMessages (Compilation.ofSource source output).log = [] := by
  have none : (Compilation.ofSource source output).log.filter (fun record => record.level = .info) =
      [] := by
    apply List.filter_eq_nil_iff.mpr
    intro record member
    rcases Compilation.level_of_mem_log member with trace | debug
    · rw [trace]
      decide
    · rw [debug]
      decide
  rw [infoMessages, none]
  rfl

theorem infoMessages_compiling (path : String) (log : List Record) :
    infoMessages (.compiling path :: log) = ("compiling " ++ path) :: infoMessages log := rfl

theorem infoMessages_append (first second : List Record) :
    infoMessages (first ++ second) = infoMessages first ++ infoMessages second := by
  rw [infoMessages, List.filter_append, List.map_append]
  rfl

/-- A job that is to be done: a source path, an output path, and what the system refuses while it is
done. -/
structure Errand where
  input : String
  output : String
  refusals : Workspace.Refusals := {}

/-- A text that was read is compiled. -/
theorem Preparation.ofContent_text (path source : String) :
    Preparation.ofContent path (.ok source.toUTF8) =
      ⟨(compile source).mapError .rejected,
        .compiling path :: (Compilation.ofSource source {}).log⟩ := by
  rw [Preparation.ofContent, fromUTF8_eq_some.mpr rfl]
  rfl

namespace Workspace

/-- Does a job. -/
def run (workspace : Workspace) (errand : Errand) : Job :=
  workspace.compile errand.input errand.output errand.refusals

/-- Why a job fails: its source cannot be read, is no text or is refused, or its output cannot be
written. -/
inductive Fails (workspace : Workspace) (errand : Errand) : Failure → Prop where
  | unreadable {cause : FileError} :
      workspace.readUnless errand.refusals.reading? errand.input = .error cause →
      Fails workspace errand (.unreadable errand.input cause)
  | notText {bytes : ByteArray} :
      workspace.readUnless errand.refusals.reading? errand.input = .ok bytes →
      (∀ source : String, bytes ≠ source.toUTF8) →
      Fails workspace errand (.unreadable errand.input .notText)
  | rejected {source : String} {diagnostic : Diagnostic} :
      workspace.readUnless errand.refusals.reading? errand.input = .ok source.toUTF8 →
      TeenyTiny.compile source = .error diagnostic →
      Fails workspace errand (.rejected diagnostic)
  | unwritable {source program : String} {cause : FileError} :
      workspace.readUnless errand.refusals.reading? errand.input = .ok source.toUTF8 →
      TeenyTiny.compile source = .ok program →
      workspace.writeUnless errand.refusals.writing? errand.output program.toUTF8 = .error cause →
      Fails workspace errand (.unwritable errand.output cause)

/-- What a job delivers, and where: the program that its source is compiled to, where its output
path leads. -/
def Delivers (workspace : Workspace) (errand : Errand) (program : String) (location : Location) :
    Prop :=
  (∃ source : String, workspace.read errand.input = .ok source.toUTF8 ∧
    TeenyTiny.compile source = .ok program) ∧ workspace.LeadsTo errand.output location

section Steps

variable {workspace after : Workspace} {refusals : Refusals} {path : String} {content : ByteArray}
  {cause : FileError}

theorem run_read : ((host refusals).read path).run workspace =
    pure (workspace.readUnless refusals.reading? path, workspace) := rfl

theorem run_write_of_error
    (refused : workspace.writeUnless refusals.writing? path content = .error cause) :
    ((host refusals).write path content).run workspace = pure (.error cause, workspace) := by
  simp [host, refused]

theorem run_write_of_ok
    (written : workspace.writeUnless refusals.writing? path content = .ok after) :
    ((host refusals).write path content).run workspace = pure (.ok (), after) := by
  simp [host, written]

end Steps

/-- A job by its steps: what is read is compiled, and what comes of it is written. -/
theorem run_eq (workspace : Workspace) (errand : Errand) :
    workspace.run errand =
      let prepared := Preparation.ofContent errand.input
        (workspace.readUnless errand.refusals.reading? errand.input)
      match prepared.program with
      | .error failure => ⟨⟨some failure, prepared.log⟩, workspace⟩
      | .ok program =>
          match workspace.writeUnless errand.refusals.writing? errand.output program.toUTF8 with
          | .error cause => ⟨⟨some (.unwritable errand.output cause), prepared.log⟩, workspace⟩
          | .ok after => ⟨⟨none, prepared.log ++ [.wrote errand.output]⟩, after⟩ := by
  generalize reading : Preparation.ofContent errand.input
    (workspace.readUnless errand.refusals.reading? errand.input) = prepared
  obtain ⟨program, log⟩ := prepared
  rw [run, compile, Host.compile, StateT.run_bind, run_read, pure_bind, reading]
  cases program with
  | error failure => rfl
  | ok program =>
      dsimp only
      cases written : workspace.writeUnless errand.refusals.writing? errand.output
          program.toUTF8 with
      | error cause =>
          rw [StateT.run_bind, run_write_of_error written, pure_bind]
          rfl
      | ok after =>
          rw [StateT.run_bind, run_write_of_ok written, pure_bind]
          rfl

/-- What a job comes to when every step of it can be done. -/
theorem run_of_written (workspace : Workspace) {after : Workspace} (errand : Errand)
    {source program : String}
    (content : workspace.readUnless errand.refusals.reading? errand.input = .ok source.toUTF8)
    (compiled : TeenyTiny.compile source = .ok program)
    (written : workspace.writeUnless errand.refusals.writing? errand.output program.toUTF8 =
      .ok after) :
    workspace.run errand =
      ⟨⟨none, .compiling errand.input :: (Compilation.ofSource source {}).log ++
        [.wrote errand.output]⟩, after⟩ := by
  rw [run_eq, content, Preparation.ofContent_text, compiled]
  dsimp only [Except.mapError]
  rw [written]

/-- A job fails and changes nothing, or it puts the program that it delivers into one file. -/
theorem run_cases (workspace : Workspace) (errand : Errand) :
    let job := workspace.run errand
    (∃ failure, job.failure? = some failure ∧ workspace.Fails errand failure ∧
      job.workspace = workspace ∧ infoMessages job.log = ["compiling " ++ errand.input]) ∨
    (job.failure? = none ∧ ∃ program location,
      workspace.Delivers errand program location ∧
      job.workspace = workspace.put location program.toUTF8 ∧
      job.workspace.read errand.output = .ok program.toUTF8 ∧
      infoMessages job.log =
        ["compiling " ++ errand.input, "compilation completed, wrote " ++ errand.output]) := by
  rw [run_eq]
  cases content : workspace.readUnless errand.refusals.reading? errand.input with
  | error cause => exact .inl ⟨_, rfl, .unreadable content, rfl, rfl⟩
  | ok bytes =>
      cases text : String.fromUTF8? bytes with
      | none =>
          have prepared : Preparation.ofContent errand.input (.ok bytes) =
              ⟨.error (.unreadable errand.input .notText), [.compiling errand.input]⟩ := by
            rw [Preparation.ofContent, text]
          rw [prepared]
          exact .inl ⟨_, rfl, .notText content (fromUTF8_eq_none.mp text), rfl, rfl⟩
      | some source =>
          obtain rfl := fromUTF8_eq_some.mp text
          have logged :
              infoMessages (.compiling errand.input :: (Compilation.ofSource source {}).log) =
                ["compiling " ++ errand.input] := by
            rw [infoMessages_compiling, infoMessages_log]
          rw [Preparation.ofContent_text]
          cases result : TeenyTiny.compile source with
          | error diagnostic =>
              exact .inl ⟨_, rfl, .rejected content result, rfl, logged⟩
          | ok program =>
              dsimp only [Except.mapError]
              cases written : workspace.writeUnless errand.refusals.writing? errand.output
                  program.toUTF8 with
              | error cause =>
                  exact .inl ⟨_, rfl, .unwritable content result written, rfl, logged⟩
              | ok after =>
                  obtain ⟨location, leads, same, readable⟩ :=
                    exists_of_write (write_of_writeUnless written)
                  refine .inr ⟨rfl, program, location,
                    ⟨⟨source, read_of_readUnless content, result⟩, leads⟩, same, readable, ?_⟩
                  rw [infoMessages_append, logged]
                  rfl

/-- The workspace after jobs one after the other. -/
def afterJobs (workspace : Workspace) (errands : List Errand) : Workspace :=
  errands.foldl (fun workspace errand => (workspace.run errand).workspace) workspace

theorem afterJobs_concat (workspace : Workspace) (errands : List Errand) (errand : Errand) :
    workspace.afterJobs (errands ++ [errand]) =
      ((workspace.afterJobs errands).run errand).workspace := by
  rw [afterJobs, List.foldl_append]
  rfl

/-- A file that jobs have changed is what one of them delivered. -/
theorem content_afterJobs (workspace : Workspace) (errands : List Errand) (location : Location) :
    (workspace.afterJobs errands).content? location = workspace.content? location ∨
      ∃ earlier errand later program, errands = earlier ++ errand :: later ∧
        ((workspace.afterJobs earlier).run errand).failure? = none ∧
        (workspace.afterJobs earlier).Delivers errand program location ∧
        (workspace.afterJobs errands).content? location = some program.toUTF8 := by
  induction errands generalizing workspace with
  | nil => exact .inl rfl
  | cons errand errands ih =>
      have next (errands : List Errand) :
          workspace.afterJobs (errand :: errands) =
            (workspace.run errand).workspace.afterJobs errands := rfl
      rw [next]
      rcases ih (workspace.run errand).workspace with
        kept | ⟨earlier, errand', later, program, rfl, succeeds, delivers, final⟩
      · rw [kept]
        rcases workspace.run_cases errand with
          ⟨failure, -, -, same, -⟩ | ⟨succeeds, program, there, delivers, same, -⟩
        · exact .inl (by rw [same])
        · rw [same]
          by_cases here : location = there
          · subst here
            exact .inr ⟨[], errand, errands, program, rfl, succeeds, delivers,
              content_put_self _ _ _⟩
          · exact .inl (content_put_other _ _ here)
      · refine .inr ⟨errand :: earlier, errand', later, program, rfl, ?_, ?_, final⟩
        · rw [next]
          exact succeeds
        · rw [next]
          exact delivers

/-- A job does all of its work or none, whatever jobs came before it and whatever the system
refuses. If it fails, one of its steps could not be done, nothing has changed, and the only record
about files is that it started. If it succeeds, the output file holds the program that the source
file was compiled to as it was before, every other file and every directory is as it was, and two
records say so. Hence a file that any number of jobs have changed is what one of them delivered. -/
theorem compile_all_or_nothing (workspace : Workspace) :
    (∀ earlier errand,
      let before := workspace.afterJobs earlier
      let job := before.run errand
      let after := workspace.afterJobs (earlier ++ [errand])
      match job.failure? with
      | some failure =>
          before.Fails errand failure ∧ after = before ∧
            infoMessages job.log = ["compiling " ++ errand.input]
      | none =>
          ∃ program location, before.Delivers errand program location ∧
            after.read errand.output = .ok program.toUTF8 ∧
            after.content? location = some program.toUTF8 ∧
            (∀ other ≠ location, after.content? other = before.content? other) ∧
            after.directories = before.directories ∧
            infoMessages job.log =
              ["compiling " ++ errand.input, "compilation completed, wrote " ++ errand.output]) ∧
    ∀ errands location,
      (workspace.afterJobs errands).content? location = workspace.content? location ∨
        ∃ earlier errand later program, errands = earlier ++ errand :: later ∧
          ((workspace.afterJobs earlier).run errand).failure? = none ∧
          (workspace.afterJobs earlier).Delivers errand program location ∧
          (workspace.afterJobs errands).content? location = some program.toUTF8 := by
  refine ⟨?_, workspace.content_afterJobs⟩
  intro earlier errand before job after
  have last : after = job.workspace := workspace.afterJobs_concat earlier errand
  rcases before.run_cases errand with
    ⟨failure, failed, fails, same, info⟩ | ⟨done, program, location, delivers, same, readable, info⟩
  · have failed : job.failure? = some failure := failed
    rw [failed, last]
    exact ⟨fails, same, info⟩
  · have done : job.failure? = none := done
    have same : job.workspace = before.put location program.toUTF8 := same
    rw [done, last]
    refine ⟨program, location, delivers, readable, ?_, ?_, ?_, info⟩
    · rw [same]
      exact content_put_self _ _ _
    · intro other elsewhere
      rw [same]
      exact content_put_other _ _ elsewhere
    · rw [same]
      rfl

/-- A job that may not write over its output leaves it as it was, and the next one that may replaces
it. -/
theorem compile_all_or_nothing_refused :
    let listed : Workspace := ⟨[(.entry .here "a.teeny", "LABEL a".toUTF8),
      (.entry .here "out.c", "kept".toUTF8)], []⟩
    let denied : FileError := .other "Permission denied (os error 13)"
    let refused : Errand := ⟨"a.teeny", "out.c", ⟨none, some denied⟩⟩
    let granted : Errand := ⟨"a.teeny", "out.c", ⟨none, none⟩⟩
    let program := "#include <stdio.h>\nint main(void)\x7b\na:;\nreturn 0;\n\x7d\n"
    (listed.run refused).failure? = some (.unwritable "out.c" denied) ∧
      infoMessages (listed.run refused).log = ["compiling a.teeny"] ∧
      (listed.afterJobs [refused]).read "out.c" = .ok "kept".toUTF8 ∧
      ((listed.afterJobs [refused]).run granted).failure? = none ∧
      (listed.afterJobs [refused, granted]).read "out.c" = .ok program.toUTF8 ∧
      (listed.afterJobs [refused, granted]).content? (.entry .here "a.teeny") =
        some "LABEL a".toUTF8 := by
  intro listed denied refused granted program
  have supply : (Cursor.ofSource "LABEL a").supply =
      ⟨[⟨.labelWord, "LABEL", 0⟩, ⟨.ident, "a", 6⟩, ⟨.newline, "\n", 7⟩], .ok ⟨.eof, "", 8⟩⟩ :=
    Cursor.supply_of_take (by rfl) (by decide) (by intro last same; cases same; rfl)
  have compiled : TeenyTiny.compile "LABEL a" = .ok program := by
    rw [TeenyTiny.compile, Compilation.ofSource, Cursor.compile, supply]
    rfl
  have readable : listed.read "a.teeny" = .ok "LABEL a".toUTF8 := by rfl
  have failed : (listed.run refused).failure? = some (.unwritable "out.c" denied) := by
    rw [run_eq, readUnless, readable, Preparation.ofContent_text, compiled]
    rfl
  have written : listed.write "out.c" program.toUTF8 =
      .ok (listed.put (.entry .here "out.c") program.toUTF8) := by rfl
  have done := listed.run_of_written granted readable compiled written
  obtain ⟨jobs, -⟩ := listed.compile_all_or_nothing
  obtain ⟨-, kept, info⟩ : listed.Fails refused _ ∧ listed.afterJobs [refused] = listed ∧ _ := by
    have first := jobs [] refused
    dsimp only at first
    rwa [show listed.afterJobs [] = listed from rfl, failed] at first
  have second := jobs [refused] granted
  dsimp only at second
  rw [kept, done] at second
  obtain ⟨program', location, ⟨⟨source, content, result⟩, directory, name, leads, rfl⟩, replaced, -,
    elsewhere, -⟩ := second
  obtain rfl : "LABEL a" = source :=
    String.toByteArray_inj.mp (Except.ok.inj (readable.symm.trans content))
  cases compiled.symm.trans result
  cases leads.symm.trans (by rfl : listed.follow "out.c" = .ok (.name .here "out.c" false))
  refine ⟨failed, info, by rw [kept]; rfl, by rw [kept, done], replaced, ?_⟩
  exact elsewhere (.entry .here "a.teeny") (by decide)

end Workspace

end TeenyTiny
