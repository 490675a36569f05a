import TeenyTiny.Proofs.FileJobs

/-!
# Verbosity

The verbosity of a run decides which records are shown, and nothing else
(`Session.ofInvocation_verbosity`). Runs that differ in their verbosity alone exit alike, leave the
same files behind and end in the same error; the quieter run shows those records of the louder run
that its own level admits (`Level.shown_logging`). The record with which a log starts names the
level it is kept at, so it differs between the runs. It is shown at the most detailed level only,
where the two cannot differ.

The time is part of a stamp, so two runs need not be stamped alike. What they share are the records;
where they are stamped alike, they share the lines.

Past the most detailed level there is no run: it is refused before a file is touched.
-/

set_option autoImplicit false

namespace TeenyTiny

/-! ## Levels -/

namespace Level

/-- A verbosity asks for the level of its rank. -/
theorem ofVerbosity_eq_some_iff {verbosity : Nat} {level : Level} :
    ofVerbosity? verbosity = some level ↔ level.rank = verbosity := by
  constructor
  · intro found
    unfold ofVerbosity? at found
    split at found
    case h_6 => cases found
    all_goals
      cases found
      rfl
  · rintro rfl
    cases level <;> rfl

theorem rank_le_four (level : Level) : level.rank ≤ 4 := by
  cases level <;> decide

/-- Up to four, every verbosity asks for a level. -/
theorem exists_ofVerbosity {verbosity : Nat} (bounded : verbosity ≤ 4) :
    ∃ level, ofVerbosity? verbosity = some level := by
  match verbosity with
  | 0 => exact ⟨error, rfl⟩
  | 1 => exact ⟨warn, rfl⟩
  | 2 => exact ⟨info, rfl⟩
  | 3 => exact ⟨debug, rfl⟩
  | 4 => exact ⟨trace, rfl⟩
  | more + 5 => omega

/-- Above four, no verbosity does. -/
theorem ofVerbosity_eq_none {verbosity : Nat} (excessive : 4 < verbosity) :
    ofVerbosity? verbosity = none := by
  cases found : ofVerbosity? verbosity with
  | none => rfl
  | some level =>
      have rank := ofVerbosity_eq_some_iff.mp found
      have bounded := level.rank_le_four
      omega

/-- What a level admits is admitted by every level that shows more. -/
theorem admits_of_le {quiet loud level : Level} (below : quiet.rank ≤ loud.rank)
    (admitted : quiet.admits level = true) : loud.admits level = true := by
  have inside : level.rank ≤ quiet.rank := of_decide_eq_true admitted
  exact decide_eq_true (Nat.le_trans inside below)

end Level

/-! ## What is shown -/

namespace Level

/-- Stamps do not count for what is shown. -/
theorem map_record_shown (level : Level) (stamps : Nat → Stamp) (log : List Record) :
    (level.shown stamps log).map Entry.record =
      log.filter fun record => level.admits record.level := by
  induction log generalizing stamps with
  | nil => rfl
  | cons record log ih =>
      have later := ih fun index => stamps (index + 1)
      rw [shown, List.mapIdx_cons, List.filter_cons, List.filter_cons, ← later]
      dsimp only
      cases level.admits record.level with
      | true => rfl
      | false => rfl

/-- At a level, those entries of a log are shown that a more detailed level shows and this one
admits. -/
theorem shown_eq_filter {quiet loud : Level} (below : quiet.rank ≤ loud.rank)
    (stamps : Nat → Stamp) (log : List Record) :
    quiet.shown stamps log =
      (loud.shown stamps log).filter fun entry => quiet.admits entry.record.level := by
  rw [shown, shown, List.filter_filter]
  apply List.filter_congr
  intro entry _
  cases admitted : quiet.admits entry.record.level with
  | false => rfl
  | true =>
      rw [admits_of_le below admitted]
      rfl

/-- The same of the logs of two runs, whose first records differ. -/
theorem shown_logging {quiet loud : Level} (below : quiet.rank ≤ loud.rank)
    (stamps : Nat → Stamp) (log : List Record) :
    quiet.shown stamps (.logging quiet :: log) =
      (loud.shown stamps (.logging loud :: log)).filter fun entry =>
        quiet.admits entry.record.level := by
  rw [← shown_eq_filter below]
  by_cases detailed : quiet = .trace
  · -- The levels are the same, and so is the first record.
    subst detailed
    have same : loud = .trace := by
      cases loud with
      | trace => rfl
      | error | warn | info | debug => exact absurd below (by decide)
    rw [same]
  · -- The first record of either log is left out.
    have hidden (level : Level) : quiet.admits (Record.logging level).level = false := by
      cases quiet with
      | trace => exact absurd rfl detailed
      | error | warn | info | debug => rfl
    rw [shown, shown, List.mapIdx_cons, List.mapIdx_cons,
      List.filter_cons_of_neg (by rw [hidden]; decide),
      List.filter_cons_of_neg (by rw [hidden]; decide)]

end Level

/-- What a job shows but for the stamps: the records that the level admits, and why it failed. -/
theorem Report.messages_ending (report : Report) (level : Level) (stamps : Nat → Stamp) :
    (report.ending level stamps).messages =
      ((.logging level :: report.log).filter fun record => level.admits record.level).map
          Record.render ++
        (report.failure?.map fun failure => Session.errorText failure.message).toList := by
  rw [Ending.messages, Ending.closing, ← level.map_record_shown stamps, List.map_map, ending,
    Option.map_map]
  rfl

/-! ## Runs -/

namespace Session

section Runs

variable (workspace : Workspace) (refusals : Workspace.Refusals) (source output : String)

/-- What a run comes to at a verbosity that asks for a level. -/
theorem ofInvocation_of_level (stamps : Nat → Stamp) {verbosity : Nat} {level : Level}
    (asked : Level.ofVerbosity? verbosity = some level) :
    ofInvocation workspace ⟨verbosity, output, source⟩ refusals stamps =
      ⟨(workspace.compile source output refusals).ending level stamps,
        (workspace.compile source output refusals).workspace⟩ := by
  rw [ofInvocation, Host.invoke, asked]
  rfl

/-- Past the most detailed level nothing is run. -/
theorem ofInvocation_of_excess (stamps : Nat → Stamp) {verbosity : Nat}
    (excessive : 4 < verbosity) :
    ofInvocation workspace ⟨verbosity, output, source⟩ refusals stamps =
      ⟨⟨1, [], some (Level.excessMessage verbosity)⟩, workspace⟩ := by
  rw [ofInvocation, Host.invoke, Level.ofVerbosity_eq_none excessive]
  rfl

/-- Verbosity never changes what is compiled. Up to four it decides which records are shown: of two
runs, the quieter one shows those records of the other that its level admits, and both exit alike,
leave the same files and end in the same error. Where the two are stamped alike, the lines of the
quieter run are lines of the other. The exit code is that of the job. Above four no job is run: the
exit code is one, and no file has changed. -/
theorem ofInvocation_verbosity :
    let run (stamps : Nat → Stamp) (verbosity : Nat) : Session :=
      ofInvocation workspace ⟨verbosity, output, source⟩ refusals stamps
    let job := workspace.compile source output refusals
    (∀ stamps stamps' quieter louder, quieter ≤ louder → louder ≤ 4 →
      (run stamps quieter).exitCode = (run stamps' louder).exitCode ∧
      (run stamps quieter).workspace = (run stamps' louder).workspace ∧
      (run stamps quieter).closing = (run stamps' louder).closing ∧
      ∃ quiet, Level.ofVerbosity? quieter = some quiet ∧
        (run stamps quieter).entries.map Entry.record =
          ((run stamps' louder).entries.map Entry.record).filter
            (fun record => quiet.admits record.level) ∧
        (stamps = stamps' → (run stamps quieter).lines =
          ((run stamps' louder).entries.filter fun entry =>
            quiet.admits entry.record.level).map Entry.render ++ (run stamps' louder).closing)) ∧
    (∀ stamps, ∀ verbosity ≤ 4,
      (∃ level, Level.ofVerbosity? verbosity = some level ∧
        (run stamps verbosity).messages =
          ((.logging level :: job.log).filter fun record => level.admits record.level).map
            Record.render ++
          (job.failure?.map fun failure => errorText failure.message).toList) ∧
      (run stamps verbosity).workspace = job.workspace ∧
      (job.failure? = none ∧ (run stamps verbosity).exitCode = 0 ∨
        (∃ failure, job.failure? = some failure) ∧ (run stamps verbosity).exitCode = 1)) ∧
    ∀ stamps, ∀ verbosity > 4,
      (run stamps verbosity).exitCode = 1 ∧ (run stamps verbosity).workspace = workspace := by
  intro run job
  refine ⟨?_, ?_, ?_⟩
  · intro stamps stamps' quieter louder below bounded
    obtain ⟨quiet, asked⟩ := Level.exists_ofVerbosity (Nat.le_trans below bounded)
    obtain ⟨loud, asked'⟩ := Level.exists_ofVerbosity bounded
    have ranks : quiet.rank ≤ loud.rank := by
      rw [Level.ofVerbosity_eq_some_iff.mp asked, Level.ofVerbosity_eq_some_iff.mp asked']
      exact below
    have first : run stamps quieter = ⟨job.ending quiet stamps, job.workspace⟩ :=
      ofInvocation_of_level workspace refusals source output stamps asked
    have second : run stamps' louder = ⟨job.ending loud stamps', job.workspace⟩ :=
      ofInvocation_of_level workspace refusals source output stamps' asked'
    rw [first, second]
    refine ⟨rfl, rfl, rfl, quiet, asked, ?_, ?_⟩
    · calc (quiet.shown stamps (.logging quiet :: job.log)).map Entry.record
          = (quiet.shown stamps' (.logging quiet :: job.log)).map Entry.record := by
            rw [Level.map_record_shown, Level.map_record_shown]
        _ = ((loud.shown stamps' (.logging loud :: job.log)).map Entry.record).filter
              fun record => quiet.admits record.level := by
            rw [Level.shown_logging ranks, List.filter_map]
            rfl
    · rintro rfl
      rw [Ending.lines]
      dsimp only [Report.ending]
      rw [Level.shown_logging ranks]
      rfl
  · intro stamps verbosity bounded
    obtain ⟨level, asked⟩ := Level.exists_ofVerbosity bounded
    have same : run stamps verbosity = ⟨job.ending level stamps, job.workspace⟩ :=
      ofInvocation_of_level workspace refusals source output stamps asked
    rw [same]
    refine ⟨⟨level, asked, job.messages_ending level stamps⟩, rfl, ?_⟩
    dsimp only [Report.ending]
    cases outcome : job.failure? with
    | none => exact .inl ⟨rfl, rfl⟩
    | some failure => exact .inr ⟨⟨failure, rfl⟩, rfl⟩
  · intro stamps verbosity excessive
    have same : run stamps verbosity = _ :=
      ofInvocation_of_excess workspace refusals source output stamps excessive
    rw [same]
    exact ⟨rfl, rfl⟩

end Runs

/-- A program that is compiled, at verbosities from two to four and at one that is refused. -/
theorem ofInvocation_verbosity_compiled :
    let workspace : Workspace := ⟨[(.entry .here "a.teeny", "LET a = 1".toUTF8)], []⟩
    let stamps (index : Nat) : Stamp := ⟨none, some index, "noon"⟩
    let run (verbosity : Nat) : Session :=
      ofInvocation workspace ⟨verbosity, "out.c", "a.teeny"⟩ {} stamps
    let program :=
      "#include <stdio.h>\nint main(void)\x7b\nfloat a;\na = 1.0;\nreturn 0;\n\x7d\n"
    Request.ofArguments ["-vv", "a.teeny"] = .run ⟨2, "out.c", "a.teeny"⟩ ∧
    (run 2).lines = ["[INFO unknown:1 noon] compiling a.teeny",
      "[INFO unknown:9 noon] compilation completed, wrote out.c"] ∧
    (run 3).lines = ["[INFO unknown:1 noon] compiling a.teeny",
      "[DEBUG unknown:4 noon] declared variable a",
      "[INFO unknown:9 noon] compilation completed, wrote out.c"] ∧
    (run 4).lines = ["[TRACE unknown:0 noon] logger verbosity TRACE",
      "[INFO unknown:1 noon] compiling a.teeny", "[TRACE unknown:2 noon] program",
      "[TRACE unknown:3 noon] statement LET (next IDENT)",
      "[DEBUG unknown:4 noon] declared variable a", "[TRACE unknown:5 noon] expression",
      "[TRACE unknown:6 noon] term", "[TRACE unknown:7 noon] unary",
      "[TRACE unknown:8 noon] primary (1)",
      "[INFO unknown:9 noon] compilation completed, wrote out.c"] ∧
    (run 2).exitCode = 0 ∧ (run 3).exitCode = 0 ∧ (run 4).exitCode = 0 ∧
    (run 2).workspace = (run 4).workspace ∧ (run 3).workspace = (run 4).workspace ∧
    (run 4).workspace.read "out.c" = .ok program.toUTF8 ∧
    (run 5).exitCode = 1 ∧ (run 5).workspace = workspace := by
  intro workspace stamps run program
  have supply : (Cursor.ofSource "LET a = 1").supply =
      ⟨[⟨.letWord, "LET", 0⟩, ⟨.ident, "a", 4⟩, ⟨.assign, "=", 6⟩, ⟨.number, "1", 8⟩,
        ⟨.newline, "\n", 9⟩], .ok ⟨.eof, "", 10⟩⟩ :=
    Cursor.supply_of_take (by rfl) (by decide) (by intro last same; cases same; rfl)
  have compiled : compile "LET a = 1" = .ok program := by
    rw [compile, Compilation.ofSource, Cursor.compile, supply]
    rfl
  have log : (Compilation.ofSource "LET a = 1" {}).log = [.program, .statement .letWord .ident,
      .newVariable "a", .expression, .term, .unary, .primary "1"] := by
    rw [Compilation.ofSource, Cursor.compile, supply]
    rfl
  have readable : workspace.read "a.teeny" = .ok "LET a = 1".toUTF8 := by rfl
  have written : workspace.write "out.c" program.toUTF8 =
      .ok (workspace.put (.entry .here "out.c") program.toUTF8) := by rfl
  have job := workspace.run_of_written ⟨"a.teeny", "out.c", {}⟩ readable compiled written
  rw [log, Workspace.run] at job
  obtain ⟨two, -, excessive⟩ := ofInvocation_verbosity workspace {} "a.teeny" "out.c"
  have detailed : run 4 = _ := ofInvocation_of_level workspace {} "a.teeny" "out.c" stamps rfl
  rw [job] at detailed
  dsimp only [stamps] at detailed
  obtain ⟨code, files, -, quiet, asked, -, lines⟩ := two stamps stamps 2 4 (by decide) (by decide)
  obtain ⟨code', files', -, quiet', asked', -, lines'⟩ :=
    two stamps stamps 3 4 (by decide) (by decide)
  cases asked
  cases asked'
  have lines : (run 2).lines = ((run 4).entries.filter fun entry =>
      Level.info.admits entry.record.level).map Entry.render ++ (run 4).closing := lines rfl
  have lines' : (run 3).lines = ((run 4).entries.filter fun entry =>
      Level.debug.admits entry.record.level).map Entry.render ++ (run 4).closing := lines' rfl
  have done : (run 4).exitCode = 0 := by rw [detailed]; rfl
  obtain ⟨refused, kept⟩ := excessive stamps 5 (by decide)
  rw [detailed] at lines lines'
  refine ⟨by decide, lines.trans (by rfl), lines'.trans (by rfl), by rw [detailed]; rfl,
    code.trans done, code'.trans done, done, files, files', ?_, refused, kept⟩
  rw [detailed]
  rfl

end Session

end TeenyTiny
