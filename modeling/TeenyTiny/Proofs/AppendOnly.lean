import TeenyTiny.Proofs.Relocation

/-!
# Compiling behind what was written before

A program may be compiled into an output that holds something already: text added by hand, another
program, or as much of another program as was written before a fault. Nothing that is there is
looked at. The output of the run takes its place behind it, the header behind the header and the
body behind the body (`Output.append`), and the names, the log and the fault are those of a run with
nothing written before (`Cursor.compile_append`).

So every way to add to an output has its own header and body (`Addition.part`), which do not depend
on where they are added, and a whole history of additions leaves all the headers in order and then
all the bodies in order (`Addition.foldl_onto`).
-/

set_option autoImplicit false

namespace TeenyTiny

/-! ## One output behind another -/

namespace Output

/-- One output behind another. -/
def append (first second : Output) : Output :=
  ⟨first.header ++ second.header, first.body ++ second.body⟩

variable (first second : Output)

theorem append_empty : first.append {} = first := by
  simp [append]

theorem append_assoc (third : Output) :
    (first.append second).append third = first.append (second.append third) := by
  simp only [append, String.append_assoc]

theorem write_append (text : String) :
    (first.append second).write text = first.append (second.write text) := by
  simp only [append, write, String.append_assoc]

theorem headLine_append (line : String) :
    (first.append second).headLine line = first.append (second.headLine line) := by
  simp only [append, headLine, String.append_assoc]

end Output

/-! ## Drafts behind an output -/

namespace Draft

/-- The same draft, with something written before. -/
def behind (output : Output) (draft : Draft) : Draft :=
  { draft with output := output.append draft.output }

variable (output : Output) (draft : Draft)

/-- An action adds what it adds, whatever was written before. -/
theorem perform_behind (action : Action) :
    (draft.behind output).perform action = (draft.perform action).behind output := by
  cases action with
  | head line => simp only [perform, head, behind, Output.headLine_append]
  | write text => simp only [perform, write, behind, Output.write_append]
  | declare name =>
      show (draft.behind output).declare name = (draft.declare name).behind output
      cases known : draft.names.hasVariable name with
      | true =>
          have known' : (draft.behind output).names.hasVariable name = true := known
          rw [declare_of_known known, declare_of_known known']
      | false =>
          have new : (draft.behind output).names.hasVariable name = false := known
          rw [declare_of_new known, declare_of_new new]
          simp only [behind, Output.headLine_append]
  | note _ | label _ _ | jump _ _ | use _ _ | settle => rfl

/-- Actions break the same rule and add the same, whatever was written before. -/
theorem performAll_behind (actions : List Action) :
    (draft.behind output).performAll actions =
      ((draft.performAll actions).1.behind output, (draft.performAll actions).2) := by
  induction actions generalizing draft with
  | nil => rfl
  | cons action actions ih =>
      have names : (draft.behind output).names = draft.names := rfl
      rw [performAll, performAll, names]
      cases action.fault? draft.names with
      | none => simp only [perform_behind, ih]
      | some fault => rfl

end Draft

/-- Compiling adds to the output what it writes by itself, and goes as it goes by itself. -/
theorem Cursor.compile_append (cursor : Cursor) (output : Output) :
    cursor.compile output =
      ⟨(cursor.compile {}).draft.behind output, (cursor.compile {}).fault?⟩ := by
  have start : ({ output } : Draft) = Draft.behind output {} := by
    rw [Draft.behind, Output.append_empty]
  simp only [Cursor.compile, start, Draft.performAll_behind]

/-! ## Histories of an output -/

/-- One way to add to an output: by hand, or by compiling what is ahead of a cursor. -/
inductive Addition where
  | write (text : String)
  | writeLine (line : String)
  | headLine (line : String)
  | program (cursor : Cursor)

namespace Addition

/-- What becomes of an output. A program that is refused leaves what was written up to there. -/
def onto (output : Output) : Addition → Output
  | .write text => output.write text
  | .writeLine line => output.writeLine line
  | .headLine line => output.headLine line
  | .program cursor => (cursor.compile output).draft.output

/-- The header and the body that are added. -/
def part : Addition → Output
  | .write text => ⟨"", text⟩
  | .writeLine line => ⟨"", line ++ "\n"⟩
  | .headLine line => ⟨line ++ "\n", ""⟩
  | .program cursor => (cursor.compile {}).draft.output

theorem onto_eq (output : Output) (addition : Addition) :
    addition.onto output = output.append addition.part := by
  cases addition with
  | write text => simp [onto, part, Output.write, Output.append]
  | writeLine line => simp [onto, part, Output.writeLine, Output.write, Output.append]
  | headLine line => simp [onto, part, Output.headLine, Output.append]
  | program cursor =>
      rw [onto, cursor.compile_append]
      rfl

/-- A history of additions adds their parts in order, headers to the header and bodies to the
body. -/
theorem foldl_onto (additions : List Addition) (output : Output) :
    additions.foldl onto output =
      output.append ⟨String.join (additions.map (·.part.header)),
        String.join (additions.map (·.part.body))⟩ := by
  induction additions generalizing output with
  | nil => exact output.append_empty.symm
  | cons addition additions ih =>
      rw [List.foldl_cons, ih, onto_eq, Output.append_assoc]
      simp only [List.map_cons, String.join_cons]
      rfl

end Addition

/-- Compiling only adds to an output and never looks at it: the fault, the names and the log are
those of a run with nothing written before, and what that run writes is added to the header and to
the body. Hence whatever is added to an output, by hand or by compiling, it renders as what it held
and the parts that were added, all the headers in order and then all the bodies. -/
theorem compiling_only_appends :
    (∀ (cursor : Cursor) (output : Output),
      (cursor.compile output).fault? = (cursor.compile {}).fault? ∧
      (cursor.compile output).draft.names = (cursor.compile {}).draft.names ∧
      (cursor.compile output).log = (cursor.compile {}).log ∧
      (cursor.compile output).draft.output.header =
        output.header ++ (cursor.compile {}).draft.output.header ∧
      (cursor.compile output).draft.output.body =
        output.body ++ (cursor.compile {}).draft.output.body) ∧
    ∀ (additions : List Addition) (output : Output),
      (additions.foldl Addition.onto output).render =
        output.header ++ String.join (additions.map (·.part.header)) ++
          (output.body ++ String.join (additions.map (·.part.body))) := by
  refine ⟨fun cursor output => ?_, fun additions output => ?_⟩
  · rw [cursor.compile_append]
    exact ⟨rfl, rfl, rfl, rfl, rfl⟩
  · rw [Addition.foldl_onto]
    rfl

end TeenyTiny
