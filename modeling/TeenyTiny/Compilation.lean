import TeenyTiny.Cursor
import TeenyTiny.Place

/-!
# Compiling a program

The tokens of a program, read two at a time, give a list of actions and possibly a fault (`walk`);
the actions give the C program, the names and the log (`Draft.performAll`). A fault that an action
meets comes before the one that ended the walk, since every action was called for earlier.

A program is compiled if neither meets a fault (`compile`).
-/

set_option autoImplicit false

namespace TeenyTiny

/-- What a program calls for, and the fault that ended the reading of it. -/
structure Walk where
  actions : List Action
  fault? : Option Fault

/-- The same walk, with something done before. -/
def Walk.after (first : List Action) (walk : Walk) : Walk :=
  ⟨first ++ walk.actions, walk.fault?⟩

/-- Walks along tokens from a place. The first token is the current one, and the second has been
read ahead; where there is none, the reading ended in the given fault, and what was owed for the
last token is not done. -/
def walk (ending : Option Fault) (place : Place) (blocks : List Block) (owed : List Action) :
    List Token → Walk
  | current :: ahead :: tokens =>
      let move := place.move blocks current ahead.kind
      match move.step with
      | .pass place blocks owed' =>
          .after (owed ++ move.now) (walk ending place blocks owed' (ahead :: tokens))
      | .refuse cause => ⟨owed ++ move.now, some ⟨cause, current.loc⟩⟩
      | .finish => ⟨owed ++ move.now, none⟩
  | _ => ⟨[], ending⟩

/-- What is done before the first line. -/
def prologue : List Action :=
  [.note .program, .head "#include <stdio.h>", .head "int main(void)\x7b"]

/-- The walk along everything that can be read from a cursor. -/
def Supply.walk (supply : Supply) : Walk :=
  TeenyTiny.walk supply.fault? .line [] prologue supply.lookahead

/-- How compiling went: what was written and logged, and the fault that stopped it. -/
structure Compilation where
  draft : Draft
  fault? : Option Fault

/-- Compiles the rest of a text, adding to what has been written. -/
def Cursor.compile (cursor : Cursor) (output : Output) : Compilation :=
  let walk := cursor.supply.walk
  let result := Draft.performAll { output } walk.actions
  ⟨result.1, result.2.or walk.fault?⟩

namespace Compilation

/-- What is reported of a compilation of the given text. -/
def diagnostic? (compilation : Compilation) (text : List Char) : Option Diagnostic :=
  compilation.fault?.map (·.diagnose text)

/-- The log in order. -/
def log (compilation : Compilation) : List Record :=
  compilation.draft.log.toList

/-- Compiles a source, adding to what has been written. -/
def ofSource (source : String) (output : Output) : Compilation :=
  (Cursor.ofSource source).compile output

/-- The C program, or what is wrong with the source. -/
def result (compilation : Compilation) (source : String) : Except Diagnostic String :=
  match compilation.diagnostic? (sourceText source) with
  | none => .ok compilation.draft.output.render
  | some diagnostic => .error diagnostic

end Compilation

/-- Compiles a source to a C program. -/
def compile (source : String) : Except Diagnostic String :=
  (Compilation.ofSource source {}).result source

end TeenyTiny
