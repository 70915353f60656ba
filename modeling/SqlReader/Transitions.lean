import SqlReader.Transitions.Manipulation
import SqlReader.Transitions.Schema
import SqlReader.Transitions.Table

/-!
# Transitions of a draft

The moves of all places together.  A draft accepts a token when it has a move for it
and the change of the move can be made; a step on a parser does the same to its draft,
takes what the place takes, and changes nothing when the token is refused.
-/

namespace SqlReader

def Move.begin (t : Token) : Option Move :=
  (t.keyword?.bind Draft.opening?).map fun (kind, next) => ⟨.kind kind, next⟩

namespace Draft

/-- The move of a draft on the token `t`, where `rest` is the text from the token on. -/
def move? (d : Draft) (t : Token) (rest : List Char) : Option Move :=
  match d.state with
  | .beginning => Move.begin t
  | .select place => place.move? t
  | .order place => place.move? t
  | .insert place => place.move? t
  | .update place => place.move? t
  | .delete place => place.move? t
  | .filter place => place.move? d.statement.kind t
  | .table place => place.move? t
  | .check place => place.move? d.constraintScope t
  | .primaryKey place => place.move? t
  | .foreignKey place => place.move? d.constraintScope t
  | .view place => place.move? t rest
  | .index place => place.move? t
  | .user place => place.move? t
  | .privilege place => place.move? d.statement.kind t
  | .done => none

/-- The draft after the token `t`. -/
def accept (d : Draft) (t : Token) (rest : List Char) : Except Refusal Draft :=
  d.follow (d.move? t rest)

theorem follow_eq_ok_iff {d d' : Draft} {move : Option Move} :
    d.follow move = .ok d' ↔
      ∃ m draft, move = some m ∧ d.apply m.change = .ok draft ∧
        d' = { draft with state := m.next } := by
  cases move with
  | none => simp [follow]
  | some m =>
      cases happly : d.apply m.change with
      | error refusal => simp [follow, happly, bind, Except.bind]
      | ok draft => simp [follow, happly, bind, Except.bind, goto, eq_comm]

end Draft

namespace Parser

open ParserM

variable {p : Parser}

theorem beginStatement_makes (hpop : p.advance = p.cursor.pop) (t : Token) :
    p.Makes (Move.begin t) ((beginStatement t).run p) := by
  unfold beginStatement Move.begin
  cases t.keyword?.bind Draft.opening? with
  | none => exact makes_none
  | some found => exact makes_change hpop (by rfl)

/-- A step makes the move of its place. -/
theorem step_makes (p : Parser) (t : Token) :
    p.Makes (p.draft.move? t p.cursor.rest) ((ParserM.step t).run p) := by
  have hpop (h : p.draft.state ≠ .view .query) : p.advance = p.cursor.pop := if_neg h
  unfold ParserM.step Draft.move?
  rw [run_look_bind]
  cases hstate : p.draft.state
  case view place => exact viewStep_makes hstate t
  case done => exact makes_none
  all_goals
    have hpop := hpop (by rw [hstate]; exact nofun)
  case beginning => exact beginStatement_makes hpop t
  case select place => exact selectStep_makes hpop t place
  case order place => exact orderStep_makes hpop t place
  case insert place => exact insertStep_makes hpop t place
  case update place => exact updateStep_makes hpop t place
  case delete place => exact deleteStep_makes hpop t place
  case filter place => exact filterStep_makes hpop t place
  case table place => exact tableStep_makes hpop t place
  case check place => exact checkStep_makes hpop t place
  case primaryKey place => exact primaryKeyStep_makes hpop t place
  case foreignKey place => exact foreignKeyStep_makes hpop t place
  case index place => exact indexStep_makes hpop t place
  case user place => exact userStep_makes hpop t place
  case privilege place => exact privilegeStep_makes hpop t place

end Parser

end SqlReader
