import SqlReader.Proofs.ErrorPosition

/-!
# Validation after a run

A run that takes its whole text and ends in an accepting state has built a
statement that is valid, unless it is an update or a deletion without a filter:
this is the one rule that the states of the grammar do not enforce.
-/

namespace SqlReader

open Text

namespace Statement

/-- An update or a deletion that lacks its filter. -/
def LacksFilter (s : Statement) : Prop :=
  (s.kind = .update ∨ s.kind = .delete) ∧ s.conditions = []

instance (s : Statement) : Decidable s.LacksFilter :=
  inferInstanceAs (Decidable ((s.kind = .update ∨ s.kind = .delete) ∧ s.conditions = []))

theorem LacksFilter.fault_eq {s : Statement} (h : s.LacksFilter)
    (htables : ∀ name ∈ s.tables, name ≠ "") : s.fault = some .missingFilter := by
  obtain ⟨hkind, hconditions⟩ := h
  have hempty : s.tables.any String.isEmpty = false := by
    rw [List.any_eq_false]
    intro name hname
    simpa using htables name hname
  rcases hkind with hkind | hkind
  · simp [fault, kindFault, hkind, hempty, hconditions]
  · simp [fault, kindFault, hkind, hempty, hconditions]

end Statement

namespace Draft

variable {d : Draft} {N V : String → Prop}

/-- The two accepting states in which a filter is still missing. -/
theorem Pictured.lacksFilter (h : d.Pictured)
    (hstate : d.state = .update .commaOrWhere ∨ d.state = .delete .whereKeyword) :
    d.statement.LacksFilter := by
  unfold Pictured at h
  rcases hstate with hstate | hstate
  · rw [hstate] at h
    obtain ⟨table, updates, -, hs⟩ := h
    simp [Statement.LacksFilter, hs]
  · rw [hstate] at h
    obtain ⟨table, hs⟩ := h
    simp [Statement.LacksFilter, hs]

theorem Pictured.fault_eq (h : d.Pictured) (hstores : d.Stores N V)
    (hN : ∀ name, N name → name ≠ "") (haccepting : d.state.isAccepting = true) :
    d.statement.fault = if d.statement.LacksFilter then some .missingFilter else none := by
  have htables : ∀ name ∈ d.statement.tables, name ≠ "" :=
    fun name hname => hN name (hstores.statement.tables name hname)
  split
  next hlacks => exact hlacks.fault_eq htables
  next hlacks =>
    apply h.fault_eq_none hstores hN haccepting
    · exact fun hstate => hlacks (h.lacksFilter (.inl hstate))
    · exact fun hstate => hlacks (h.lacksFilter (.inr hstate))

end Draft

namespace Parser

variable {settings : Settings} {text : String} {p : Parser} {ts : List Token}

/-- At the end of a text the position is its length. -/
theorem Steps.offset_eq (h : Steps (.ofText settings text) ts p) (hend : p.cursor.atEnd = true) :
    p.cursor.offset = byteLength (cursorText settings text) := by
  obtain ⟨before, hinput, hlength⟩ := h.placed (Cursor.placed_ofText _)
  have hrest : p.cursor.rest = [] := by simpa [Cursor.atEnd] using hend
  have htext : p.cursor.input = cursorText settings text := h.input
  rw [hrest, List.append_nil] at hinput
  rw [← hlength, ← hinput, htext]

end Parser

/-- If the parser of a text takes all tokens and comes to an accepting state, the
statement that it has built is valid, except for an update or a deletion without
a filter: this is refused at the end of the text, and for that reason. -/
theorem validate_of_accepting {settings : Settings} {text : String} {p : Parser}
    (hrun : (Parser.ofText settings text).run.parser = p)
    (hread : (Parser.ofText settings text).run.failure = none)
    (haccepting : p.draft.state.isAccepting = true) :
    p.draft.statement.validate p.cursor.offset =
        (if p.draft.statement.LacksFilter then
          .error (.semantic (byteLength (cursorText settings text)) .missingFilter)
        else .ok ()) ∧
      Reason.missingFilter.message = "WHERE is mandatory for UPDATE and DELETE" := by
  refine ⟨?_, rfl⟩
  obtain ⟨ts, hsteps, hend⟩ := Parser.steps_run (p := .ofText settings text) rfl
  rw [hread, hrun] at hend
  rw [hrun] at hsteps
  obtain ⟨hpictured, hstores⟩ := hsteps.sound (Parser.sound_ofText settings text)
  have hnonempty : ∀ name, isIdentifier name = true → name ≠ "" := by
    rintro name hname rfl
    cases hname
  have hfault := hpictured.fault_eq hstores hnonempty haccepting
  rw [Statement.validate, hfault, hsteps.offset_eq hend]
  by_cases hlacks : p.draft.statement.LacksFilter
  · simp only [if_pos hlacks]
  · simp only [if_neg hlacks]

/-- A deletion without a filter, with blanks and a semicolon behind it. -/
theorem validate_of_accepting_deletion :
    ∃ p : Parser, (Parser.ofText {} "DELETE FROM Users ; ").run.parser = p ∧
      (Parser.ofText {} "DELETE FROM Users ; ").run.failure = none ∧
      p.draft.state.isAccepting = true ∧
      p.draft.statement.validate p.cursor.offset = .error (.semantic 17 .missingFilter) := by
  have hread : (Parser.ofText {} "DELETE FROM Users ; ").run.failure = none := by decide +kernel
  have haccepting :
      (Parser.ofText {} "DELETE FROM Users ; ").run.parser.draft.state.isAccepting = true := by
    decide +kernel
  have hlacks :
      (Parser.ofText {} "DELETE FROM Users ; ").run.parser.draft.statement.LacksFilter := by
    decide +kernel
  refine ⟨_, rfl, hread, haccepting, ?_⟩
  rw [(validate_of_accepting rfl hread haccepting).1, if_pos hlacks]
  decide +kernel

end SqlReader
