import SqlReader.Proofs.Progress.Manipulation
import SqlReader.Proofs.Progress.Schema
import SqlReader.Proofs.Progress.Table
import SqlReader.Proofs.Run

/-!
# Every configuration is pictured by its state

Assembles the steps of the parts of the grammar and follows them along runs and
calls.  The parts that a step works on are therefore always present, and no call
is ever answered by an internal error.
-/

namespace SqlReader

namespace Draft

variable {d : Draft} {t : Token}

theorem beginning_pictured (h : d.statement = {}) :
    Leads Pictured (d.follow (Move.begin t)) := by
  simp only [Move.begin, leads_follow_map]
  rintro ⟨kind, state⟩ hopening
  obtain ⟨k, -, hk⟩ := Option.bind_eq_some_iff.mp hopening
  cases k <;> simp only [opening?, Option.some.injEq, Prod.mk.injEq, reduceCtorEq] at hk
  all_goals obtain ⟨rfl, rfl⟩ := hk
  case select => exact ⟨[], by simp [h]⟩
  case grant => exact ⟨[], .grant, .inl rfl, by simp [h, distinct]⟩
  case revoke => exact ⟨[], .revoke, .inr rfl, by simp [h, distinct]⟩
  all_goals
    change _ = _
    simp [h]

/-- A step leads from a pictured draft to a pictured draft. -/
theorem accept_pictured (rest : List Char) (htoken : (scan rest).token = t) (h : d.Pictured) :
    Leads Pictured (d.accept t rest) := by
  unfold Pictured at h
  unfold accept move?
  generalize d.state = state at h
  cases state with
  | beginning => exact beginning_pictured h
  | select place => exact select_pictured h
  | order place => exact order_pictured h
  | insert place => exact insert_pictured h
  | update place => exact update_pictured h
  | delete place => exact delete_pictured h
  | filter place => exact filter_pictured h
  | table place => exact table_pictured h
  | check place => exact check_pictured h
  | primaryKey place => exact primaryKey_pictured h
  | foreignKey place => exact foreignKey_pictured h
  | view place => exact view_pictured htoken h
  | index place => exact index_pictured h
  | user place => exact user_pictured h
  | privilege place => exact privilege_pictured h
  | done => trivial

end Draft

namespace Parser

variable {p q : Parser} {ts : List Token} {settings : Settings} {text : String}

theorem step_pictured (h : p.draft.Pictured) (hstep : p.step = .ok () q) : q.draft.Pictured := by
  obtain ⟨draft, hdraft, rfl⟩ := step_eq_ok_iff.mp hstep
  have hleads := Draft.accept_pictured p.cursor.rest rfl h
  rwa [← Cursor.lexeme, ← Cursor.peek, hdraft] at hleads

/-- Where nothing is lacking, a token that is refused changes nothing. -/
theorem step_refused (h : p.draft.Pictured) {e : Error} (hstep : p.step = .error e q) :
    q = p ∧ ∃ refusal, p.draft.accept p.cursor.peek p.cursor.rest = .error refusal ∧
      (∀ message, refusal ≠ .internal message) ∧ e = p.explain refusal := by
  obtain ⟨refusal, hrefusal, he, hq⟩ := step_eq_error hstep
  have hleads := Draft.accept_pictured p.cursor.rest rfl h
  rw [← Cursor.lexeme, ← Cursor.peek, hrefusal] at hleads
  have hplain : ∀ message, refusal ≠ .internal message := by
    rintro message rfl
    exact hleads
  exact ⟨hq.resolve_right fun ⟨message, hm⟩ => hplain message hm, refusal, hrefusal, hplain, he⟩

theorem Steps.pictured (h : Steps p ts q) (hp : p.draft.Pictured) : q.draft.Pictured :=
  h.preserves (P := fun p => p.draft.Pictured) (fun _ _ hp _ hstep => step_pictured hp hstep) hp

/-- The run of a parser that lacks nothing ends in the parser that its last step found. -/
theorem steps_run (h : p.draft.Pictured) :
    ∃ ts, Steps p ts p.run.parser ∧
      match p.run.failure with
      | none => p.run.parser.cursor.atEnd = true
      | some e =>
        p.run.parser.cursor.atEnd = false ∧ p.run.parser.step = .error e p.run.parser := by
  obtain ⟨ts, q, hsteps, hlast⟩ := run_steps p
  cases hfailure : p.run.failure with
  | none =>
      rw [hfailure] at hlast
      obtain ⟨rfl, hend⟩ := hlast
      exact ⟨ts, hsteps, hend⟩
  | some e =>
      rw [hfailure] at hlast
      obtain ⟨hend, hstep⟩ := hlast
      obtain ⟨hq, -⟩ := step_refused (hsteps.pictured h) hstep
      rw [hq] at hstep ⊢
      exact ⟨ts, hsteps, hend, hstep⟩

/-- A configuration from which a token can be taken is pictured by its state.
A released draft is not, but it stands at the end of the text. -/
theorem Reachable.pictured (h : Reachable settings text p) (hend : p.cursor.atEnd = false) :
    p.draft.Pictured := by
  induction h with
  | start => rfl
  | step _ hbefore hstep ih => exact step_pictured (ih hbefore) hstep
  | refuse _ hbefore hstep ih =>
      obtain ⟨rfl, -⟩ := step_refused (ih hbefore) hstep
      exact ih hbefore
  | release _ hatEnd _ _ => exact absurd (hatEnd.symm.trans hend) nofun

/-- A token that is refused leaves every reachable parser as it was. -/
theorem Reachable.refused (h : Reachable settings text p) (hend : p.cursor.atEnd = false)
    {e : Error} (hstep : p.step = .error e q) : q = p :=
  (step_refused (h.pictured hend) hstep).1

theorem step_ne_internal (h : p.draft.Pictured) (message : String) :
    p.step ≠ .error (.internal message) q := by
  intro hstep
  obtain ⟨-, refusal, -, hplain, he⟩ := step_refused h hstep
  cases refusal with
  | internal text => exact hplain text rfl
  | unexpected => cases he
  | breaks _ => cases he

theorem finish_ne_internal (p : Parser) (message : String) :
    p.finish ≠ .error (.internal message) := by
  unfold finish Statement.validate
  split
  · cases p.draft.statement.fault <;> simp
  · simp

theorem Reachable.parse_ne_internal (h : Reachable settings text p) (message : String) :
    p.parse.outcome ≠ .error (.internal message) := by
  obtain ⟨ts, q, hsteps, hlast⟩ := run_steps p
  have hq := h.steps hsteps
  cases hlimit : p.tooLong with
  | true =>
      rw [(parse_tooLong hlimit).1]
      simp
  | false =>
      rcases parse_cases hlimit with ⟨e, he, ho, _⟩ | ⟨_, ⟨e, he, ho, _⟩ | ⟨s, _, ho, _⟩⟩
      · rw [he] at hlast
        rw [ho]
        rintro ⟨rfl⟩
        exact step_ne_internal (hq.pictured hlast.1) message hlast.2
      · rw [ho, ← he]
        exact finish_ne_internal _ message
      · rw [ho]
        simp

theorem Reachable.parseRepeatedly_ne_internal (h : Reachable settings text p) (times : Nat)
    {outcome : Except Error Statement} (houtcome : outcome ∈ p.parseRepeatedly times)
    (message : String) : outcome ≠ .error (.internal message) := by
  induction times generalizing p with
  | zero => simp [parseRepeatedly] at houtcome
  | succ times ih =>
      rcases List.mem_cons.mp houtcome with rfl | hlater
      · exact h.parse_ne_internal message
      · exact ih h.parse hlater

end Parser

/-! ## The parts that steps work on -/

namespace Draft

def openCondition? (d : Draft) : Option Condition :=
  match d.openCondition with
  | none => none
  | some (.filter i) => d.statement.conditions[i]?
  | some (.check j i) => d.statement.columns[j]?.bind (·.checks[i]?)

/-- The predicate of the open condition is one of those in `Q`. -/
def PredicateOpen (Q : Option Predicate → Prop) (d : Draft) : Prop :=
  ∃ c, d.openCondition? = some c ∧ Q c.predicate

def ColumnAt (d : Draft) (i : Option Nat) : Prop :=
  ∃ k, i = some k ∧ k < d.statement.columns.length

/-- Whatever the step of the current state works on is there, in range and of
the right form. -/
def PartsPresent (d : Draft) : Prop :=
  match d.state with
  | .order .directionOrComma => d.statement.orderBy ≠ []
  | .insert .value | .insert .valuesNext =>
    ∃ i, d.openRow = some i ∧ i < d.statement.inserts.length
  | .update .value => ∃ field, d.pendingField = some field
  | .filter .operator | .check .operator => d.PredicateOpen (· = none)
  | .filter .value | .check .value => d.PredicateOpen TakesValue
  | .filter .betweenLow | .filter .betweenHigh => d.PredicateOpen TakesBounds
  | .filter .listValue | .check .listValue => d.PredicateOpen TakesItems
  | .table .fieldType | .table .typeSuffix | .table .fieldLength | .table .columnTail
  | .table .defaultValue => d.ColumnAt d.currentColumn
  | .check .field => d.checkColumn = none ∨ d.ColumnAt d.checkColumn
  | .check .conjunctionOrClose => d.ColumnAt d.checkColumn
  | .foreignKey .table => d.ColumnAt d.foreignKeyColumn
  | .foreignKey .column =>
    ∃ i c r, d.foreignKeyColumn = some i ∧ d.statement.columns[i]? = some c ∧
      c.references = some r
  | .index .field => ∃ index, d.statement.index = some index
  | .index .orderOrNext => ∃ index, d.statement.index = some index ∧ index.columns ≠ []
  | .privilege .column => d.statement.privileges ≠ []
  | _ => True

variable {d : Draft}

theorem FilterPending.predicateOpen {Q : Option Predicate → Prop} (h : FilterPending Q d) :
    d.PredicateOpen Q := by
  obtain ⟨s, _, connectives, _, hd, ⟨before, name, p, rfl, _, _, hQ⟩, hopen⟩ := h
  exact ⟨⟨.field name, p⟩, by simp [openCondition?, hopen, hd], hQ⟩

theorem CheckPending.predicateOpen {Q : Option Predicate → Prop} (h : d.CheckPending Q) :
    d.PredicateOpen Q := by
  obtain ⟨_, before, c, after, hcs, _, hopen, ⟨_, _, earlier, name, p, hchecks, _, _, hQ⟩, _⟩ := h
  exact ⟨⟨.field name, p⟩, by simp [openCondition?, hopen, hcs, hchecks], hQ⟩

theorem Pictured.partsPresent (h : d.Pictured) : d.PartsPresent := by
  unfold Pictured at h
  unfold PartsPresent
  generalize d.state = state at h ⊢
  cases state with
  | order place =>
      cases place with
      | directionOrComma =>
          obtain ⟨orderBy, hne, _, _, _, _, _, _, _, hs⟩ := h
          simpa [hs] using hne
      | _ => trivial
  | insert place =>
      cases place with
      | value =>
          obtain ⟨_, _, rows, row, _, _, hopen, hs⟩ := h
          exact ⟨rows.length, hopen, by simp [hs]⟩
      | valuesNext =>
          obtain ⟨_, _, rows, row, _, _, _, hopen, hs⟩ := h
          exact ⟨rows.length, hopen, by simp [hs]⟩
      | _ => trivial
  | update place =>
      cases place with
      | value =>
          obtain ⟨_, _, field, hpending, _⟩ := h
          exact ⟨field, hpending⟩
      | _ => trivial
  | filter place =>
      cases place with
      | operator => exact FilterPending.predicateOpen h
      | value => exact FilterPending.predicateOpen h
      | betweenLow => exact FilterPending.predicateOpen h
      | betweenHigh => exact FilterPending.predicateOpen h
      | listValue => exact FilterPending.predicateOpen h
      | _ => trivial
  | table place =>
      cases place with
      | fieldType => exact h.2.exists_lt
      | typeSuffix => exact h.2.exists_lt
      | fieldLength => exact h.2.exists_lt
      | columnTail => exact h.2.exists_lt
      | defaultValue => exact h.2.exists_lt
      | _ => trivial
  | check place =>
      obtain ⟨_, _, h⟩ := h
      cases place with
      | field =>
          rcases h with ⟨_, _, htarget⟩ | ⟨_, hfocus⟩
          · cases hcheck : d.checkColumn with
            | none => exact .inl rfl
            | some i => exact .inr ⟨i, rfl, htarget i hcheck⟩
          · exact .inr hfocus.exists_lt
      | operator => exact h.predicateOpen
      | value => exact h.predicateOpen
      | listValue => exact h.predicateOpen
      | conjunctionOrClose => exact h.2.exists_lt
      | _ => trivial
  | foreignKey place =>
      obtain ⟨_, h⟩ := h
      cases place with
      | table => exact h.2.exists_lt
      | column =>
          obtain ⟨_, before, c, after, hcs, hk, ⟨_, r, hr, _⟩, _⟩ := h
          exact ⟨before.length, c, r, hk, by simp [hcs], hr⟩
      | _ => trivial
  | index place =>
      cases place with
      | field =>
          obtain ⟨columns, table, name, hs⟩ := h
          exact ⟨⟨name, columns⟩, by rw [hs]⟩
      | orderOrNext =>
          obtain ⟨columns, hne, table, name, hs⟩ := h
          exact ⟨⟨name, columns⟩, by rw [hs], hne⟩
      | _ => trivial
  | privilege place =>
      cases place with
      | column =>
          obtain ⟨privileges, hne, kind, _, hs⟩ := h
          simpa [hs] using hne
      | _ => trivial
  | _ => trivial

end Draft

/-- No number of calls on the parser of a text is ever answered by an internal
error, because whenever a token is left, the parts that the step of the current
state works on are present. -/
theorem parse_never_internal (settings : Settings) (text : String) :
    (∀ times, ∀ outcome ∈ (Parser.ofText settings text).parseRepeatedly times,
      ∀ message, outcome ≠ .error (.internal message)) ∧
    ∀ p, Parser.Reachable settings text p → p.cursor.atEnd = false → p.draft.PartsPresent := by
  constructor
  · intro times outcome houtcome message
    exact Parser.Reachable.start.parseRepeatedly_ne_internal times houtcome message
  · intro p hp hend
    exact (hp.pictured hend).partsPresent

/-- A table that is refused inside the target of a foreign key. -/
theorem parse_never_internal_open_target :
    ∃ p, Parser.Reachable {} "CREATE TABLE t (a INT, FOREIGN KEY (a) REFERENCES u (1" p ∧
      p.cursor.atEnd = false ∧
      (∃ i c r, p.draft.foreignKeyColumn = some i ∧ p.draft.statement.columns[i]? = some c ∧
        c.references = some r) ∧
      ∀ message,
        (Parser.ofText {} "CREATE TABLE t (a INT, FOREIGN KEY (a) REFERENCES u (1").parse.outcome ≠
          .error (.internal message) := by
  let start := Parser.ofText {} "CREATE TABLE t (a INT, FOREIGN KEY (a) REFERENCES u (1"
  obtain ⟨ts, hsteps, -⟩ := Parser.steps_run (p := start) rfl
  have hreachable := Parser.Reachable.start.steps hsteps
  have hend : start.run.parser.cursor.atEnd = false := by decide +kernel
  have hstate : start.run.parser.draft.state = .foreignKey .column := by decide +kernel
  obtain ⟨hnever, hparts⟩ := parse_never_internal {}
    "CREATE TABLE t (a INT, FOREIGN KEY (a) REFERENCES u (1"
  have hpresent := hparts _ hreachable hend
  rw [Draft.PartsPresent, hstate] at hpresent
  exact ⟨_, hreachable, hend, hpresent, hnever 1 _ (List.mem_singleton.mpr rfl)⟩

end SqlReader
