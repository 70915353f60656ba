import SqlReader.Proofs.Edits
import SqlReader.Proofs.Validation

/-!
# Coherence of column definitions

A column says several things twice: its flags and values repeat what its list of
constraints says.  Constraints are added at many places, inside a column and
behind all columns, and a check or a foreign key takes several steps.  Here the
parts of a column are shown to agree in every configuration of a parser.
-/

namespace SqlReader

namespace Column

/-- What an entry of the list of constraints says of its column. -/
def Bears (c : Column) : Constraint → Prop
  | .notNull => c.notNull = true
  | .unique => c.unique = true
  | .primaryKey => c.primaryKey = true
  | .check => c.checks ≠ []
  | .foreignKey => c.foreignKey = true
  | .default => c.default.isSome = true

/-- The list of constraints agrees with the flags and values, and each check
after the first is joined to the earlier ones. -/
structure Coherent (c : Column) : Prop where
  listed : ∀ k, k ∈ c.constraints ↔ c.Bears k
  checked : c.constraints.count .check ≤ c.checks.length
  joined : c.constraints.count .check ≤ c.checkConnectives.count .and + 1

/-- The target of the foreign key is still to be read, in part or as a whole. -/
def KeyPending (c : Column) : Prop :=
  c.foreignKey = true ∧ ∀ r ∈ c.references, r.column = ""

theorem Keyed.not_keyPending {c : Column} (h : c.Keyed) : ¬ c.KeyPending := by
  rintro ⟨hkey, hpending⟩
  obtain ⟨hsome, htarget⟩ := h
  rw [hkey, eq_comm, Option.isSome_iff_exists] at hsome
  obtain ⟨r, hr⟩ := hsome
  exact (htarget r hr).2 (hpending r hr)

theorem coherent_new {t : Token} {c : Column} (h : Column.New t c) : c.Coherent := by
  obtain ⟨name, -, rfl⟩ := h
  refine ⟨?_, Nat.zero_le _, Nat.zero_le _⟩
  intro k
  cases k <;> simp [Bears]

/-- An entry that is new in the list becomes true of the column, and nothing else
changes. -/
theorem Coherent.addConstraint {c c' : Column} {kind : Constraint} (h : c.Coherent)
    (hconstraints : c'.constraints = c.constraints ++ [kind]) (hkind : kind ≠ .check)
    (hbears : ∀ k, c'.Bears k ↔ k = kind ∨ c.Bears k) (hchecks : c'.checks = c.checks)
    (hconnectives : c'.checkConnectives = c.checkConnectives) : c'.Coherent := by
  have hcount : c'.constraints.count .check = c.constraints.count .check := by
    simp [hconstraints, hkind]
  refine ⟨?_, ?_, ?_⟩
  · intro k
    rw [hconstraints, hbears, List.mem_append, List.mem_singleton, h.listed, or_comm]
  · rw [hcount, hchecks]
    exact h.checked
  · rw [hcount, hconnectives]
    exact h.joined

theorem Coherent.addCheck {c : Column} {fresh : Bool} {field : String} (h : c.Coherent)
    (hfresh : fresh = false → c.checks ≠ []) : (Draft.addCheck fresh field c).Coherent := by
  have hchecked := h.checked
  have hjoined := h.joined
  cases fresh with
  | false =>
      refine ⟨?_, ?_, h.joined⟩
      · intro k
        have hlisted := h.listed k
        cases k <;> simp_all [Draft.addCheck, Bears]
      · simp only [Draft.addCheck, Bool.false_eq_true, if_false, List.length_append]
        omega
  | true =>
      refine ⟨?_, ?_, ?_⟩
      · intro k
        have hlisted := h.listed k
        cases k <;> simp_all [Draft.addCheck, Draft.addConstraint, Bears]
      · simp only [Draft.addCheck, Draft.addConstraint, if_true, List.count_append,
          List.count_singleton_self, List.length_append, List.length_singleton]
        omega
      · by_cases hchecks : c.checks = []
        · -- the first check of the column needs no connective
          have hnone : c.constraints.count .check = 0 := by
            rw [hchecks, List.length_nil] at hchecked
            omega
          simp [Draft.addCheck, Draft.addConstraint, hnone]
        · simp [Draft.addCheck, Draft.addConstraint, hchecks]
          omega

/-- Every change to a column keeps it coherent. -/
theorem Edit.coherent {t : Token} {c c' : Column} (h : Column.Edit t c c') (hc : c.Coherent) :
    c'.Coherent := by
  cases h with
  | dataType kind => exact ⟨hc.listed, hc.checked, hc.joined⟩
  | length n => exact ⟨hc.listed, hc.checked, hc.joined⟩
  | references target => exact ⟨hc.listed, hc.checked, hc.joined⟩
  | notNull | unique | primaryKey | default | foreignKey =>
      refine hc.addConstraint rfl (by simp) ?_ rfl rfl
      intro k
      cases k <;> simp [Bears, Draft.addConstraint]
  | check hfield hfresh => exact hc.addCheck hfresh
  | connective link =>
      refine ⟨hc.listed, hc.checked, ?_⟩
      have hjoined := hc.joined
      simp only [List.count_append]
      omega
  | condition i hget hedit hrange =>
      refine ⟨?_, ?_, hc.joined⟩
      · intro k
        have hlisted := hc.listed k
        cases k <;> simp_all [Bears]
      · rw [List.length_set]
        exact hc.checked

end Column

/-! ## What the state says of the columns -/

def Column.Linked (c : Column) : Prop := c.checkConnectives.length ≤ c.checks.length

theorem Column.Chained.linked {c : Column} (h : c.Chained) : c.Linked := by
  have hcount := h.2
  unfold Column.Linked
  omega

theorem Column.Checking.linked {R : List Condition → List Connective → Prop} {c : Column}
    (h : c.Checking R) (hR : ∀ cs ls, R cs ls → ls.length ≤ cs.length) : c.Linked :=
  hR _ _ h.2.2

theorem ChainPending.length_le {Q : Option Predicate → Prop} {cs : List Condition}
    {ls : List Connective} (h : ChainPending Q cs ls) : ls.length ≤ cs.length := by
  obtain ⟨before, name, p, rfl, _, hcount, _⟩ := h
  simp [hcount]

def State.definesTable : State → Bool
  | .table _ | .check _ | .primaryKey _ | .foreignKey _ => true
  | _ => false

/-- The foreign key of the column at position `i` is complete unless it is the
one being read, and the checks of the column form a chain. -/
def ColumnFits (d : Draft) (i : Nat) (c : Column) : Prop :=
  (c.Keyed ∨ d.foreignKeyColumn = some i) ∧ c.Linked

variable {d : Draft}

theorem Column.Settled.fits {c : Column} (h : c.Settled) (i : Nat) : ColumnFits d i c :=
  ⟨.inl h.keyed, h.chained.linked⟩

theorem AllSettled.fits {cs : List Column} (h : AllSettled cs) {i : Nat} {c : Column}
    (hget : cs[i]? = some c) : ColumnFits d i c :=
  (h.2 c (List.mem_of_getElem? hget)).fits i

theorem Focus.fits {k : Option Nat} {Q : Column → Prop} {cs : List Column} (h : Focus k Q cs)
    (hQ : ∀ i c, k = some i → Q c → ColumnFits d i c) {i : Nat} {c : Column}
    (hget : cs[i]? = some c) : ColumnFits d i c := by
  obtain ⟨before, b, after, rfl, rfl, hb, hothers⟩ := h
  by_cases hi : i = before.length
  · subst hi
    obtain rfl : b = c := by simpa using hget
    exact hQ _ _ rfl hb
  · refine (hothers c ?_).fits i
    rw [List.mem_append]
    rcases Nat.lt_or_gt_of_ne hi with hlt | hgt
    · rw [List.getElem?_append_left hlt] at hget
      exact .inl (List.mem_of_getElem? hget)
    · obtain ⟨n, rfl⟩ := Nat.exists_eq_add_of_lt hgt
      rw [Nat.add_assoc, List.getElem?_append_right (by omega), Nat.add_sub_cancel_left,
        List.getElem?_cons_succ] at hget
      exact .inr (List.mem_of_getElem? hget)

theorem Finished.settled {s : Statement} (h : Finished s) :
    ∀ c ∈ s.columns, c.Settled := by
  cases h with
  | table hcolumns => exact hcolumns.2
  | index _ hs =>
      obtain ⟨table, name, rfl⟩ := hs
      simp
  | view _ => simp
  | user => simp

namespace Draft

theorem CheckPending.fits {Q : Option Predicate → Prop} (h : d.CheckPending Q) {i : Nat}
    {c : Column} (hget : d.statement.columns[i]? = some c) : ColumnFits d i c := by
  obtain ⟨_, before, b, after, hcs, _, _, hb, hothers⟩ := h
  refine Focus.fits (k := some before.length) ⟨before, b, after, hcs, rfl, hb, hothers⟩ ?_ hget
  intro j c _ hc
  exact ⟨.inl hc.2.1, hc.linked fun _ _ hchain => hchain.length_le⟩

theorem tablePlace_fits {place : TablePlace} (h : place.Pictured d) {i : Nat} {c : Column}
    (hget : d.statement.columns[i]? = some c) : ColumnFits d i c := by
  cases place with
  | name =>
      change d.statement = _ at h
      simp [h] at hget
  | opening | field =>
      obtain ⟨table, hs⟩ := h
      simp [hs] at hget
  | fieldType => exact h.2.fits (fun j b _ hb => ⟨.inl hb.1, hb.2.linked⟩) hget
  | typeSuffix | fieldLength | lengthClose | columnTail | defaultValue =>
      exact h.2.fits (fun j b _ hb => hb.fits j) hget
  | element | constraintEnd => exact h.2.fits hget

theorem checkPlace_fits {place : CheckPlace} (h : place.Pictured d) {i : Nat} {c : Column}
    (hget : d.statement.columns[i]? = some c) : ColumnFits d i c := by
  obtain ⟨_, _, h⟩ := h
  cases place with
  | opening => exact h.2.1.fits hget
  | field =>
      rcases h with h | ⟨_, h⟩
      · exact h.2.1.fits hget
      · refine h.fits (fun j b _ hb => ⟨.inl hb.2.2.1, hb.2.linked fun _ _ hchain => ?_⟩) hget
        exact hchain.2.le
  | operator => exact CheckPending.fits h hget
  | value => exact CheckPending.fits h hget
  | listOpen => exact CheckPending.fits h hget
  | listValue => exact CheckPending.fits h hget
  | listNext => exact CheckPending.fits h hget
  | conjunctionOrClose => exact h.2.fits (fun j b _ hb => hb.2.fits j) hget

/-- A key without its target is the one being read. -/
theorem foreignKeyPlace_fits {place : ForeignKeyPlace} (h : place.Pictured d) {i : Nat}
    {c : Column} (hget : d.statement.columns[i]? = some c) : ColumnFits d i c := by
  obtain ⟨_, h⟩ := h
  cases place with
  | opening | field => exact h.2.fits hget
  | close | references | table => exact h.2.fits (fun j b hj hb => ⟨.inr hj, hb.2.1.linked⟩) hget
  | tableOpen | column => exact h.2.fits (fun j b hj hb => ⟨.inr hj, hb.1.2.1.linked⟩) hget
  | columnClose => exact h.2.fits hget

/-- Columns are only there while a table is defined, and after it. -/
theorem Pictured.columns_eq_nil (h : d.Pictured) (hstate : d.state.definesTable = false)
    (hdone : d.state ≠ .done) : d.statement.columns = [] := by
  unfold Pictured at h
  generalize d.state = state at h hstate hdone
  cases state with
  | beginning => simp [h]
  | select place => cases place <;> grind [SelectPlace.Pictured]
  | order place => cases place <;> grind [OrderPlace.Pictured, Sorting]
  | insert place => cases place <;> grind [InsertPlace.Pictured]
  | update place => cases place <;> grind [UpdatePlace.Pictured]
  | delete place => cases place <;> grind [DeletePlace.Pictured]
  | filter place =>
      obtain ⟨s, conditions, connectives, hs, hd, _⟩ := h
      rw [hd]
      cases hs <;> rfl
  | view place => cases place <;> grind [ViewPlace.Pictured]
  | index place => cases place <;> grind [IndexPlace.Pictured, Indexing]
  | user place => cases place <;> grind [UserPlace.Pictured]
  | privilege place => cases place <;> grind [PrivilegePlace.Pictured, Granting]
  | table place | check place | primaryKey place | foreignKey place =>
      simp [State.definesTable] at hstate
  | done => exact absurd rfl hdone

/-- In every state the columns fit. -/
theorem Pictured.fits (h : d.Pictured) {i : Nat} {c : Column}
    (hget : d.statement.columns[i]? = some c) : ColumnFits d i c := by
  have hnil := h.columns_eq_nil
  unfold Pictured at h
  generalize d.state = state at h hnil
  cases state with
  | table place => exact tablePlace_fits h hget
  | check place => exact checkPlace_fits h hget
  | primaryKey place => exact h.2.fits hget
  | foreignKey place => exact foreignKeyPlace_fits h hget
  | done => exact (Finished.settled h c (List.mem_of_getElem? hget)).fits i
  | _ => simp [hnil rfl (by simp)] at hget

theorem Pictured.settled (h : d.Pictured) (haccepting : d.state.isAccepting = true) :
    ∀ c ∈ d.statement.columns, c.Settled := by
  by_cases hdone : d.state = .done
  · unfold Pictured at h
    rw [hdone] at h
    exact Finished.settled h
  · have hnil : d.statement.columns = [] := by
      apply h.columns_eq_nil _ hdone
      cases hstate : d.state <;> simp_all [State.isAccepting, State.definesTable]
    simp [hnil]

end Draft

namespace Parser

variable {settings : Settings} {text : String} {p q : Parser}

/-- A reachable configuration is pictured by its state, or its statement has been
taken away. -/
theorem Reachable.pictured_or (h : Reachable settings text p) :
    p.draft.Pictured ∨ p.draft.statement = {} := by
  cases h with
  | start => exact .inl rfl
  | step hp hend hstep => exact .inl (step_pictured (hp.pictured hend) hstep)
  | refuse hp hend hstep => exact .inl (hp.refused hend hstep ▸ hp.pictured hend)
  | release _ _ _ => exact .inr rfl

theorem Reachable.coherent (h : Reachable settings text p) :
    ∀ c ∈ p.draft.statement.columns, c.Coherent := by
  induction h with
  | start => simp [ofText]
  | step hp hend hstep ih =>
      obtain ⟨draft, hdraft, rfl⟩ := step_eq_ok_iff.mp hstep
      have hedited := Draft.accept_editedBy (hp.pictured hend) draft hdraft
      exact hedited.columns.forall_mem (fun _ => Column.coherent_new)
        (fun _ _ => Column.Edit.coherent) ih
  | refuse hp hend hstep ih => rwa [hp.refused hend hstep]
  | release _ _ _ _ => simp [Parser.release]

theorem Reachable.fits (h : Reachable settings text p) {i : Nat} {c : Column}
    (hget : p.draft.statement.columns[i]? = some c) : ColumnFits p.draft i c := by
  rcases h.pictured_or with hpictured | hempty
  · exact hpictured.fits hget
  · simp [hempty] at hget

theorem Reachable.keyed_of_parse {s : Statement} (h : Reachable settings text p)
    (hs : p.parse.outcome = .ok s) {c : Column} (hc : c ∈ s.columns) :
    c.Keyed ∧ c.Coherent := by
  obtain ⟨_, ts, q, hsteps, _, hfinish⟩ := parse_eq_ok_iff.mp hs
  obtain ⟨haccepting, _, rfl⟩ := finish_eq_ok_iff.mp hfinish
  have hq := h.steps hsteps
  refine ⟨?_, hq.coherent c hc⟩
  rcases hq.pictured_or with hpictured | hempty
  · exact (hpictured.settled haccepting c hc).keyed
  · simp [hempty] at hc

end Parser

/-- The parts of every column agree in every configuration that the parser of a
text can come to: a foreign key without its target is the one being read, the
list of constraints says the same as the flags and values, and there are no more
checks, and no more connectives, than conditions.  When a call succeeds, every
foreign key has its target and the checks of a column are joined by `AND`. -/
theorem columns_stay_coherent (settings : Settings) (text : String) :
    (∀ p, Parser.Reachable settings text p →
      (∀ i c, p.draft.statement.columns[i]? = some c → c.KeyPending →
        p.draft.foreignKeyColumn = some i) ∧
      ∀ c ∈ p.draft.statement.columns,
        (∀ k, k ∈ c.constraints ↔ c.Bears k) ∧
          c.constraints.count .check ≤ c.checks.length ∧
          c.checkConnectives.length ≤ c.checks.length) ∧
    ∀ p s, Parser.Reachable settings text p → p.parse.outcome = .ok s → ∀ c ∈ s.columns,
      c.Keyed ∧ c.constraints.count .check - 1 ≤ c.checkConnectives.count .and := by
  refine ⟨?_, ?_⟩
  · intro p hp
    refine ⟨?_, ?_⟩
    · intro i c hget hpending
      exact (hp.fits hget).1.resolve_left fun hkeyed => hkeyed.not_keyPending hpending
    · intro c hc
      obtain ⟨i, hget⟩ := List.mem_iff_getElem?.mp hc
      have hcoherent := hp.coherent c hc
      exact ⟨hcoherent.listed, hcoherent.checked, (hp.fits hget).2⟩
  · intro p s hp hs c hc
    obtain ⟨hkeyed, hcoherent⟩ := hp.keyed_of_parse hs hc
    have hjoined := hcoherent.joined
    exact ⟨hkeyed, by omega⟩

/-- A table that breaks off inside a foreign key behind its columns. -/
theorem columns_stay_coherent_open_key :
    ∃ p c, Parser.Reachable {} "CREATE TABLE t (a INT CHECK (a > 1), FOREIGN KEY (a)" p ∧
      p.draft.statement.columns[0]? = some c ∧ c.KeyPending ∧
      p.draft.foreignKeyColumn = some 0 ∧ Constraint.foreignKey ∈ c.constraints := by
  let start := Parser.ofText {} "CREATE TABLE t (a INT CHECK (a > 1), FOREIGN KEY (a)"
  obtain ⟨ts, hsteps, -⟩ := Parser.steps_run (p := start) rfl
  have hreachable := Parser.Reachable.start.steps hsteps
  have hget : start.run.parser.draft.statement.columns[0]? = some
      { name := "a", dataType := .smallInt, foreignKey := true,
        constraints := [.check, .foreignKey],
        checks := [⟨.field "a", some (.compare .gt (.literal "1"))⟩] } := by
    decide +kernel
  have hcoherent := (columns_stay_coherent {} _).1 _ hreachable
  refine ⟨_, _, hreachable, hget, ⟨rfl, by simp⟩, hcoherent.1 _ _ hget ⟨rfl, by simp⟩, ?_⟩
  exact ((hcoherent.2 _ (List.mem_of_getElem? hget)).1 _).mpr rfl

end SqlReader
