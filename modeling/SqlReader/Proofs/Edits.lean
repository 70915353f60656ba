import SqlReader.Proofs.History

/-!
# What a step can do to a statement

A step works on little of the statement: at most one condition or one column is
new, at most one is changed, and at most one column gets a value.  The relations
here list the changes; what all of them keep, every run keeps.
-/

namespace SqlReader

/-- One element is new at the end, one is changed, or nothing is. -/
inductive Edited {α : Type} (New : α → Prop) (Edit : α → α → Prop) (as : List α) : List α → Prop
  | keep : Edited New Edit as as
  | add {a : α} (hnew : New a) : Edited New Edit as (as ++ [a])
  | set {a b : α} (i : Nat) (hget : as[i]? = some a) (hedit : Edit a b) :
      Edited New Edit as (as.set i b)

theorem Edited.forall_mem {α : Type} {New P : α → Prop} {Edit : α → α → Prop} {as bs : List α}
    (h : Edited New Edit as bs) (hnew : ∀ a, New a → P a) (hedit : ∀ a b, Edit a b → P a → P b)
    (has : ∀ a ∈ as, P a) : ∀ b ∈ bs, P b := by
  cases h with
  | keep => exact has
  | add ha => exact Draft.forall_mem_concat has (hnew _ ha)
  | set i hget hstep =>
      exact Draft.forall_mem_set i has (hedit _ _ hstep (has _ (List.mem_of_getElem? hget)))

theorem Edited.modify {α : Type} {New : α → Prop} {Edit : α → α → Prop} {as : List α} {a : α}
    {f : α → α} (i : Nat) (hget : as[i]? = some a) (hedit : Edit a (f a)) :
    Edited New Edit as (as.modify i f) := by
  have : Inhabited α := ⟨a⟩
  rw [List.modify_eq_set, hget]
  exact .set i hget hedit

def Condition.New (t : Token) (c : Condition) : Prop :=
  ∃ name, t.identifier? = some name ∧ c = ⟨.field name, none⟩

inductive Condition.Edit (t : Token) (c : Condition) : Condition → Prop
  | operator {p : Predicate} {shape : PredicateShape} (hnone : c.predicate = none)
      (hp : t.predicate? = some (p, shape)) : Edit t c { c with predicate := some p }
  | value {p q : Predicate} (hsome : c.predicate = some p) (hq : q.operator = p.operator) :
      Edit t c { c with predicate := some q }

/-- The changes to a column.  Checks know no ranges, and a further condition of a
check comes after an earlier one. -/
inductive Column.Edit (t : Token) (c : Column) : Column → Prop
  | dataType (kind : DataType) : Edit t c { c with dataType := kind }
  | length (n : UInt32) : Edit t c { c with length := some n }
  | notNull : Edit t c (Draft.addConstraint .notNull { c with notNull := true })
  | unique : Edit t c (Draft.addConstraint .unique { c with unique := true })
  | primaryKey : Edit t c (Draft.addConstraint .primaryKey { c with primaryKey := true })
  | default (value : String) :
      Edit t c (Draft.addConstraint .default { c with default := some value })
  | foreignKey : Edit t c (Draft.addConstraint .foreignKey { c with foreignKey := true })
  | references (target : Reference) : Edit t c { c with references := some target }
  | check {fresh : Bool} {field : String} (hfield : t.identifier? = some field)
      (hfresh : fresh = false → c.checks ≠ []) : Edit t c (Draft.addCheck fresh field c)
  | connective (link : Connective) :
      Edit t c { c with checkConnectives := c.checkConnectives ++ [link] }
  | condition {a b : Condition} (i : Nat) (hget : c.checks[i]? = some a)
      (hedit : Condition.Edit t a b) (hrange : ∀ p, t.predicate? ≠ some (p, .range)) :
      Edit t c { c with checks := c.checks.set i b }

def Column.New (t : Token) (c : Column) : Prop :=
  ∃ name, t.identifier? = some name ∧ c = { name := name }

/-- The changes to a statement in the parts that are changed in place, and in its
kind. -/
structure Statement.Edited (t : Token) (s s' : Statement) : Prop where
  kind : s.kind = .unknown ∨ s'.kind = s.kind
  conditions : SqlReader.Edited (Condition.New t) (Condition.Edit t) s.conditions s'.conditions
  columns : SqlReader.Edited (Column.New t) (Column.Edit t) s.columns s'.columns
  updates : s'.updates = s.updates ∨
    ∃ column value, s'.updates = Assignments.set s.updates column value

namespace Draft

variable {d : Draft} {t : Token}

def EditedBy (t : Token) (d d' : Draft) : Prop := Statement.Edited t d.statement d'.statement

def Untouched (d d' : Draft) : Prop :=
  (d.statement.kind = .unknown ∨ d'.statement.kind = d.statement.kind) ∧
    d'.statement.conditions = d.statement.conditions ∧
    d'.statement.columns = d.statement.columns ∧ d'.statement.updates = d.statement.updates

theorem Untouched.editedBy {d' : Draft} (h : Untouched d d') : EditedBy t d d' := by
  obtain ⟨hkind, hconditions, hcolumns, hupdates⟩ := h
  refine ⟨hkind, ?_, ?_, .inl hupdates⟩
  · rw [hconditions]
    exact .keep
  · rw [hcolumns]
    exact .keep

/-! ## Conditions -/

theorem currentCondition_eq_ok_iff {c : Condition} :
    d.currentCondition = .ok c ↔ d.openCondition? = some c := by
  unfold currentCondition openCondition?
  cases d.openCondition with
  | none => simp
  | some slot =>
      cases slot with
      | filter i => cases hget : d.statement.conditions[i]? <;> simp [hget]
      | check j i => cases hget : d.statement.columns[j]?.bind (·.checks[i]?) <;> simp [hget]

/-- The token begins no range where a condition of a check is open. -/
def RangeFree (t : Token) (d : Draft) : Prop :=
  ∀ j i, d.openCondition = some (.check j i) → ∀ p, t.predicate? ≠ some (p, .range)

theorem putCondition_editedBy {a b : Condition} (hopen : d.openCondition? = some a)
    (hedit : Condition.Edit t a b) (hrange : RangeFree t d) : EditedBy t d (d.putCondition b) := by
  unfold openCondition? at hopen
  unfold putCondition
  split at hopen
  · simp at hopen
  next i hslot =>
    rw [hslot]
    exact ⟨.inr rfl, .set i hopen hedit, .keep, .inl rfl⟩
  next j i hslot =>
    rw [hslot]
    obtain ⟨column, hcolumn, hcheck⟩ := Option.bind_eq_some_iff.mp hopen
    refine ⟨.inr rfl, .keep, ?_, .inl rfl⟩
    exact .modify j hcolumn (.condition i hcheck hedit (hrange j i hslot))

theorem setPredicate_editedBy {p : Predicate} {shape : PredicateShape}
    (hopen : d.PredicateOpen (· = none)) (hp : t.predicate? = some (p, shape))
    (hrange : RangeFree t d) : Yields (EditedBy t d) (d.setPredicate p) := by
  obtain ⟨c, hc, hnone⟩ := hopen
  simp only [setPredicate, currentCondition_eq_ok_iff.mpr hc, yields_bind, yields_ok, yields_pure]
  exact putCondition_editedBy hc (.operator hnone hp) hrange

theorem predicate?_of_value? {value : String} (h : t.value? = some value) :
    t.predicate? = none := by
  cases t <;> simp_all [Token.value?, Token.predicate?, Token.keyword?]

theorem modifyPredicate_editedBy {value : String} {f : Predicate → Except Refusal Predicate}
    (hvalue : t.value? = some value)
    (hf : ∀ p : Predicate, Yields (fun q => q.operator = p.operator) (f p)) :
    Yields (EditedBy t d) (d.modifyPredicate f) := by
  simp only [modifyPredicate, yields_bind]
  intro c hc
  have hopen := currentCondition_eq_ok_iff.mp hc
  split
  · simp
  next p hp =>
    simp only [yields_bind, yields_pure]
    refine (hf p).imp fun q hq => ?_
    refine putCondition_editedBy hopen (.value hp hq) fun j i _ => ?_
    simp [predicate?_of_value? hvalue]

section Fill

variable (value : String) (p : Predicate)

theorem operator_fillValue : Yields (fun q => q.operator = p.operator) (p.fillValue value) := by
  rcases p with _ | _ | _ | (_ | _) <;> simp [Predicate.fillValue, Predicate.operator]

theorem operator_fillLow : Yields (fun q => q.operator = p.operator) (p.fillLow value) := by
  rcases p with _ | (_ | _) | _ | _ <;> simp [Predicate.fillLow, Predicate.operator]

theorem operator_fillHigh : Yields (fun q => q.operator = p.operator) (p.fillHigh value) := by
  rcases p with _ | (_ | _) | _ | _ <;> simp [Predicate.fillHigh, Predicate.operator]

theorem operator_addValue : Yields (fun q => q.operator = p.operator) (p.addValue value) := by
  rcases p with _ | _ | (_ | _) | _ <;> simp [Predicate.addValue, Predicate.operator]

end Fill

/-! ## Tables -/

theorem modifyColumn_editedBy {i : Nat} {f : Column → Column}
    (hf : ∀ c, d.statement.columns[i]? = some c → Column.Edit t c (f c)) :
    Yields (EditedBy t d) (d.modifyColumn i f) := by
  unfold modifyColumn
  split
  next hi =>
    have hget := List.getElem?_eq_getElem hi
    exact yields_ok.mpr ⟨.inr rfl, .keep, .modify i hget (hf _ hget), .inl rfl⟩
  · simp

theorem modifyCurrentColumn_editedBy {f : Column → Column} (hf : ∀ c, Column.Edit t c (f c)) :
    Yields (EditedBy t d) (d.modifyCurrentColumn f) := by
  unfold modifyCurrentColumn
  split
  · exact modifyColumn_editedBy fun c _ => hf c
  · simp

theorem openForeignKey_editedBy (i : Nat) : Yields (EditedBy t d) (d.openForeignKey i) := by
  simp only [openForeignKey, yields_bind, yields_pure]
  exact (modifyColumn_editedBy fun _ _ => .foreignKey).imp fun _ h => h

theorem setTargetColumn_editedBy (column : String) :
    Yields (EditedBy t d) (d.setTargetColumn column) := by
  fun_cases setTargetColumn
  case case4 => exact modifyColumn_editedBy fun _ _ => .references _
  all_goals simp

theorem edit_set (c : Column) (part : ColumnPart) : Column.Edit t c (part.set c) := by
  cases part with
  | dataType kind => exact .dataType kind
  | length n => exact .length n
  | notNull => exact .notNull
  | unique => exact .unique
  | primaryKey => exact .primaryKey
  | default text => exact .default text

theorem checkOn_editedBy {i : Nat} {field : String} (hfield : t.identifier? = some field)
    (hfresh : ∀ c, d.statement.columns[i]? = some c → d.freshCheck = false → c.checks ≠ []) :
    Yields (EditedBy t d) (d.checkOn field i) := by
  simp only [checkOn, yields_bind, yields_pure]
  exact (modifyColumn_editedBy fun c hc => .check hfield (hfresh c hc)).imp fun _ h => h

/-! ## Steps -/

theorem modifyIndex_untouched (f : Index → Except Refusal Index) :
    Yields (Untouched d) (d.modifyIndex f) := by
  unfold modifyIndex
  split
  · exact yields_bind.mpr fun index _ => yields_pure.mpr ⟨.inr rfl, rfl, rfl, rfl⟩
  · simp

/-- A change that a draft is ready for is an edit of its statement. -/
theorem apply_editedBy {c : Change} (hc : d.Admits t c) : Yields (EditedBy t d) (d.apply c) := by
  have huntouched {d' : Draft} (h : Untouched d d') : Yields (EditedBy t d) (.ok d') :=
    yields_ok.mpr h.editedBy
  cases c with
  | kind kind =>
      have hs : d.statement = {} := hc
      exact huntouched ⟨.inl (by rw [hs]), rfl, rfl, rfl⟩
  | stay | addTable | addField | addStar | addUser | addOrder | addRow | awaitValue
  | addConnective | leaveColumn | enterClause | enterCheck | leaveCheck | leaveForeignKey
  | keepQuery | nameIndex | setPassword | addPrivilege =>
      exact huntouched ⟨.inr rfl, rfl, rfl, rfl⟩
  | orderLast order =>
      simp only [apply, modifyLastOrder]
      split
      · exact huntouched ⟨.inr rfl, rfl, rfl, rfl⟩
      · simp
  | addValue text =>
      simp only [apply, addValue, yields_bind]
      exact fun row _ => huntouched ⟨.inr rfl, rfl, rfl, rfl⟩
  | closeRow =>
      simp only [apply, closeRow, yields_bind]
      intro row _
      split
      · exact huntouched ⟨.inr rfl, rfl, rfl, rfl⟩
      · simp
  | assign text =>
      simp only [apply, assign]
      split
      · simp
      next column _ => exact yields_ok.mpr ⟨.inr rfl, .keep, .keep, .inr ⟨column, text, rfl⟩⟩
  | addCondition column =>
      exact yields_ok.mpr ⟨.inr rfl, .add ⟨column, hc, rfl⟩, .keep, .inl rfl⟩
  | setPredicate p =>
      obtain ⟨hopen, shape, hp, hshape⟩ := hc
      refine setPredicate_editedBy hopen hp fun j i hslot q hq => ?_
      rw [hp] at hq
      obtain ⟨-, rfl⟩ := Prod.mk.inj (Option.some.inj hq)
      obtain ⟨k, hfilter⟩ := hshape rfl
      cases hslot.symm.trans hfilter
  | fillValue text => exact modifyPredicate_editedBy hc (operator_fillValue text)
  | fillLow text => exact modifyPredicate_editedBy hc (operator_fillLow text)
  | fillHigh text => exact modifyPredicate_editedBy hc (operator_fillHigh text)
  | addItem text => exact modifyPredicate_editedBy hc (operator_addValue text)
  | addColumn name => exact yields_ok.mpr ⟨.inr rfl, .keep, .add ⟨name, hc, rfl⟩, .inl rfl⟩
  | define part => exact modifyCurrentColumn_editedBy fun c => edit_set c part
  | enterReferences =>
      simp only [apply, enterReferences]
      split
      · simp
      next i _ => exact openForeignKey_editedBy (d := { d with constraintScope := .column }) i
  | addCheck column =>
      obtain ⟨hname, hfurther⟩ := hc
      simp only [apply, yields_bind]
      refine fun i hi => checkOn_editedBy hname fun c hc hfresh => ?_
      obtain ⟨k, b, hcheck, hb, hne⟩ := hfurther hfresh
      obtain rfl : k = i := by simpa [checkTarget, hcheck] using hi
      rwa [Option.some.inj (hc.symm.trans hb)]
  | linkCheck link =>
      simp only [apply, linkCheck]
      split
      · simp
      · exact modifyColumn_editedBy fun _ _ => .connective link
  | addKey column =>
      simp only [apply, yields_bind]
      exact fun i _ => modifyColumn_editedBy fun _ _ => .primaryKey
  | addForeignKey column =>
      simp only [apply, yields_bind]
      exact fun i _ => openForeignKey_editedBy i
  | setTarget table =>
      simp only [apply, modifyForeignKey]
      split
      · exact modifyColumn_editedBy fun _ _ => .references _
      · simp
  | setTargetColumn column => exact setTargetColumn_editedBy column
  | addIndexColumn name =>
      simp only [apply, yields_bind, yields_pure]
      exact (modifyIndex_untouched _).imp fun _ h => Untouched.editedBy h
  | orderIndex order => exact (modifyIndex_untouched _).imp fun _ h => h.editedBy
  | grantColumn name =>
      simp only [apply, modifyLastPrivilege]
      split
      · exact huntouched ⟨.inr rfl, rfl, rfl, rfl⟩
      · simp

/-- A step edits the statement. -/
theorem accept_editedBy {rest : List Char} (hp : d.Pictured) :
    Yields (EditedBy t d) (d.accept t rest) := by
  unfold accept
  cases hm : d.move? t rest with
  | none => simp
  | some m =>
      rw [yields_follow]
      exact (apply_editedBy (hp.admits hm)).imp fun _ h => h

end Draft

end SqlReader
