import SqlReader.Proofs.Admission

/-!
# What a statement stores

The names and values of a statement are those that its tokens spell.  So if all
names that tokens spell have a property `N`, and all values a property `V`, the
names and values of a draft have it too.  Only the list of a query may hold a
star among its names.
-/

namespace SqlReader

/-- Every draft that the step gives has `P`. -/
def Yields {α : Type} (P : α → Prop) (x : Except Refusal α) : Prop := ∀ a, x = .ok a → P a

section Yields

variable {α β : Type} {P : α → Prop}

@[simp] theorem yields_ok {a : α} : Yields P (.ok a) ↔ P a := by
  simp [Yields]

@[simp] theorem yields_pure {a : α} : Yields P (pure a) ↔ P a := yields_ok

@[simp] theorem yields_error {refusal : Refusal} : Yields P (.error refusal) ↔ True := by
  simp [Yields]

@[simp] theorem yields_bind {x : Except Refusal β} {f : β → Except Refusal α} :
    Yields P (x >>= f) ↔ Yields (fun b => Yields P (f b)) x := by
  cases x with
  | error refusal => simp [bind, Except.bind]
  | ok b => simp [bind, Except.bind]

@[simp] theorem yields_goto {P : Draft → Prop} {d : Draft} {state : State} :
    Yields P (d.goto state) ↔ P { d with state } := yields_ok

@[simp] theorem yields_follow_none {P : Draft → Prop} {d : Draft} :
    Yields P (d.follow none) ↔ True := yields_error

theorem yields_follow {P : Draft → Prop} {d : Draft} {m : Move} :
    Yields P (d.follow (some m)) ↔
      Yields (fun d' => P { d' with state := m.next }) (d.apply m.change) := by
  simp [Draft.follow]

@[simp] theorem yields_follow_map {P : Draft → Prop} {d : Draft} {o : Option β} {f : β → Move} :
    Yields P (d.follow (o.map f)) ↔ ∀ b, o = some b → Yields P (d.follow (some (f b))) := by
  cases o <;> simp

@[simp] theorem yields_follow_expect {P : Draft → Prop} {d : Draft} {t : Token} {k : Keyword}
    {next : State} :
    Yields P (d.follow (Move.expect t k next)) ↔ (t.is k = true → P { d with state := next }) := by
  unfold Move.expect
  split
  next h => simp [yields_follow, Draft.apply, h]
  next h => simp [h]

theorem Yields.imp {Q : α → Prop} {x : Except Refusal α} (h : Yields P x)
    (hPQ : ∀ a, P a → Q a) : Yields Q x := fun a ha => hPQ a (h a ha)

end Yields

def Predicate.Stores (V : String → Prop) : Predicate → Prop
  | .compare _ right => V right.text
  | .between _ low high => V low ∧ V high
  | .inList _ values => ∀ value ∈ values, V value
  | .like _ pattern => V pattern

def Condition.Stores (N V : String → Prop) (c : Condition) : Prop :=
  N c.left.text ∧ ∀ p ∈ c.predicate, p.Stores V

/-- The names of a column satisfy `N` and its values `V`.  A foreign key that is
still being read has an empty column. -/
structure Column.Stores (N V : String → Prop) (c : Column) : Prop where
  name : N c.name
  references : ∀ r ∈ c.references, N r.table ∧ (r.column = "" ∨ N r.column)
  default : ∀ value ∈ c.default, V value
  checks : ∀ condition ∈ c.checks, condition.Stores N V

structure Statement.Stores (N V : String → Prop) (s : Statement) : Prop where
  tables : ∀ name ∈ s.tables, N name
  fields : ∀ name ∈ s.fields, N name ∨ s.kind = .select ∧ name = "*"
  conditions : ∀ c ∈ s.conditions, c.Stores N V
  updates : ∀ entry ∈ s.updates, N entry.1 ∧ V entry.2
  inserts : ∀ row ∈ s.inserts, ∀ value ∈ row, V value
  columns : ∀ c ∈ s.columns, c.Stores N V
  orderBy : ∀ item ∈ s.orderBy, N item.column
  index : ∀ index ∈ s.index, N index.name ∧ ∀ c ∈ index.columns, N c.name
  privileges : ∀ p ∈ s.privileges, ∀ name ∈ p.columns, N name
  users : ∀ name ∈ s.users, N name
  password : ∀ value ∈ s.password, V value

structure Draft.Stores (N V : String → Prop) (d : Draft) : Prop where
  statement : d.statement.Stores N V
  pending : ∀ name ∈ d.pendingField, N name

/-- The name and the value that a token spells satisfy `N` and `V`. -/
structure Token.Supplies (N V : String → Prop) (t : Token) : Prop where
  name : ∀ name, t.identifier? = some name → N name
  value : ∀ value, t.value? = some value → V value

namespace Draft

variable {N V : String → Prop} {d : Draft} {t : Token}

theorem stores_default : Stores N V {} := by
  constructor
  · constructor <;> simp
  · simp

/-! ## Parts that are added -/

theorem forall_mem_concat {α : Type} {P : α → Prop} {as : List α} {a : α}
    (h : ∀ b ∈ as, P b) (ha : P a) : ∀ b ∈ as ++ [a], P b := by
  intro b hb
  rcases List.mem_append.mp hb with hmem | hmem
  · exact h b hmem
  · rwa [List.mem_singleton.mp hmem]

theorem Stores.goto (h : d.Stores N V) (state : State) : Stores N V { d with state } :=
  ⟨h.statement, h.pending⟩

theorem Stores.addTable (h : d.Stores N V) {name : String} (hname : N name) :
    (d.addTable name).Stores N V :=
  ⟨{ h.statement with tables := forall_mem_concat h.statement.tables hname }, h.pending⟩

theorem Stores.addField (h : d.Stores N V) {name : String}
    (hname : N name ∨ d.statement.kind = .select ∧ name = "*") :
    (d.addField name).Stores N V :=
  ⟨{ h.statement with fields := forall_mem_concat h.statement.fields hname }, h.pending⟩

theorem Stores.addNewField (h : d.Stores N V) {name : String} (hname : N name) :
    (d.addNewField name).Stores N V := by
  refine ⟨{ h.statement with fields := ?_ }, h.pending⟩
  simp only [Draft.addNewField, pushNew]
  split
  · exact h.statement.fields
  · exact forall_mem_concat h.statement.fields (.inl hname)

theorem Stores.addUser (h : d.Stores N V) {name : String} (hname : N name) :
    (d.addUser name).Stores N V :=
  ⟨{ h.statement with users := forall_mem_concat h.statement.users hname }, h.pending⟩

theorem Stores.setColumns (h : d.Stores N V) {columns : List Column}
    (hcolumns : ∀ c ∈ columns, c.Stores N V) : (d.setColumns columns).Stores N V :=
  ⟨{ h.statement with columns := hcolumns }, h.pending⟩

theorem forall_mem_modify {α : Type} {P : α → Prop} {as : List α} {f : α → α} (i : Nat)
    (h : ∀ a ∈ as, P a) (hf : ∀ a ∈ as, P a → P (f a)) : ∀ a ∈ as.modify i f, P a := by
  intro a ha
  obtain ⟨j, hj, rfl⟩ := List.mem_iff_getElem.mp ha
  rw [List.length_modify] at hj
  have hmem : as[j] ∈ as := List.getElem_mem hj
  rw [List.getElem_modify]
  split
  · exact hf _ hmem (h _ hmem)
  · exact h _ hmem

theorem forall_mem_modifyLast? {α : Type} {P : α → Prop} {as bs : List α} {f : α → α}
    (hbs : modifyLast? f as = some bs) (h : ∀ a ∈ as, P a) (hf : ∀ a ∈ as, P a → P (f a)) :
    ∀ b ∈ bs, P b := by
  by_cases hne : as = []
  · rw [hne] at hbs
    cases hbs
  · obtain ⟨init, last, rfl⟩ := exists_append_of_ne_nil hne
    rw [modifyLast?_append] at hbs
    obtain rfl := Option.some.inj hbs
    exact forall_mem_concat (fun b hb => h b (by simp [hb])) (hf last (by simp) (h last (by simp)))

theorem Stores.modifyColumn (h : d.Stores N V) (i : Nat) {f : Column → Column}
    (hf : ∀ c, c.Stores N V → (f c).Stores N V) : Yields (Stores N V) (d.modifyColumn i f) := by
  unfold Draft.modifyColumn
  split
  · exact yields_ok.mpr
      (h.setColumns (forall_mem_modify i h.statement.columns fun c _ => hf c))
  · simp

theorem Stores.modifyCurrentColumn (h : d.Stores N V) {f : Column → Column}
    (hf : ∀ c, c.Stores N V → (f c).Stores N V) :
    Yields (Stores N V) (d.modifyCurrentColumn f) := by
  unfold Draft.modifyCurrentColumn
  split
  · exact h.modifyColumn _ hf
  · simp

theorem Stores.modifyForeignKey (h : d.Stores N V) {f : Column → Column}
    (hf : ∀ c, c.Stores N V → (f c).Stores N V) :
    Yields (Stores N V) (d.modifyForeignKey f) := by
  unfold Draft.modifyForeignKey
  split
  · exact h.modifyColumn _ hf
  · simp

/-! ## Conditions -/

theorem Stores.currentCondition (h : d.Stores N V) :
    Yields (Condition.Stores N V) d.currentCondition := by
  unfold Draft.currentCondition
  cases d.openCondition with
  | none => simp
  | some slot =>
      cases slot with
      | filter i =>
          dsimp only
          cases hget : d.statement.conditions[i]? with
          | none => simp
          | some c => exact yields_ok.mpr (h.statement.conditions c (List.mem_of_getElem? hget))
      | check j i =>
          dsimp only
          cases hget : d.statement.columns[j]?.bind (·.checks[i]?) with
          | none => simp
          | some c =>
              obtain ⟨column, hcolumn, hcheck⟩ := Option.bind_eq_some_iff.mp hget
              have hstores := h.statement.columns column (List.mem_of_getElem? hcolumn)
              exact yields_ok.mpr (hstores.checks c (List.mem_of_getElem? hcheck))

theorem forall_mem_set {α : Type} {P : α → Prop} {as : List α} {a : α} (i : Nat)
    (h : ∀ b ∈ as, P b) (ha : P a) : ∀ b ∈ as.set i a, P b := by
  intro b hb
  rcases List.mem_or_eq_of_mem_set hb with hmem | rfl
  · exact h b hmem
  · exact ha

theorem Stores.putCondition (h : d.Stores N V) {c : Condition} (hc : c.Stores N V) :
    (d.putCondition c).Stores N V := by
  unfold Draft.putCondition
  split
  · exact h
  · exact ⟨{ h.statement with
      conditions := forall_mem_set _ h.statement.conditions hc }, h.pending⟩
  · apply h.setColumns
    apply forall_mem_modify _ h.statement.columns
    intro column _ hcolumn
    exact { hcolumn with checks := forall_mem_set _ hcolumn.checks hc }

theorem Stores.setPredicate (h : d.Stores N V) {p : Predicate} (hp : p.Stores V) :
    Yields (Stores N V) (d.setPredicate p) := by
  simp only [Draft.setPredicate, yields_bind, yields_pure]
  refine h.currentCondition.imp fun c hc => ?_
  apply h.putCondition
  exact ⟨hc.1, by simpa using hp⟩

theorem Stores.modifyPredicate (h : d.Stores N V) {f : Predicate → Except Refusal Predicate}
    (hf : ∀ p : Predicate, p.Stores V → Yields (Predicate.Stores V) (f p)) :
    Yields (Stores N V) (d.modifyPredicate f) := by
  simp only [Draft.modifyPredicate, yields_bind]
  refine h.currentCondition.imp fun c hc => ?_
  split
  · simp
  next p hp =>
    simp only [yields_bind, yields_pure]
    refine (hf p (hc.2 p hp)).imp fun q hq => ?_
    apply h.putCondition
    exact ⟨hc.1, by simpa using hq⟩

/-- An operator begins a predicate without any values of its own. -/
theorem stores_predicate? {k : Option Keyword} {p : Predicate} {shape : PredicateShape}
    (hempty : V "") (h : k.bind Keyword.predicate? = some (p, shape)) : p.Stores V := by
  obtain ⟨k, -, hk⟩ := Option.bind_eq_some_iff.mp h
  cases k <;> simp only [Keyword.predicate?, Option.some.injEq, Prod.mk.injEq, reduceCtorEq] at hk
  all_goals
    obtain ⟨rfl, -⟩ := hk
    simp [Predicate.Stores, Operand.text, hempty]

section Fill

variable {value : String} (hvalue : V value) (p : Predicate) (h : p.Stores V)
include hvalue h

theorem stores_fillValue : Yields (Predicate.Stores V) (p.fillValue value) := by
  cases p <;> simp [Predicate.fillValue, Predicate.Stores, Operand.text, hvalue]

theorem stores_fillLow : Yields (Predicate.Stores V) (p.fillLow value) := by
  cases p <;> simp_all [Predicate.fillLow, Predicate.Stores]

theorem stores_fillHigh : Yields (Predicate.Stores V) (p.fillHigh value) := by
  cases p <;> simp_all [Predicate.fillHigh, Predicate.Stores]

theorem stores_addValue : Yields (Predicate.Stores V) (p.addValue value) := by
  cases p with
  | inList negated values => exact yields_ok.mpr (forall_mem_concat h hvalue)
  | _ => simp [Predicate.addValue]

end Fill

/-! ## Rows, assignments and columns -/

theorem Stores.addValue (h : d.Stores N V) {value : String} (hvalue : V value) :
    Yields (Stores N V) (d.addValue value) := by
  simp only [Draft.addValue, currentRow, yields_bind, yields_pure]
  split
  · simp
  · split
    next row hrow =>
      have hvalues := h.statement.inserts row (List.mem_of_getElem? hrow)
      refine yields_ok.mpr ⟨{ h.statement with inserts := ?_ }, h.pending⟩
      exact forall_mem_set (P := fun row : List String => ∀ value ∈ row, V value) _
        h.statement.inserts (forall_mem_concat hvalues hvalue)
    · simp

theorem Stores.closeRow (h : d.Stores N V) : Yields (Stores N V) d.closeRow := by
  simp only [Draft.closeRow, yields_bind]
  intro row _
  split
  · exact yields_ok.mpr ⟨h.statement, h.pending⟩
  · simp

theorem forall_mem_assign {P : String × String → Prop} {updates : Assignments}
    {column value : String} (h : ∀ entry ∈ updates, P entry) (hnew : P (column, value)) :
    ∀ entry ∈ updates.set column value, P entry := by
  induction updates with
  | nil => simpa [Assignments.set] using hnew
  | cons entry rest ih =>
      obtain ⟨c, v⟩ := entry
      have hrest : ∀ entry ∈ rest, P entry := fun entry hentry => h entry (by simp [hentry])
      simp only [Assignments.set]
      split
      next hc =>
        rw [hc]
        exact List.forall_mem_cons.mpr ⟨hnew, hrest⟩
      · exact List.forall_mem_cons.mpr ⟨h (c, v) (by simp), ih hrest⟩

theorem Stores.assign (h : d.Stores N V) {value : String} (hvalue : V value) :
    Yields (Stores N V) (d.assign value) := by
  unfold Draft.assign
  split
  · simp
  next column hcolumn =>
    refine yields_ok.mpr ⟨{ h.statement with updates := ?_ }, by simp⟩
    exact forall_mem_assign h.statement.updates ⟨h.pending column hcolumn, hvalue⟩

theorem Stores.openForeignKey (h : d.Stores N V) (i : Nat) :
    Yields (Stores N V) (d.openForeignKey i) := by
  simp only [Draft.openForeignKey, yields_bind, yields_pure]
  refine (h.modifyColumn i fun c hc => ?_).imp fun d' hd' => ⟨hd'.statement, hd'.pending⟩
  exact { hc with }

theorem stores_addCheck {c : Column} (hc : c.Stores N V) (fresh : Bool) {field : String}
    (hfield : N field) : (addCheck fresh field c).Stores N V := by
  have hchecks : ∀ condition ∈ c.checks ++ [⟨.field field, none⟩], condition.Stores N V :=
    forall_mem_concat hc.checks ⟨hfield, by simp⟩
  cases fresh with
  | false => exact { hc with checks := hchecks }
  | true => exact { hc with checks := hchecks }

theorem Stores.checkOn (h : d.Stores N V) {field : String} (hfield : N field) (i : Nat) :
    Yields (Stores N V) (d.checkOn field i) := by
  simp only [Draft.checkOn, yields_bind, yields_pure]
  refine (h.modifyColumn i fun c hc => ?_).imp fun d' hd' => ⟨hd'.statement, hd'.pending⟩
  exact stores_addCheck hc _ hfield

theorem Stores.define (h : d.Stores N V) {part : ColumnPart}
    (hpart : ∀ value, part = .default value → V value) :
    Yields (Stores N V) (d.modifyCurrentColumn part.set) := by
  apply h.modifyCurrentColumn
  intro c hc
  cases part with
  | default value =>
      exact { hc with default := by simpa [ColumnPart.set, addConstraint] using hpart value rfl }
  | _ => exact { hc with }

theorem Stores.setTargetColumn (h : d.Stores N V) {column : String} (hcolumn : N column) :
    Yields (Stores N V) (d.setTargetColumn column) := by
  fun_cases Draft.setTargetColumn
  case case4 hget =>
    have hc := h.statement.columns _ (List.mem_of_getElem? hget)
    refine h.modifyColumn _ fun b hb => { hb with references := ?_ }
    simpa using ⟨(hc.references _ rfl).1, .inr hcolumn⟩
  all_goals simp

/-! ## Orders, indexes and privileges -/

theorem Stores.modifyLastOrder (h : d.Stores N V) (order : SortOrder) :
    Yields (Stores N V) (d.modifyLastOrder fun item => { item with order }) := by
  unfold Draft.modifyLastOrder
  split
  next items hitems =>
    have hcolumns := forall_mem_modifyLast? (P := fun item : OrderItem => N item.column) hitems
      h.statement.orderBy (fun _ _ hitem => hitem)
    exact yields_ok.mpr ⟨{ h.statement with orderBy := hcolumns }, h.pending⟩
  · simp

theorem Stores.modifyIndex (h : d.Stores N V) {f : Index → Except Refusal Index}
    (hf : ∀ index : Index, (N index.name ∧ ∀ c ∈ index.columns, N c.name) →
      Yields (fun index : Index => N index.name ∧ ∀ c ∈ index.columns, N c.name) (f index)) :
    Yields (Stores N V) (d.modifyIndex f) := by
  unfold Draft.modifyIndex
  split
  next index hindex =>
    simp only [yields_bind, yields_pure]
    refine (hf index (h.statement.index index hindex)).imp fun index' hindex' => ?_
    exact ⟨{ h.statement with index := by simpa using hindex' }, h.pending⟩
  · simp

theorem Stores.orderIndex (h : d.Stores N V) (order : SortOrder) :
    Yields (Stores N V) (d.modifyIndex (orderLastColumn order)) := by
  apply h.modifyIndex
  intro index hindex
  unfold orderLastColumn
  split
  next columns hcolumns =>
    have hnames := forall_mem_modifyLast? (P := fun c : IndexColumn => N c.name) hcolumns
      hindex.2 (fun _ _ hc => hc)
    exact yields_ok.mpr ⟨hindex.1, hnames⟩
  · simp

theorem Stores.modifyLastPrivilege (h : d.Stores N V) {f : Privilege → Privilege}
    (hf : ∀ p : Privilege, (∀ name ∈ p.columns, N name) → ∀ name ∈ (f p).columns, N name) :
    Yields (Stores N V) (d.modifyLastPrivilege f) := by
  unfold Draft.modifyLastPrivilege
  split
  next privileges hprivileges =>
    have hnames := forall_mem_modifyLast? (P := fun p : Privilege => ∀ name ∈ p.columns, N name)
      hprivileges h.statement.privileges (fun p _ hp => hf p hp)
    exact yields_ok.mpr ⟨{ h.statement with privileges := hnames }, h.pending⟩
  · simp

/-! ## Changes -/

/-- A change that a draft is ready for stores nothing but what the token spells. -/
theorem Stores.apply (hempty : V "") (ht : t.Supplies N V) (h : d.Stores N V) {c : Change}
    (hc : d.Admits t c) : Yields (Stores N V) (d.apply c) := by
  cases c with
  | stay => exact yields_ok.mpr h
  | kind kind =>
      -- nothing is stored before the kind is known
      have hs : d.statement = {} := hc
      refine yields_ok.mpr ⟨?_, h.pending⟩
      rw [hs]
      exact { stores_default.statement with fields := by simp }
  | addTable name => exact yields_ok.mpr (h.addTable (ht.name name hc))
  | addField name => exact yields_ok.mpr (h.addField (.inl (ht.name name hc)))
  | addStar => exact yields_ok.mpr (h.addField (.inr ⟨hc, rfl⟩))
  | addUser name => exact yields_ok.mpr (h.addUser (ht.name name hc))
  | addOrder column =>
      exact yields_ok.mpr ⟨{ h.statement with
        orderBy := forall_mem_concat h.statement.orderBy (ht.name column hc) }, h.pending⟩
  | orderLast order => exact h.modifyLastOrder order
  | addRow =>
      refine yields_ok.mpr ⟨{ h.statement with inserts := ?_ }, h.pending⟩
      exact forall_mem_concat h.statement.inserts (by simp)
  | addValue text => exact h.addValue (ht.value text hc)
  | closeRow => exact h.closeRow
  | awaitValue column =>
      have hN := ht.name column hc
      exact yields_ok.mpr ⟨(h.addNewField hN).statement, by simpa using hN⟩
  | assign text => exact h.assign (ht.value text hc)
  | addCondition column =>
      refine yields_ok.mpr ⟨{ h.statement with conditions := ?_ }, h.pending⟩
      exact forall_mem_concat h.statement.conditions ⟨ht.name column hc, by simp⟩
  | setPredicate p =>
      obtain ⟨-, shape, hp, -⟩ := hc
      exact h.setPredicate (stores_predicate? hempty hp)
  | fillValue text => exact h.modifyPredicate (stores_fillValue (ht.value text hc))
  | fillLow text => exact h.modifyPredicate (stores_fillLow (ht.value text hc))
  | fillHigh text => exact h.modifyPredicate (stores_fillHigh (ht.value text hc))
  | addItem text => exact h.modifyPredicate (stores_addValue (ht.value text hc))
  | addConnective link => exact yields_ok.mpr ⟨{ h.statement with }, h.pending⟩
  | addColumn name =>
      refine yields_ok.mpr ⟨{ h.statement with columns := ?_ }, h.pending⟩
      exact forall_mem_concat h.statement.columns ⟨ht.name name hc, by simp, by simp, by simp⟩
  | define part =>
      apply h.define
      rintro text rfl
      exact ht.value text hc
  | leaveColumn | enterClause | enterCheck | leaveCheck | leaveForeignKey =>
      exact yields_ok.mpr ⟨h.statement, h.pending⟩
  | enterReferences =>
      have hscope : Stores N V { d with constraintScope := .column } := ⟨h.statement, h.pending⟩
      simp only [Draft.apply, enterReferences]
      split
      · simp
      · exact hscope.openForeignKey _
  | addCheck column =>
      simp only [Draft.apply, yields_bind]
      exact fun i _ => h.checkOn (ht.name column hc.1) i
  | linkCheck link =>
      simp only [Draft.apply, linkCheck]
      split
      · simp
      · exact h.modifyColumn _ fun c hc => { hc with }
  | addKey column =>
      simp only [Draft.apply, yields_bind]
      exact fun i _ => h.modifyColumn i fun c hc => { hc with }
  | addForeignKey column =>
      simp only [Draft.apply, yields_bind]
      exact fun i _ => h.openForeignKey i
  | setTarget table =>
      refine h.modifyForeignKey fun c hc' => { hc' with references := ?_ }
      simpa using ht.name table hc
  | setTargetColumn column => exact h.setTargetColumn (ht.name column hc)
  | keepQuery query => exact yields_ok.mpr ⟨{ h.statement with }, h.pending⟩
  | nameIndex name =>
      exact yields_ok.mpr
        ⟨{ h.statement with index := by simpa using ht.name name hc }, h.pending⟩
  | addIndexColumn name =>
      have hN := ht.name name hc
      simp only [Draft.apply, yields_bind, yields_pure]
      refine (h.modifyIndex fun index hindex => ?_).imp fun _ hd => hd.addField (.inl hN)
      exact yields_ok.mpr ⟨hindex.1, forall_mem_concat hindex.2 hN⟩
  | orderIndex order => exact h.orderIndex order
  | setPassword text =>
      exact yields_ok.mpr
        ⟨{ h.statement with password := by simpa using ht.value text hc }, h.pending⟩
  | addPrivilege action =>
      refine yields_ok.mpr ⟨{ h.statement with privileges := ?_ }, h.pending⟩
      exact forall_mem_concat h.statement.privileges (by simp)
  | grantColumn name =>
      have hN := ht.name name hc
      exact (h.addNewField hN).modifyLastPrivilege fun p hp => forall_mem_concat hp hN

/-- A step stores nothing but the name or the value of its token. -/
theorem accept_stores (hempty : V "") (ht : t.Supplies N V) {rest : List Char}
    (h : d.Stores N V) (hp : d.Pictured) : Yields (Stores N V) (d.accept t rest) := by
  unfold accept
  cases hm : d.move? t rest with
  | none => simp
  | some m =>
      rw [yields_follow]
      exact (h.apply hempty ht (hp.admits hm)).imp fun _ hd => hd.goto _

end Draft

/-! ## Along a run -/

namespace Parser

variable {p q : Parser} {N V : String → Prop}

theorem step_stores (hempty : V "") (hsupplies : ∀ cs, (scan cs).token.Supplies N V)
    (hp : p.draft.Pictured ∧ p.draft.Stores N V) (hstep : p.step = .ok () q) :
    q.draft.Pictured ∧ q.draft.Stores N V := by
  refine ⟨step_pictured hp.1 hstep, ?_⟩
  obtain ⟨draft, hdraft, rfl⟩ := step_eq_ok_iff.mp hstep
  exact Draft.accept_stores hempty (hsupplies p.cursor.rest) hp.2 hp.1 draft hdraft

theorem Steps.stores {settings : Settings} {text : String} {ts : List Token} (hempty : V "")
    (hsupplies : ∀ cs, (scan cs).token.Supplies N V)
    (h : Steps (.ofText settings text) ts q) : q.draft.Pictured ∧ q.draft.Stores N V :=
  h.preserves (P := fun p => p.draft.Pictured ∧ p.draft.Stores N V)
    (fun _ _ hp _ hstep => step_stores hempty hsupplies hp hstep) ⟨rfl, Draft.stores_default⟩

end Parser

end SqlReader
