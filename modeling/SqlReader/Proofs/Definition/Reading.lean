import SqlReader.Proofs.Definition.Tree

/-!
# Reading table definitions

A draft that takes the tokens of a definition comes to have the columns that the
definition means, and refuses the tokens if it means none.  A constraint is read
by the same steps inside a column and by itself; the column that it belongs to
stands somewhere among the columns of the table.
-/

namespace SqlReader

/-! ## Tokens that may be refused -/

/-- From every draft with `P` the tokens lead to a draft with `Q b` if the result
is `b`, and break a rule if there is no result. -/
structure Settles {β : Type} (P : Draft → Prop) (ts : List Token) (result : Option β)
    (Q : β → Draft → Prop) : Prop where
  brings : ∀ b, result = some b → Brings P ts (Q b)
  refuses : result = none → ∀ d, P d → ∃ reason, d.run ts = .error (.breaks reason)

theorem Draft.run_of_refused {d : Draft} {t : Token} {refusal : Refusal}
    (hquery : d.state ≠ .view .query) (h : d.accept t [] = .error refusal) (ts : List Token) :
    d.run (t :: ts) = .error refusal := by
  simp only [Draft.run, if_neg hquery, h]
  rfl

theorem Brings.settles {β : Type} {P : Draft → Prop} {ts : List Token} {Q : β → Draft → Prop}
    {b : β} (h : Brings P ts (Q b)) : Settles P ts (some b) Q := by
  refine ⟨?_, by simp⟩
  rintro _ ⟨⟩
  exact h

namespace Settles

variable {β γ : Type} {P : Draft → Prop} {Q : β → Draft → Prop} {R : γ → Draft → Prop}
  {ts us : List Token} {result : Option β}

theorem bind {next : β → Option γ} (h : Settles P ts result Q)
    (h' : ∀ b, Settles (Q b) us (next b) R) : Settles P (ts ++ us) (result.bind next) R := by
  constructor
  · intro c hc
    obtain ⟨b, hb, hnext⟩ := Option.bind_eq_some_iff.mp hc
    exact (h.brings b hb).append ((h' b).brings c hnext)
  · intro hnone d hd
    rw [Draft.run_append]
    cases result with
    | none =>
        obtain ⟨reason, hrun⟩ := h.refuses rfl d hd
        exact ⟨reason, by rw [hrun]; rfl⟩
    | some b =>
        obtain ⟨d', hrun, hd'⟩ := h.brings b rfl d hd
        obtain ⟨reason, hrun'⟩ := (h' b).refuses hnone d' hd'
        exact ⟨reason, by rw [hrun]; exact hrun'⟩

theorem prepend {S : Draft → Prop} (h : Brings S ts P) (h' : Settles P us result Q) :
    Settles S (ts ++ us) result Q :=
  (h.settles (Q := fun _ : Unit => P) (b := ())).bind fun _ => h'

theorem append {S : β → Draft → Prop} (h : Settles P ts result Q)
    (h' : ∀ b, Brings (Q b) us (S b)) : Settles P (ts ++ us) result S := by
  have hall := h.bind fun b => (h' b).settles
  rwa [Option.bind_fun_some] at hall

/-- The items of a list are taken one after the other, each on the result of
those before it. -/
theorem flatMap {α : Type} {item : α → List Token} {step : β → α → Option β}
    (h : ∀ b a, Settles (Q b) (item a) (step b a) Q) (as : List α) (b : β) :
    Settles (Q b) (as.flatMap item) (as.foldlM step b) Q := by
  induction as generalizing b with
  | nil => exact Brings.settles (.nil fun _ hd => hd)
  | cons a as ih =>
      rw [List.flatMap_cons, List.foldlM_cons]
      exact (h b a).bind ih

theorem commaList {α : Type} {item : α → List Token} {step : β → α → Option β}
    {S : β → Draft → Prop} (hitem : ∀ b a, Settles (S b) (item a) (step b a) Q)
    (hcomma : ∀ b, Brings (Q b) [.keyword .comma] (S b)) (a : α) (as : List α) (b : β) :
    Settles (S b) (SqlReader.commaList item (a :: as)) ((a :: as).foldlM step b) Q := by
  rw [SqlReader.commaList, List.foldlM_cons]
  exact (hitem b a).bind (flatMap (fun b a => prepend (hcomma b) (hitem b a)) as)

end Settles

/-! ## Columns by name -/

section LastIdx

variable {α : Type} {p : α → Bool} {as before after : List α} {a : α} {i : Nat}

theorem lastIdx?_append_cons (ha : p a = true) (hafter : ∀ b ∈ after, p b = false) :
    lastIdx? p (before ++ a :: after) = some before.length := by
  have hfind : (before ++ a :: after).reverse.findIdx? p = some after.length := by
    have hnone : after.reverse.findIdx? p = none := by
      simpa [List.findIdx?_eq_none_iff] using hafter
    simp [List.findIdx?_append, hnone, List.findIdx?_cons, ha]
  rw [lastIdx?, hfind, Option.map_some, List.length_append, List.length_cons]
  congr 1
  omega

theorem exists_split_of_lastIdx? (h : lastIdx? p as = some i) :
    ∃ before a after, as = before ++ a :: after ∧ before.length = i ∧ p a = true ∧
      ∀ b ∈ after, p b = false := by
  obtain ⟨bs, rfl⟩ : ∃ bs, as = bs.reverse := ⟨as.reverse, by simp⟩
  obtain ⟨j, hj, rfl⟩ := Option.map_eq_some_iff.mp h
  rw [List.reverse_reverse] at hj
  obtain ⟨hlt, hp, hnone⟩ := List.findIdx?_eq_some_iff_getElem.mp hj
  refine ⟨(bs.drop (j + 1)).reverse, bs[j], (bs.take j).reverse, by simp, ?_, hp, ?_⟩
  · rw [List.length_reverse, List.length_drop, List.length_reverse]
    omega
  · intro b hb
    obtain ⟨k, hk, rfl⟩ := List.mem_take_iff_getElem.mp (List.mem_reverse.mp hb)
    simpa using hnone k (by omega)

end LastIdx

namespace Draft

/-- A table definition with these columns. -/
def withColumns (table : String) (columns : List Column) : Statement :=
  { kind := .createTable, tables := [table], columns }

section Columns

open Definition

variable {table : String} {before after columns columns' : List Column} {c : Column} {d : Draft}

theorem modifyColumn_at (h : d.statement = withColumns table (before ++ c :: after))
    (f : Column → Column) :
    d.modifyColumn before.length f =
      .ok { d with statement := withColumns table (before ++ f c :: after) } := by
  rw [modifyColumn, if_pos (by simp [h, withColumns]), h]
  simp only [withColumns, modify_append_cons]

/-- The column that a mark changes is found by its name. -/
theorem columnIndex_of_mark {name : String} {clause : ColumnClause}
    (hd : d.statement = withColumns table columns)
    (h : mark columns (name, clause) = some columns') :
    ∃ before c after, columns = before ++ c :: after ∧
      columns' = before ++ clause.apply c :: after ∧ d.columnIndex name = .ok before.length := by
  obtain ⟨i, hi, rfl⟩ := Option.map_eq_some_iff.mp h
  obtain ⟨before, c, after, rfl, rfl, -⟩ := exists_split_of_lastIdx? hi
  refine ⟨before, c, after, rfl, modify_append_cons _ before c after, ?_⟩
  rw [columnIndex, hd]
  simp only [withColumns, hi]

theorem columnIndex_of_mark_none {name : String} {clause : ColumnClause}
    (hd : d.statement = withColumns table columns) (h : mark columns (name, clause) = none) :
    d.columnIndex name = .error (.breaks (.undefinedColumn name)) := by
  have hi : lastIdx? (·.name == name) columns = none := Option.map_eq_none_iff.mp h
  rw [columnIndex, hd]
  simp only [withColumns, hi]

end Columns

/-! ## Constraints

The column `c` stands between `before` and `after`.  Inside the definition of a
column it is the last one, and the one being defined. -/

section Constraints

open Definition

variable {table : String} {before after : List Column} {c : Column} {d : Draft}
  {scope : ConstraintScope} {current : Option Nat}

def next : ConstraintScope → TablePlace
  | .column => .columnTail
  | .table => .constraintEnd

theorem afterConstraint_eq (scope : ConstraintScope) :
    afterConstraint scope = .table (next scope) := by
  cases scope <;> rfl

structure Constrained (scope : ConstraintScope) (current : Option Nat) (table : String)
    (columns : List Column) (d : Draft) : Prop where
  state_eq : d.state = .table (next scope)
  statement_eq : d.statement = withColumns table columns
  current_eq : d.currentColumn = current

/-! ### Foreign keys -/

structure Keying (scope : ConstraintScope) (current : Option Nat) (table : String)
    (before : List Column) (c : Column) (after : List Column) (place : ForeignKeyPlace)
    (d : Draft) : Prop where
  state_eq : d.state = .foreignKey place
  statement_eq : d.statement = withColumns table (before ++ c :: after)
  current_eq : d.currentColumn = current
  key_eq : d.foreignKeyColumn = some before.length
  scope_eq : d.constraintScope = scope

theorem brings_keying {a b : ForeignKeyPlace} {t : Token}
    (h : ∀ d : Draft, move? { d with state := .foreignKey a } t [] =
      some ⟨.stay, .foreignKey b⟩) :
    Brings (Keying scope current table before c after a) [t]
      (Keying scope current table before c after b) := by
  refine .step fun d hd => ⟨by simp [hd.state_eq], ?_⟩
  have hmove := h d
  rw [← hd.state_eq] at hmove
  exact ⟨_, accept_of_move hmove, rfl, hd.statement_eq, hd.current_eq, hd.key_eq, hd.scope_eq⟩

theorem brings_target (t u : Name) :
    Brings (Keying scope current table before c after .table) (t.token :: bracketed [u.token])
      (Constrained scope current table
        (before ++ { c with references := some ⟨t.text, u.text⟩ } :: after)) := by
  have htable : Brings (Keying scope current table before c after .table) [t.token]
      (Keying scope current table before { c with references := some ⟨t.text, ""⟩ } after
        .tableOpen) := by
    refine .step fun d hd => ⟨by simp [hd.state_eq], ?_⟩
    rw [accept, move?, hd.state_eq]
    simp only [ForeignKeyPlace.move?, Name.token, Token.identifier?_word t.identifier,
      Option.map_some, follow, apply, modifyForeignKey, hd.key_eq, modifyColumn_at hd.statement_eq]
    exact ⟨_, rfl, rfl, rfl, hd.current_eq, rfl, hd.scope_eq⟩
  have hopen : Brings
      (Keying scope current table before { c with references := some ⟨t.text, ""⟩ } after
        .tableOpen) [.keyword .leftParen]
      (Keying scope current table before { c with references := some ⟨t.text, ""⟩ } after
        .column) :=
    brings_keying fun _ => rfl
  have hcolumn : Brings
      (Keying scope current table before { c with references := some ⟨t.text, ""⟩ } after
        .column) [u.token]
      (Keying scope current table before { c with references := some ⟨t.text, u.text⟩ } after
        .columnClose) := by
    refine .step fun d hd => ⟨by simp [hd.state_eq], ?_⟩
    have hkeyed : d.statement.columns[before.length]? =
        some { c with references := some ⟨t.text, ""⟩ } := by
      rw [hd.statement_eq]
      simp [withColumns]
    rw [accept, move?, hd.state_eq]
    simp only [ForeignKeyPlace.move?, Name.token, Token.identifier?_word u.identifier,
      Option.map_some, follow, apply, setTargetColumn_eq hd.key_eq hkeyed rfl,
      modifyColumn_at hd.statement_eq]
    exact ⟨_, rfl, rfl, rfl, hd.current_eq, hd.key_eq, hd.scope_eq⟩
  have hclose : Brings
      (Keying scope current table before { c with references := some ⟨t.text, u.text⟩ } after
        .columnClose) [.keyword .rightParen]
      (Constrained scope current table
        (before ++ { c with references := some ⟨t.text, u.text⟩ } :: after)) := by
    refine .step fun d hd => ⟨by simp [hd.state_eq], ?_⟩
    have hafter : afterConstraint d.constraintScope = .table (next scope) := by
      rw [afterConstraint_eq, hd.scope_eq]
    rw [accept, move?, hd.state_eq]
    exact ⟨_, rfl, hafter, hd.statement_eq, hd.current_eq⟩
  exact htable.cons (hopen.cons (hcolumn.cons hclose))

/-! ### Checks -/

structure Checking (scope : ConstraintScope) (current : Option Nat) (table : String)
    (before : List Column) (c : Column) (after : List Column) (place : CheckPlace) (fresh : Bool)
    (d : Draft) : Prop where
  state_eq : d.state = .check place
  statement_eq : d.statement = withColumns table (before ++ c :: after)
  frame_eq : d.frame = (current, scope, some before.length, fresh)

/-- The table with a further condition in the checks of a column. -/
def checkHole (table : String) (before : List Column) (c : Column) (after : List Column)
    (condition : Condition) : Statement :=
  withColumns table (before ++ { c with checks := c.checks ++ [condition] } :: after)

theorem fills_check (table : String) (before : List Column) (c : Column) (after : List Column) :
    (ConditionSlot.check before.length c.checks.length).Fills
      (checkHole table before c after) := by
  intro d condition hslot hs
  refine ⟨by simp [openCondition?, hslot, hs, checkHole, withColumns], fun condition' => ?_⟩
  simp [putCondition, hslot, hs, checkHole, withColumns, modify_append_cons]

def opened (fresh : Bool) (c : Column) : Column :=
  if fresh then
    addConstraint .check
      { c with
        checkConnectives :=
          if c.checks.isEmpty then c.checkConnectives else c.checkConnectives ++ [.and] }
  else c

theorem accept_checkField {n : Name} (hstate : d.state = .check .field)
    (hs : d.statement = withColumns table (before ++ c :: after))
    (htarget : d.checkTarget n.text = .ok before.length) :
    ∃ d', d.accept n.token [] = .ok d' ∧
      Reading (.check .operator) (checkHole table before (opened d.freshCheck c) after)
        (d.currentColumn, d.constraintScope, some before.length, false)
        ⟨.field n.text, none⟩ d' := by
  have hadd : addCheck d.freshCheck n.text c =
      { opened d.freshCheck c with
        checks := (opened d.freshCheck c).checks ++ [⟨.field n.text, none⟩] } := rfl
  rw [accept, move?, hstate]
  simp only [CheckPlace.move?, Name.token, Token.identifier?_word n.identifier, Option.map_some,
    follow, apply, htarget, bind, Except.bind, checkOn, modifyColumn_at hs]
  refine ⟨_, rfl, rfl, by rw [hadd]; rfl, rfl, _, rfl, ?_⟩
  let columns := (withColumns table (before ++ addCheck d.freshCheck n.text c :: after)).columns
  have hposition : (columns[before.length]?.map (·.checks.length)).getD 0 - 1 =
      (opened d.freshCheck c).checks.length := by
    simp [columns, withColumns, hadd]
  rw [hposition]
  exact fills_check table before (opened d.freshCheck c) after

theorem brings_test {hole : Condition → Statement} {left : Operand}
    {frame : Option Nat × ConstraintScope × Option Nat × Bool} (t : Test) :
    Brings (Reading (.check .operator) hole frame ⟨left, none⟩) t.tokens
      (Reading (.check .conjunctionOrClose) hole frame ⟨left, some t.predicate⟩) := by
  have hcomplete : t.predicate.Complete := by
    cases t with
    | compare op hop right => exact ⟨hop, right.text, rfl⟩
    | like negated pattern => trivial
    | inList negated first others => exact List.cons_ne_nil _ _
  have hshape : Clause.check = .check → t.predicate.shape ≠ .range := by
    intro _
    cases t <;> simp [Test.predicate, Predicate.shape]
  have hoperator : Brings (Reading (.check .operator) hole frame ⟨left, none⟩)
      [.keyword t.predicate.operator.keyword]
      (Reading (Clause.check.afterOperator t.predicate.shape) hole frame
        ⟨left, some t.predicate.begun⟩) :=
    brings_setPredicate (by decide) fun d hd =>
      Clause.check.accept_operator hd (Predicate.predicate?_keyword hcomplete) hshape
  refine hoperator.cons ?_
  cases t with
  | compare op hop right =>
      exact brings_modifyPredicate (a := Clause.check.value) (by decide)
        (fun d hd => Clause.check.accept_value hd right.spells) rfl
  | like negated pattern =>
      exact brings_modifyPredicate (a := Clause.check.value) (by decide)
        (fun d hd => Clause.check.accept_value hd pattern.spells) rfl
  | inList negated first others =>
      exact brings_list .check negated (fun v : Value => v.spells) (List.cons_ne_nil _ _)

/-- A condition behind a connective. -/
theorem brings_term (t : Term) :
    Brings (Checking scope current table before c after .field false) t.tokens
      (Checking scope current table before { c with checks := c.checks ++ [t.condition] } after
        .conjunctionOrClose false) := by
  have hfield : Brings (Checking scope current table before c after .field false)
      [t.column.token]
      (Reading (.check .operator) (checkHole table before c after)
        (current, scope, some before.length, false) ⟨.field t.column.text, none⟩) := by
    refine .step fun d hd => ⟨by simp [hd.state_eq], ?_⟩
    obtain ⟨hcurrent, hscope, hcheck, hfresh⟩ :
        d.currentColumn = current ∧ d.constraintScope = scope ∧
          d.checkColumn = some before.length ∧ d.freshCheck = false := by
      simpa [frame] using hd.frame_eq
    have hfound := accept_checkField (n := t.column) hd.state_eq hd.statement_eq
      (by rw [checkTarget, hcheck])
    rwa [hcurrent, hscope, hfresh] at hfound
  exact (hfield.cons (brings_test t.test)).weaken (fun _ hd => hd)
    fun d hd => ⟨hd.state_eq, hd.statement_eq, hd.frame_eq⟩

theorem brings_checkLink (l : Connective) :
    Brings (Checking scope current table before c after .conjunctionOrClose false)
      [.keyword l.keyword]
      (Checking scope current table before
        { c with checkConnectives := c.checkConnectives ++ [l] } after .field false) := by
  refine .step fun d hd => ⟨by simp [hd.state_eq], ?_⟩
  have hcheck : d.checkColumn = some before.length := by
    have hframe := hd.frame_eq
    simp only [frame, Prod.mk.injEq] at hframe
    exact hframe.2.2.1
  have haccept : d.accept (.keyword l.keyword) [] =
      (d.modifyColumn before.length
        (fun c => { c with checkConnectives := c.checkConnectives ++ [l] }) >>=
          (·.goto (.check .field))) := by
    rw [accept, move?, hd.state_eq]
    cases l <;>
      simp only [CheckPlace.move?, Connective.keyword, Token.keyword?, Keyword.connective?,
        Option.map_some, follow, apply, linkCheck, hcheck]
  rw [haccept, modifyColumn_at hd.statement_eq]
  exact ⟨_, rfl, rfl, rfl, hd.frame_eq⟩

/-- A check, once the column of its first condition is found. -/
theorem brings_checkChain {P : Draft → Prop} (chain : Chain)
    (hfirst : Brings P [chain.first.column.token]
      (Reading (.check .operator) (checkHole table before (opened true c) after)
        (current, scope, some before.length, false) ⟨.field chain.first.column.text, none⟩)) :
    Brings P (chain.tokens ++ [.keyword .rightParen])
      (Constrained scope current table (before ++ chain.clause.apply c :: after)) := by
  -- after some links the column has the check that ends there
  let T := fun links : List (Connective × Term) =>
    Checking scope current table before ((Chain.mk chain.first links).clause.apply c) after
      .conjunctionOrClose false
  have hterm : Brings P chain.first.tokens (T []) := by
    refine (hfirst.cons (brings_test chain.first.test)).weaken (fun _ hd => hd) fun d hd => ?_
    refine ⟨hd.state_eq, ?_, hd.frame_eq⟩
    rw [hd.statement_eq]
    simp [checkHole, opened, Chain.clause, Chain.conditions, Chain.connectives,
      ColumnClause.apply, addConstraint, Term.condition]
  have hlinks : Brings (T []) (chain.links.flatMap Chain.linkTokens) (T chain.links) := by
    refine Brings.flatMap fun done link rest _ => ?_
    refine ((brings_checkLink link.1).cons (brings_term link.2)).weaken (fun _ hd => hd)
      fun d hd => ?_
    simpa [T, Chain.clause, Chain.conditions, Chain.connectives, ColumnClause.apply,
      addConstraint] using hd
  have hclose : Brings (T chain.links) [.keyword .rightParen]
      (Constrained scope current table (before ++ chain.clause.apply c :: after)) := by
    refine .step fun d hd => ⟨by simp [hd.state_eq], ?_⟩
    obtain ⟨hcurrent, hscope, -⟩ :
        d.currentColumn = current ∧ d.constraintScope = scope ∧
          d.checkColumn = some before.length ∧ d.freshCheck = false := by
      simpa [frame] using hd.frame_eq
    have hafter : afterConstraint d.constraintScope = .table (next scope) := by
      rw [afterConstraint_eq, hscope]
    rw [accept, move?, hd.state_eq]
    exact ⟨_, rfl, hafter, hd.statement_eq, hcurrent⟩
  exact (hterm.append hlinks).append hclose

end Constraints

/-! ## Columns -/

section Fields

open Definition

variable {table : String} {before : List Column} {c : Column} {d : Draft}

structure Defining (place : TablePlace) (table : String) (before : List Column) (c : Column)
    (d : Draft) : Prop where
  state_eq : d.state = .table place
  statement_eq : d.statement = withColumns table (before ++ [c])
  current_eq : d.currentColumn = some before.length

/-- The clauses of the last column are being read. -/
def Tail (table : String) (before : List Column) (c : Column) (d : Draft) : Prop :=
  ∃ place, (place = .typeSuffix ∨ place = .columnTail) ∧ Defining place table before c d

theorem Constrained.tail
    (h : d.Constrained .column (some before.length) table (before ++ [c])) :
    d.Tail table before c :=
  ⟨.columnTail, .inr rfl, h.state_eq, h.statement_eq, h.current_eq⟩

theorem Defining.modifyCurrentColumn {place : TablePlace} (h : d.Defining place table before c)
    (f : Column → Column) :
    d.modifyCurrentColumn f =
      .ok { d with statement := withColumns table (before ++ [f c]) } := by
  have hcurrent : d.modifyCurrentColumn f = d.modifyColumn before.length f := by
    rw [Draft.modifyCurrentColumn, h.current_eq]
  rw [hcurrent, modifyColumn_at h.statement_eq]

/-- Behind the type, clauses are read as behind the length. -/
theorem Tail.accept (h : d.Tail table before c) {t : Token} (ht : t.is .leftParen = false) :
    d.accept t [] = d.follow (Move.columnTail t) := by
  obtain ⟨place, rfl | rfl, hd⟩ := h
  · rw [Draft.accept, Draft.move?, hd.state_eq]
    simp [TablePlace.move?, ht]
  · rw [Draft.accept, Draft.move?, hd.state_eq]
    rfl

theorem Tail.state_ne (h : d.Tail table before c) : d.state ≠ .view .query := by
  obtain ⟨place, -, hd⟩ := h
  simp [hd.state_eq]

/-- A clause of one word. -/
theorem brings_mark {k : Keyword} {f : Column → Column} (hk : k ≠ .leftParen)
    (h : ∀ d : Draft, d.follow (Move.columnTail (.keyword k)) =
      (d.modifyCurrentColumn f >>= (·.goto (.table .columnTail)))) :
    Brings (Tail table before c) [.keyword k] (Tail table before (f c)) := by
  refine .step fun d hd => ⟨hd.state_ne, ?_⟩
  rw [hd.accept (by simp [Token.is, Token.keyword?, hk]), h]
  obtain ⟨place, -, hd⟩ := hd
  rw [hd.modifyCurrentColumn]
  exact ⟨_, rfl, .columnTail, .inr rfl, rfl, rfl, hd.current_eq⟩

theorem brings_default (v : Value) :
    Brings (Tail table before c) [.keyword .default, v.token]
      (Tail table before ((ColumnClause.default v.text).apply c)) := by
  have hword : Brings (Tail table before c) [.keyword .default]
      (Defining .defaultValue table before c) := by
    refine .step fun d hd => ⟨hd.state_ne, ?_⟩
    rw [hd.accept rfl]
    obtain ⟨place, -, hd⟩ := hd
    exact ⟨_, rfl, rfl, hd.statement_eq, hd.current_eq⟩
  have hvalue : Brings (Defining .defaultValue table before c) [v.token]
      (Tail table before ((ColumnClause.default v.text).apply c)) := by
    refine .step fun d hd => ⟨by simp [hd.state_eq], ?_⟩
    rw [accept, move?, hd.state_eq]
    simp only [TablePlace.move?, v.spells, Option.map_some, follow, apply, hd.modifyCurrentColumn]
    exact ⟨_, rfl, .columnTail, .inr rfl, rfl, rfl, hd.current_eq⟩
  exact hword.cons hvalue

theorem brings_references (t u : Name) :
    Brings (Tail table before c) (InlineClause.targetTokens t u)
      (Tail table before ((ColumnClause.references ⟨t.text, u.text⟩).apply c)) := by
  have hword : Brings (Tail table before c) [.keyword .references]
      (Keying .column (some before.length) table before
        (addConstraint .foreignKey { c with foreignKey := true }) [] .table) := by
    refine .step fun d hd => ⟨hd.state_ne, ?_⟩
    rw [hd.accept rfl]
    obtain ⟨place, -, hd⟩ := hd
    have haccept : d.follow (Move.columnTail (.keyword .references)) =
        ({ d with constraintScope := .column }.openForeignKey before.length >>=
          (·.goto (.foreignKey .table))) := by
      simp only [Move.columnTail, Token.keyword?, follow, apply, enterReferences, hd.current_eq]
    have hscoped : { d with constraintScope := .column }.statement =
        withColumns table (before ++ [c]) := hd.statement_eq
    rw [haccept, openForeignKey, modifyColumn_at hscoped]
    exact ⟨_, rfl, rfl, rfl, hd.current_eq, rfl, rfl⟩
  exact (hword.cons (brings_target t u)).weaken (fun _ hd => hd) fun _ hd => hd.tail

theorem brings_check (chain : Chain) :
    Brings (Tail table before c) (InlineClause.check chain).tokens
      (Tail table before (chain.clause.apply c)) := by
  have hword : Brings (Tail table before c) [.keyword .check]
      (Checking .column (some before.length) table before c [] .opening true) := by
    refine .step fun d hd => ⟨hd.state_ne, ?_⟩
    rw [hd.accept rfl]
    obtain ⟨place, -, hd⟩ := hd
    refine ⟨_, rfl, rfl, hd.statement_eq, ?_⟩
    simp [frame, hd.current_eq]
  have hopen : Brings (Checking .column (some before.length) table before c [] .opening true)
      [.keyword .leftParen]
      (Checking .column (some before.length) table before c [] .field true) := by
    refine .step fun d hd => ⟨by simp [hd.state_eq], ?_⟩
    rw [accept, move?, hd.state_eq]
    exact ⟨_, rfl, rfl, hd.statement_eq, hd.frame_eq⟩
  have hfirst : Brings (Checking .column (some before.length) table before c [] .field true)
      [chain.first.column.token]
      (Reading (.check .operator) (checkHole table before (opened true c) [])
        (some before.length, .column, some before.length, false)
        ⟨.field chain.first.column.text, none⟩) := by
    refine .step fun d hd => ⟨by simp [hd.state_eq], ?_⟩
    obtain ⟨hcurrent, hscope, hcheck, hfresh⟩ :
        d.currentColumn = some before.length ∧ d.constraintScope = .column ∧
          d.checkColumn = some before.length ∧ d.freshCheck = true := by
      simpa [frame] using hd.frame_eq
    have hfound := accept_checkField (n := chain.first.column) hd.state_eq hd.statement_eq
      (by rw [checkTarget, hcheck])
    rwa [hcurrent, hscope, hfresh] at hfound
  exact (hword.cons (hopen.cons (brings_checkChain chain hfirst))).weaken (fun _ hd => hd)
    fun _ hd => hd.tail

theorem brings_inline (clause : InlineClause) :
    Brings (Tail table before c) clause.tokens (Tail table before (clause.clause.apply c)) := by
  cases clause with
  | notNull => exact brings_mark (k := .notNull) (by decide) fun d => rfl
  | unique => exact brings_mark (k := .unique) (by decide) fun d => rfl
  | primaryKey => exact brings_mark (k := .primaryKey) (by decide) fun d => rfl
  | default value => exact brings_default value
  | references t u => exact brings_references t u
  | check chain => exact brings_check chain

theorem brings_clauses (clauses : List InlineClause) :
    Brings (Tail table before c) (clauses.flatMap InlineClause.tokens)
      (Tail table before ((clauses.map (·.clause)).foldl ColumnClause.apply c)) := by
  refine Brings.flatMap (S := fun done : List InlineClause =>
    Tail table before ((done.map (·.clause)).foldl ColumnClause.apply c)) ?_
  intro done clause rest _
  rw [List.map_append, List.foldl_append]
  exact brings_inline clause

def Awaiting (table : String) (columns : List Column) (d : Draft) : Prop :=
  d.statement = withColumns table columns ∧
    (d.state = .table .field ∨ d.state = .table .element)

theorem brings_columnName (n : Name) :
    Brings (Awaiting table before) [n.token]
      (Defining .fieldType table before { name := n.text }) := by
  refine .step ?_
  rintro d ⟨hs, hstate⟩
  have haccept : d.accept n.token [] = d.follow (Move.openColumn n.token) := by
    rcases hstate with hstate | hstate <;> rw [accept, move?, hstate] <;> rfl
  refine ⟨by rcases hstate with hstate | hstate <;> simp [hstate], ?_⟩
  rw [haccept, Move.openColumn, Name.token, Token.identifier?_word n.identifier]
  refine ⟨_, rfl, rfl, ?_, ?_⟩
  · simp [addColumn, hs, withColumns]
  · simp [addColumn, hs, withColumns]

theorem brings_dataType {kind : String} (h : DataType.ofName kind ≠ .unknown) :
    Brings (Defining .fieldType table before c) [.word kind]
      (Defining .typeSuffix table before { c with dataType := .ofName kind }) := by
  refine .step fun d hd => ⟨by simp [hd.state_eq], ?_⟩
  rw [accept, move?, hd.state_eq]
  have htype : dataType (.word kind) ≠ .unknown := h
  simp only [TablePlace.move?, if_neg htype, follow, apply, hd.modifyCurrentColumn]
  exact ⟨_, rfl, rfl, rfl, hd.current_eq⟩

theorem brings_length (hc : c.length = none) (length : Option Length) :
    Brings (Defining .typeSuffix table before c) (Field.lengthTokens length)
      (Tail table before { c with length := length.map (·.size) }) := by
  cases length with
  | none =>
      refine .nil fun d hd => ⟨_, .inl rfl, ?_⟩
      rwa [Option.map_none, ← hc]
  | some n =>
      have hopen : Brings (Defining .typeSuffix table before c) [.keyword .leftParen]
          (Defining .fieldLength table before c) := by
        refine .step fun d hd => ⟨by simp [hd.state_eq], ?_⟩
        rw [accept, move?, hd.state_eq]
        exact ⟨_, rfl, rfl, hd.statement_eq, hd.current_eq⟩
      have hnumber : Brings (Defining .fieldLength table before c) [.word n.text]
          (Defining .lengthClose table before { c with length := some n.size }) := by
        refine .step fun d hd => ⟨by simp [hd.state_eq], ?_⟩
        rw [accept, move?, hd.state_eq]
        simp only [TablePlace.move?, n.spells, Option.map_some, follow, apply,
          hd.modifyCurrentColumn]
        exact ⟨_, rfl, rfl, rfl, hd.current_eq⟩
      have hclose : Brings (Defining .lengthClose table before { c with length := some n.size })
          [.keyword .rightParen] (Tail table before { c with length := some n.size }) := by
        refine .step fun d hd => ⟨by simp [hd.state_eq], ?_⟩
        rw [accept, move?, hd.state_eq]
        exact ⟨_, rfl, .columnTail, .inr rfl, rfl, hd.statement_eq, hd.current_eq⟩
      exact hopen.cons (hnumber.cons hclose)

def Defined (table : String) (columns : List Column) (d : Draft) : Prop :=
  d.statement = withColumns table columns ∧
    ∃ place, (place = .typeSuffix ∨ place = .columnTail ∨ place = .constraintEnd) ∧
      d.state = .table place

theorem brings_field (f : Field) :
    Brings (Awaiting table before) f.tokens (Defined table (before ++ [f.column])) := by
  have hall : Brings (Awaiting table before) f.tokens (Tail table before f.column) :=
    (brings_columnName f.name).append ((brings_dataType f.typed).append
      ((brings_length rfl f.length).append (brings_clauses f.clauses)))
  refine hall.weaken (fun _ hd => hd) ?_
  rintro d ⟨place, hplace, hd⟩
  refine ⟨hd.statement_eq, place, ?_, hd.state_eq⟩
  rcases hplace with rfl | rfl
  · exact .inl rfl
  · exact .inr (.inl rfl)

theorem brings_elementComma (columns : List Column) :
    Brings (Defined table columns) [.keyword .comma]
      (At (.table .element) (withColumns table columns)) := by
  refine .step ?_
  rintro d ⟨hs, place, hplace, hstate⟩
  refine ⟨by simp [hstate], ?_⟩
  rcases hplace with rfl | rfl | rfl <;> rw [accept, move?, hstate] <;> exact ⟨_, rfl, rfl, hs⟩

theorem brings_elementsClose (columns : List Column) :
    Brings (Defined table columns) [.keyword .rightParen]
      (At .done (withColumns table columns)) := by
  refine .step ?_
  rintro d ⟨hs, place, hplace, hstate⟩
  refine ⟨by simp [hstate], ?_⟩
  rcases hplace with rfl | rfl | rfl <;> rw [accept, move?, hstate] <;> exact ⟨_, rfl, rfl, hs⟩

end Fields

/-! ## Clauses that stand by themselves -/

section Clauses

open Definition

variable {table : String} {columns : List Column} {d : Draft}

theorem Constrained.defined {current : Option Nat}
    (h : d.Constrained .table current table columns) : d.Defined table columns :=
  ⟨h.statement_eq, .constraintEnd, .inr (.inr rfl), h.state_eq⟩

/-- Tokens that begin with the name of a column that is there. -/
theorem settles_lookup {P : Draft → Prop} {Q : List Column → Draft → Prop} {n : Name}
    {clause : ColumnClause} {ts : List Token}
    (hP : ∀ d, P d → d.statement = withColumns table columns ∧ d.state ≠ .view .query)
    (hrefused : ∀ d refusal, P d → d.columnIndex n.text = .error refusal →
      d.accept n.token [] = .error refusal)
    (hfound : ∀ before c after, columns = before ++ c :: after →
      Brings (fun d => P d ∧ d.columnIndex n.text = .ok before.length) (n.token :: ts)
        (Q (before ++ clause.apply c :: after))) :
    Settles P (n.token :: ts) (mark columns (n.text, clause)) Q := by
  constructor
  · intro columns' hmark d hd
    obtain ⟨before, c, after, hcolumns, rfl, hindex⟩ := columnIndex_of_mark (hP d hd).1 hmark
    exact hfound before c after hcolumns d ⟨hd, hindex⟩
  · intro hnone d hd
    have hindex := columnIndex_of_mark_none (hP d hd).1 hnone
    exact ⟨_, run_of_refused (hP d hd).2 (hrefused d _ hd hindex) ts⟩

theorem settles_primaryKeyColumn (columns : List Column) (n : Name) :
    Settles (At (.primaryKey .field) (withColumns table columns)) [n.token]
      (mark columns (n.text, .primaryKey))
      fun columns => At (.primaryKey .next) (withColumns table columns) := by
  have haccept : ∀ d : Draft, d.state = .primaryKey .field → d.accept n.token [] =
      (d.columnIndex n.text >>= fun i =>
        d.modifyColumn i (ColumnClause.primaryKey.apply ·) >>= (·.goto (.primaryKey .next))) := by
    intro d hstate
    rw [accept, move?, hstate]
    simp only [PrimaryKeyPlace.move?, Name.token, Token.identifier?_word n.identifier,
      Option.map_some, follow, apply, bind_assoc]
    rfl
  refine settles_lookup (fun d hd => ⟨hd.statement_eq, by simp [hd.state_eq]⟩) ?_ ?_
  · intro d refusal hd hindex
    rw [haccept d hd.state_eq, hindex]
    rfl
  · rintro before c after rfl
    refine .step ?_
    rintro d ⟨hd, hindex⟩
    refine ⟨by simp [hd.state_eq], ?_⟩
    rw [haccept d hd.state_eq, hindex]
    simp only [bind, Except.bind, modifyColumn_at hd.statement_eq]
    exact ⟨_, rfl, rfl, rfl⟩

theorem settles_primaryKey (first : Name) (others : List Name) :
    Settles (At (.table .element) (withColumns table columns))
      (TableClause.primaryKey first others).tokens
      ((TableClause.primaryKey first others).marks.foldlM mark columns) (Defined table) := by
  have hword : Brings (At (.table .element) (withColumns table columns)) [.keyword .primaryKey]
      (At (.primaryKey .opening) (withColumns table columns)) :=
    .of_accept (by decide) fun d hstate hs => by
      rw [accept, move?, hstate]
      exact ⟨_, rfl, rfl, hs⟩
  have hopen : Brings (At (.primaryKey .opening) (withColumns table columns))
      [.keyword .leftParen] (At (.primaryKey .field) (withColumns table columns)) :=
    .of_goto (by decide) fun _ => rfl
  have hnames : Settles (At (.primaryKey .field) (withColumns table columns))
      (commaList (fun n => [n.token]) (first :: others))
      ((first :: others).foldlM (fun columns n => mark columns (n.text, .primaryKey)) columns)
      fun columns => At (.primaryKey .next) (withColumns table columns) :=
    Settles.commaList (S := fun columns => At (.primaryKey .field) (withColumns table columns))
      settles_primaryKeyColumn
      (fun columns => .of_goto (by decide) fun _ => rfl)
      first others columns
  have hclose : ∀ columns, Brings (At (.primaryKey .next) (withColumns table columns))
      [.keyword .rightParen] (Defined table columns) := by
    intro columns
    refine .step fun d hd => ⟨by simp [hd.state_eq], ?_⟩
    rw [accept, move?, hd.state_eq]
    exact ⟨_, rfl, hd.statement_eq, .constraintEnd, .inr (.inr rfl), rfl⟩
  rw [TableClause.marks, List.foldlM_map]
  exact Settles.prepend hword (Settles.prepend hopen (hnames.append hclose))

/-- A constraint of the table is being read that has not named its column yet. -/
structure Opening (state : State) (table : String) (columns : List Column) (d : Draft) :
    Prop where
  state_eq : d.state = state
  statement_eq : d.statement = withColumns table columns
  scope_eq : d.constraintScope = .table

theorem accept_foreignKeyColumn (h : d.state = .foreignKey .field) (n : Name) :
    d.accept n.token [] =
      (d.columnIndex n.text >>= fun i =>
        d.openForeignKey i >>= (·.goto (.foreignKey .close))) := by
  rw [accept, move?, h]
  simp only [ForeignKeyPlace.move?, Name.token, Token.identifier?_word n.identifier,
    Option.map_some, follow, apply, bind_assoc]

theorem settles_foreignKeyColumn (columns : List Column) (n t u : Name) :
    Settles (Opening (.foreignKey .field) table columns)
      (n.token :: .keyword .rightParen :: InlineClause.targetTokens t u)
      (mark columns (n.text, .references ⟨t.text, u.text⟩)) (Defined table) := by
  refine settles_lookup (fun d hd => ⟨hd.statement_eq, by simp [hd.state_eq]⟩) ?_ ?_
  · intro d refusal hd hindex
    rw [accept_foreignKeyColumn hd.state_eq, hindex]
    rfl
  · rintro before c after rfl d ⟨hd, hindex⟩
    let keyed : Column := addConstraint .foreignKey { c with foreignKey := true }
    -- of all drafts only `d`, since the steps keep its current column
    have hname : Brings (Eq d) [n.token]
        (Keying .table d.currentColumn table before keyed after .close) := by
      refine .step ?_
      rintro _ rfl
      refine ⟨by simp [hd.state_eq], ?_⟩
      rw [accept_foreignKeyColumn hd.state_eq, hindex]
      simp only [bind, Except.bind, openForeignKey, modifyColumn_at hd.statement_eq]
      exact ⟨_, rfl, rfl, rfl, rfl, rfl, hd.scope_eq⟩
    have hclose : Brings (Keying .table d.currentColumn table before keyed after .close)
        [.keyword .rightParen]
        (Keying .table d.currentColumn table before keyed after .references) :=
      brings_keying fun _ => rfl
    have hreferences : Brings
        (Keying .table d.currentColumn table before keyed after .references)
        [.keyword .references]
        (Keying .table d.currentColumn table before keyed after .table) :=
      brings_keying fun _ => rfl
    have hall := (hname.cons (hclose.cons (hreferences.cons (brings_target t u)))).weaken
      (fun _ hd => hd) fun _ hd => hd.defined
    exact hall d rfl

theorem settles_foreignKey (n t u : Name) :
    Settles (At (.table .element) (withColumns table columns))
      (TableClause.foreignKey n t u).tokens
      ((TableClause.foreignKey n t u).marks.foldlM mark columns) (Defined table) := by
  have hword : Brings (At (.table .element) (withColumns table columns)) [.keyword .foreignKey]
      (Opening (.foreignKey .opening) table columns) := by
    refine .step fun d hd => ⟨by simp [hd.state_eq], ?_⟩
    rw [accept, move?, hd.state_eq]
    exact ⟨_, rfl, rfl, hd.statement_eq, rfl⟩
  have hopen : Brings (Opening (.foreignKey .opening) table columns) [.keyword .leftParen]
      (Opening (.foreignKey .field) table columns) := by
    refine .step fun d hd => ⟨by simp [hd.state_eq], ?_⟩
    rw [accept, move?, hd.state_eq]
    exact ⟨_, rfl, rfl, hd.statement_eq, hd.scope_eq⟩
  have hmarks : (TableClause.foreignKey n t u).marks.foldlM mark columns =
      mark columns (n.text, .references ⟨t.text, u.text⟩) := by
    simp [TableClause.marks]
  rw [hmarks]
  exact Settles.prepend hword (Settles.prepend hopen (settles_foreignKeyColumn columns n t u))

/-- A check of the table is being read, the first condition of which will decide
which column it belongs to. -/
structure OpeningCheck (place : CheckPlace) (table : String) (columns : List Column)
    (d : Draft) : Prop extends Opening (.check place) table columns d where
  checkColumn_eq : d.checkColumn = none
  freshCheck_eq : d.freshCheck = true

theorem settles_checkChain (columns : List Column) (chain : Chain) :
    Settles (OpeningCheck .field table columns) (chain.tokens ++ [.keyword .rightParen])
      (mark columns (chain.first.column.text, chain.clause)) (Defined table) := by
  refine settles_lookup (fun d hd => ⟨hd.statement_eq, by simp [hd.state_eq]⟩) ?_ ?_
  · intro d refusal hd hindex
    rw [accept, move?, hd.state_eq]
    simp only [CheckPlace.move?, Name.token, Token.identifier?_word chain.first.column.identifier,
      Option.map_some, follow, apply, checkTarget, hd.checkColumn_eq, hindex, bind, Except.bind]
  · rintro before c after rfl d ⟨hd, hindex⟩
    have hfirst : Brings (Eq d) [chain.first.column.token]
        (Reading (.check .operator) (checkHole table before (opened true c) after)
          (d.currentColumn, .table, some before.length, false)
          ⟨.field chain.first.column.text, none⟩) := by
      refine .step ?_
      rintro _ rfl
      refine ⟨by simp [hd.state_eq], ?_⟩
      have hfound := accept_checkField (n := chain.first.column) hd.state_eq hd.statement_eq
        (by rw [checkTarget, hd.checkColumn_eq]; exact hindex)
      rwa [hd.scope_eq, hd.freshCheck_eq] at hfound
    have hall := (brings_checkChain chain hfirst).weaken (fun _ hd => hd)
      fun _ hd => hd.defined
    exact hall d rfl

theorem settles_check (chain : Chain) :
    Settles (At (.table .element) (withColumns table columns))
      (TableClause.check chain).tokens
      ((TableClause.check chain).marks.foldlM mark columns) (Defined table) := by
  have hword : Brings (At (.table .element) (withColumns table columns)) [.keyword .check]
      (OpeningCheck .opening table columns) := by
    refine .step fun d hd => ⟨by simp [hd.state_eq], ?_⟩
    rw [accept, move?, hd.state_eq]
    exact ⟨_, rfl, ⟨rfl, hd.statement_eq, rfl⟩, rfl, rfl⟩
  have hopen : Brings (OpeningCheck .opening table columns) [.keyword .leftParen]
      (OpeningCheck .field table columns) := by
    refine .step fun d hd => ⟨by simp [hd.state_eq], ?_⟩
    rw [accept, move?, hd.state_eq]
    exact ⟨_, rfl, ⟨rfl, hd.statement_eq, hd.scope_eq⟩, hd.checkColumn_eq, hd.freshCheck_eq⟩
  have hmarks : (TableClause.check chain).marks.foldlM mark columns =
      mark columns (chain.first.column.text, chain.clause) := by
    simp [TableClause.marks]
  rw [hmarks]
  exact Settles.prepend hword (Settles.prepend hopen (settles_checkChain columns chain))

end Clauses

/-! ## Whole definitions -/

section Definitions

open Definition

variable {table : String}

theorem settles_element (columns : List Column) (e : Element) :
    Settles (At (.table .element) (withColumns table columns)) e.tokens (e.build columns)
      (Defined table) := by
  cases e with
  | field f =>
      refine Brings.settles ((brings_field f).weaken ?_ fun _ hd => hd)
      rintro d ⟨hstate, hs⟩
      exact ⟨hs, .inr hstate⟩
  | clause c =>
      cases c with
      | primaryKey first others => exact settles_primaryKey first others
      | foreignKey n t u => exact settles_foreignKey n t u
      | check chain => exact settles_check chain

/-- A draft takes the tokens of a definition that means some columns, and comes
to have these columns; those of a definition that means none break a rule. -/
theorem settles_definition (D : Definition) :
    Settles (At .beginning {}) D.tokens D.columns?
      fun columns => At .done (withColumns D.table.text columns) := by
  have hname : Brings (At (.table .name) { kind := .createTable }) [D.table.token]
      (At (.table .opening) (withColumns D.table.text [])) :=
    .of_name D.table.identifier (by decide) (fun _ => rfl) fun d hs =>
      ⟨_, rfl, by simp [addTable, hs, withColumns]⟩
  have hopen : Brings (At (.table .opening) (withColumns D.table.text [])) [.keyword .leftParen]
      (Awaiting D.table.text []) := by
    refine .step fun d hd => ⟨by simp [hd.state_eq], ?_⟩
    rw [accept, move?, hd.state_eq]
    exact ⟨_, rfl, hd.statement_eq, .inl rfl⟩
  have helements : Settles (Awaiting D.table.text []) (commaList Element.tokens D.elements)
      D.columns? (Defined D.table.text) := by
    obtain ⟨f, others, helements⟩ := D.exists_field
    rw [columns?, helements, commaList, List.foldlM_cons]
    refine (brings_field f).settles.bind (Settles.flatMap (fun columns e => ?_) others)
    exact Settles.prepend (brings_elementComma columns) (settles_element columns e)
  exact Settles.prepend (brings_beginning rfl) (Settles.prepend hname
    (Settles.prepend hopen (helements.append brings_elementsClose)))

end Definitions

end Draft

end SqlReader
