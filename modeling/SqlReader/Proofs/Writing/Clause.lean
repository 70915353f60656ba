import SqlReader.Proofs.Writing.Schema

/-!
# The clauses of a column

What is written behind the type of a column is a list of clauses.  Each clause
changes the column in its own way, and an expressible column is what its clauses
make of its name and type.  The checks of a column are one chain of conditions;
their clauses are found by cutting the chain where it has an `AND`.
-/

namespace SqlReader

inductive ColumnClause
  | notNull
  | unique
  | primaryKey
  | default (value : String)
  | references (target : Reference)
  | check (conditions : List Condition) (connectives : List Connective)

namespace ColumnClause

def apply (c : Column) : ColumnClause → Column
  | notNull => Draft.addConstraint .notNull { c with notNull := true }
  | unique => Draft.addConstraint .unique { c with unique := true }
  | primaryKey => Draft.addConstraint .primaryKey { c with primaryKey := true }
  | default value => Draft.addConstraint .default { c with default := some value }
  | references target =>
    Draft.addConstraint .foreignKey { c with foreignKey := true, references := some target }
  | check conditions connectives =>
    Draft.addConstraint .check
      { c with
        checks := c.checks ++ conditions
        checkConnectives :=
          (if c.checks.isEmpty then c.checkConnectives else c.checkConnectives ++ [.and]) ++
            connectives }

def constraint : ColumnClause → Constraint
  | notNull => .notNull
  | unique => .unique
  | primaryKey => .primaryKey
  | default _ => .default
  | references _ => .foreignKey
  | check _ _ => .check

def value? : ColumnClause → Option String
  | default value => some value
  | _ => none

def target? : ColumnClause → Option Reference
  | references target => some target
  | _ => none

def conditions : ColumnClause → List Condition
  | check conditions _ => conditions
  | _ => []

/-- The connectives of a check behind those conditions, the first of which joins it to them. -/
def connectives (before : List Condition) : ColumnClause → List Connective
  | check _ connectives => if before = [] then connectives else .and :: connectives
  | _ => []

/-- The column `c'` is `c` with the clause: it lists one constraint more, has the flag of
that constraint, and what the clause says comes behind or in place of what was said before. -/
structure Adds (clause : ColumnClause) (c c' : Column) : Prop where
  name : c'.name = c.name
  dataType : c'.dataType = c.dataType
  length : c'.length = c.length
  constraints : c'.constraints = c.constraints ++ [clause.constraint]
  notNull : c'.notNull = (c.notNull || clause.constraint == .notNull)
  unique : c'.unique = (c.unique || clause.constraint == .unique)
  primaryKey : c'.primaryKey = (c.primaryKey || clause.constraint == .primaryKey)
  foreignKey : c'.foreignKey = (c.foreignKey || clause.constraint == .foreignKey)
  references : c'.references = clause.target?.or c.references
  default : c'.default = clause.value?.or c.default
  checks : c'.checks = c.checks ++ clause.conditions
  checkConnectives : c'.checkConnectives = c.checkConnectives ++ clause.connectives c.checks

theorem adds_apply (clause : ColumnClause) (c : Column) : clause.Adds c (clause.apply c) := by
  cases clause with
  | check conditions connectives =>
      constructor
      case checkConnectives =>
        cases hchecks : c.checks <;>
          simp [apply, Draft.addConstraint, ColumnClause.connectives, hchecks]
      all_goals
        simp [apply, Draft.addConstraint, constraint, target?, value?, ColumnClause.conditions]
  | _ =>
      constructor <;>
        simp [apply, Draft.addConstraint, constraint, target?, value?, ColumnClause.conditions,
          ColumnClause.connectives]

theorem Adds.eq {clause : ColumnClause} {c c₁ c₂ : Column} (h₁ : clause.Adds c c₁)
    (h₂ : clause.Adds c c₂) : c₁ = c₂ := by
  cases c₁
  cases c₂
  rw [Column.mk.injEq]
  exact ⟨h₁.name.trans h₂.name.symm, h₁.dataType.trans h₂.dataType.symm,
    h₁.length.trans h₂.length.symm, h₁.notNull.trans h₂.notNull.symm,
    h₁.unique.trans h₂.unique.symm, h₁.primaryKey.trans h₂.primaryKey.symm,
    h₁.foreignKey.trans h₂.foreignKey.symm, h₁.references.trans h₂.references.symm,
    h₁.default.trans h₂.default.symm, h₁.constraints.trans h₂.constraints.symm,
    h₁.checks.trans h₂.checks.symm, h₁.checkConnectives.trans h₂.checkConnectives.symm⟩

/-- The equations of `Adds` leave one column, and the clause makes that one. -/
theorem adds_iff {clause : ColumnClause} {c c' : Column} :
    clause.Adds c c' ↔ c' = clause.apply c := by
  constructor
  · exact fun h => h.eq (clause.adds_apply c)
  · rintro rfl
    exact clause.adds_apply c

structure Checkable (conditions : List Condition) (connectives : List Connective) : Prop where
  ne_nil : conditions ≠ []
  chain : ChainExpressible conditions connectives
  noRange : ∀ c ∈ conditions, ∀ p ∈ c.predicate, p.NoRange

def Expressible : ColumnClause → Prop
  | default value => QuotableValue value
  | references target => PlainName target.table ∧ PlainName target.column
  | check conditions connectives => Checkable conditions connectives
  | _ => True

end ColumnClause

open ColumnClause

/-! ## Cutting a chain of conditions -/

/-- The connectives of several chains that are joined by `AND`. -/
def conjoined : List (List Condition × List Connective) → List Connective
  | [] => []
  | [chain] => chain.2
  | chain :: chains => chain.2 ++ .and :: conjoined chains

theorem conjoined_append {chains : List (List Condition × List Connective)}
    (chain : List Condition × List Connective) (h : chains ≠ []) :
    conjoined (chains ++ [chain]) = conjoined chains ++ .and :: chain.2 := by
  induction chains with
  | nil => exact absurd rfl h
  | cons first chains ih =>
      cases chains with
      | nil => rfl
      | cons second chains =>
          have hrest := ih (by simp)
          simp only [List.cons_append, conjoined] at hrest ⊢
          rw [hrest, List.append_assoc, List.cons_append]

/-- A chain with enough `AND`s can be cut into a given number of chains. -/
theorem exists_chains {n : Nat} {cs : List Condition} {ls : List Connective}
    (h : Checkable cs ls) (hcount : n ≤ ls.count .and) :
    ∃ chains : List (List Condition × List Connective), chains.length = n + 1 ∧
      (∀ chain ∈ chains, Checkable chain.1 chain.2) ∧ chains.flatMap (·.1) = cs ∧
        conjoined chains = ls := by
  induction n generalizing cs ls with
  | zero => exact ⟨[(cs, ls)], rfl, by simpa using h, by simp, rfl⟩
  | succ n ih =>
      -- the first chain reaches up to the first `AND`
      have hmem : Connective.and ∈ ls := List.count_pos_iff.mp (by omega)
      obtain ⟨first, rest, rfl, hfirst⟩ := List.eq_append_cons_of_mem hmem
      have hlength : first.length + 1 + rest.length + 1 = cs.length := by
        have hchain := h.chain.count
        have hpos := List.length_pos_iff.mpr h.ne_nil
        simp only [List.length_append, List.length_cons] at hchain
        omega
      have hleft : Checkable (cs.take (first.length + 1)) first := by
        refine ⟨?_, ⟨?_, ?_⟩, ?_⟩
        · exact List.ne_nil_of_length_pos (by rw [List.length_take]; omega)
        · exact fun c hc => h.chain.conditions c (List.mem_of_mem_take hc)
        · rw [List.length_take]
          omega
        · exact fun c hc => h.noRange c (List.mem_of_mem_take hc)
      have hright : Checkable (cs.drop (first.length + 1)) rest := by
        refine ⟨?_, ⟨?_, ?_⟩, ?_⟩
        · exact List.ne_nil_of_length_pos (by rw [List.length_drop]; omega)
        · exact fun c hc => h.chain.conditions c (List.mem_of_mem_drop hc)
        · rw [List.length_drop]
          omega
        · exact fun c hc => h.noRange c (List.mem_of_mem_drop hc)
      have hrest : n ≤ rest.count .and := by
        rw [List.count_append, List.count_cons_self, List.count_eq_zero_of_not_mem hfirst] at hcount
        omega
      obtain ⟨chains, hchains, hall, hcs, hls⟩ := ih hright hrest
      obtain ⟨chain, chains, rfl⟩ := List.exists_cons_of_length_eq_add_one hchains
      refine ⟨(cs.take (first.length + 1), first) :: chain :: chains, ?_, ?_, ?_, ?_⟩
      · simpa using hchains
      · exact List.forall_mem_cons.mpr ⟨hleft, hall⟩
      · rw [List.flatMap_cons, hcs, List.take_append_drop]
      · rw [conjoined, hls]
        exact List.cons_ne_nil _ _

/-! ## The clauses of an expressible column -/

namespace Column

variable {c : Column}

/-- The column after some of its constraints and some of its checks. -/
def upTo (c : Column) (constraints : List Constraint)
    (chains : List (List Condition × List Connective)) : Column :=
  { c with
    notNull := decide (.notNull ∈ constraints)
    unique := decide (.unique ∈ constraints)
    primaryKey := decide (.primaryKey ∈ constraints)
    foreignKey := decide (.foreignKey ∈ constraints)
    references := if .foreignKey ∈ constraints then c.references else none
    default := if .default ∈ constraints then c.default else none
    constraints
    checks := chains.flatMap (·.1)
    checkConnectives := conjoined chains }

theorem upTo_nil (c : Column) :
    c.upTo [] [] = { name := c.name, dataType := c.dataType, length := c.length } := rfl

theorem Expressible.upTo_self (h : c.Expressible)
    {chains : List (List Condition × List Connective)} (hchecks : chains.flatMap (·.1) = c.checks)
    (hconnectives : conjoined chains = c.checkConnectives) : c.upTo c.constraints chains = c := by
  have hnotNull := h.listed .notNull
  have hunique := h.listed .unique
  have hprimaryKey := h.listed .primaryKey
  have hforeignKey := h.listed .foreignKey
  have hdefault := h.listed .default
  have hkeyed := h.keyed
  obtain ⟨name, dataType, length, notNull, unique, primaryKey, foreignKey, references, default,
    constraints, checks, checkConnectives⟩ := c
  simp only [Bears] at *
  simp only [upTo, hnotNull, hunique, hprimaryKey, hforeignKey, hdefault, hchecks, hconnectives,
    Bool.decide_eq_true]
  cases references <;> cases default <;> simp_all

/-- The next constraint has a clause. -/
theorem Expressible.exists_clause (h : c.Expressible) {k : Constraint} (hk : k ∈ c.constraints)
    (hcheck : k ≠ .check) (before : List Constraint)
    (chains : List (List Condition × List Connective)) :
    ∃ clause : ColumnClause, clause.Expressible ∧
      clause.apply (c.upTo before chains) = c.upTo (before ++ [k]) chains := by
  have hbears := (h.listed k).mp hk
  cases k with
  | notNull => exact ⟨.notNull, trivial, by simp [ColumnClause.apply, upTo, Draft.addConstraint]⟩
  | unique => exact ⟨.unique, trivial, by simp [ColumnClause.apply, upTo, Draft.addConstraint]⟩
  | primaryKey =>
      exact ⟨.primaryKey, trivial, by simp [ColumnClause.apply, upTo, Draft.addConstraint]⟩
  | check => exact absurd rfl hcheck
  | foreignKey =>
      have hsome : c.references.isSome = true := h.keyed.symm.trans hbears
      obtain ⟨target, htarget⟩ := Option.isSome_iff_exists.mp hsome
      refine ⟨.references target, h.target target htarget, ?_⟩
      simp [ColumnClause.apply, upTo, Draft.addConstraint, htarget]
  | default =>
      obtain ⟨value, hvalue⟩ := Option.isSome_iff_exists.mp hbears
      refine ⟨.default value, h.default value hvalue, ?_⟩
      simp [ColumnClause.apply, upTo, Draft.addConstraint, hvalue]

theorem upTo_check (c : Column) (before : List Constraint)
    (chains : List (List Condition × List Connective)) (chain : List Condition × List Connective)
    (hchains : ∀ chain ∈ chains, Checkable chain.1 chain.2) :
    (ColumnClause.check chain.1 chain.2).apply (c.upTo before chains) =
      c.upTo (before ++ [.check]) (chains ++ [chain]) := by
  by_cases hnil : chains = []
  · subst hnil
    simp [ColumnClause.apply, upTo, Draft.addConstraint, conjoined]
  · have hempty : (chains.flatMap (·.1)).isEmpty = false := by
      obtain ⟨first, rest, rfl⟩ := List.exists_cons_of_ne_nil hnil
      simp [(hchains first (by simp)).ne_nil]
    have hjoined := conjoined_append chain hnil
    simp [ColumnClause.apply, upTo, Draft.addConstraint, hempty, hjoined]

theorem Expressible.exists_clauses_from (h : c.Expressible)
    {before after : List Constraint} (hconstraints : c.constraints = before ++ after)
    {done chains : List (List Condition × List Connective)}
    (hchains : ∀ chain ∈ done ++ chains, Checkable chain.1 chain.2)
    (hcount : after.count .check = chains.length) :
    ∃ clauses : List ColumnClause, (∀ clause ∈ clauses, clause.Expressible) ∧
      clauses.foldl ColumnClause.apply (c.upTo before done) =
        c.upTo c.constraints (done ++ chains) := by
  induction after generalizing before done chains with
  | nil =>
      obtain rfl : chains = [] := List.length_eq_zero_iff.mp hcount.symm
      exact ⟨[], by simp, by simp [hconstraints]⟩
  | cons k after ih =>
      have hafter : c.constraints = (before ++ [k]) ++ after := by simp [hconstraints]
      by_cases hcheck : k = .check
      · subst hcheck
        rw [List.count_cons_self] at hcount
        obtain ⟨chain, chains, rfl⟩ := List.exists_cons_of_length_eq_add_one hcount.symm
        have hall : ∀ chain' ∈ (done ++ [chain]) ++ chains, Checkable chain'.1 chain'.2 := by
          simpa using hchains
        obtain ⟨clauses, hclauses, hfold⟩ := ih hafter hall (by simpa using hcount)
        refine ⟨.check chain.1 chain.2 :: clauses, ?_, ?_⟩
        · exact List.forall_mem_cons.mpr ⟨hchains chain (by simp), hclauses⟩
        · rw [List.foldl_cons, upTo_check, hfold, List.append_assoc, List.singleton_append]
          exact fun chain' hchain' => hchains chain' (by simp [hchain'])
      · rw [List.count_cons_of_ne hcheck] at hcount
        obtain ⟨clause, hclause, happly⟩ :=
          h.exists_clause (k := k) (by simp [hconstraints]) hcheck before done
        obtain ⟨clauses, hclauses, hfold⟩ := ih hafter hchains hcount
        refine ⟨clause :: clauses, List.forall_mem_cons.mpr ⟨hclause, hclauses⟩, ?_⟩
        rw [List.foldl_cons, happly, hfold]

/-- An expressible column is what its clauses make of its name and type. -/
theorem Expressible.exists_clauses (h : c.Expressible) :
    ∃ clauses : List ColumnClause, (∀ clause ∈ clauses, clause.Expressible) ∧
      clauses.foldl ColumnClause.apply
        { name := c.name, dataType := c.dataType, length := c.length } = c := by
  have hchains : ∃ chains : List (List Condition × List Connective),
      chains.length = c.constraints.count .check ∧
        (∀ chain ∈ chains, Checkable chain.1 chain.2) ∧ chains.flatMap (·.1) = c.checks ∧
          conjoined chains = c.checkConnectives := by
    by_cases hchecks : c.checks = []
    · have hnone : .check ∉ c.constraints := fun hmem => (h.listed .check).mp hmem hchecks
      have hconnectives : c.checkConnectives = [] :=
        List.length_eq_zero_iff.mp (by simpa [hchecks] using h.chain.count)
      refine ⟨[], ?_, by simp, by simp [hchecks], by rw [hconnectives]; rfl⟩
      rw [List.count_eq_zero_of_not_mem hnone, List.length_nil]
    · have hpos : 0 < c.constraints.count .check :=
        List.count_pos_iff.mpr ((h.listed .check).mpr hchecks)
      have hcheckable : Checkable c.checks c.checkConnectives := ⟨hchecks, h.chain, h.checkable⟩
      have hjoined := h.joined
      obtain ⟨chains, hlength, hchains⟩ := exists_chains hcheckable
        (show c.constraints.count .check - 1 ≤ c.checkConnectives.count .and by omega)
      exact ⟨chains, by omega, hchains⟩
  obtain ⟨chains, hlength, hall, hchecks, hconnectives⟩ := hchains
  obtain ⟨clauses, hclauses, hfold⟩ :
      ∃ clauses : List ColumnClause, (∀ clause ∈ clauses, clause.Expressible) ∧
        clauses.foldl ColumnClause.apply (c.upTo [] []) = c.upTo c.constraints ([] ++ chains) :=
    h.exists_clauses_from rfl hall hlength.symm
  refine ⟨clauses, hclauses, ?_⟩
  rwa [upTo_nil, List.nil_append, h.upTo_self hchecks hconnectives] at hfold

end Column

end SqlReader
