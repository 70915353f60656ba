import SqlReader.Proofs.Definition.Placement

/-!
# The value of repeated checks

Each check of a column is a chain of conditions, evaluated from left to right.
The column has one chain for all of them, in which each check is joined to the
checks before it by `AND`.  Its value goes through the checks one after the other
and takes the value so far into the first condition of the next.  That is the
conjunction of the checks as long as none but the first has an `OR`.
-/

namespace SqlReader

/-! ## Values of chains -/

def Connective.join : Connective → Bool → Bool → Bool
  | and, a, b => a && b
  | or, a, b => a || b

def extend (value : Bool) (links : List (Connective × Bool)) : Bool :=
  links.foldl (fun value link => link.1.join value link.2) value

/-- Evaluates a chain strictly from left to right, with `value` joined to its
first condition by `AND`. -/
def resume (value : Bool) : List Bool → List Connective → Bool
  | [], _ => value
  | truth :: truths, connectives => extend (value && truth) (connectives.zip truths)

/-- Evaluates a chain strictly from left to right. -/
def evaluate (truths : List Bool) (connectives : List Connective) : Bool :=
  resume true truths connectives

@[simp] theorem extend_nil (value : Bool) : extend value [] = value := rfl

@[simp] theorem extend_cons (value : Bool) (link : Connective × Bool)
    (links : List (Connective × Bool)) :
    extend value (link :: links) = extend (link.1.join value link.2) links := rfl

theorem extend_append (value : Bool) (links links' : List (Connective × Bool)) :
    extend value (links ++ links') = extend (extend value links) links' :=
  List.foldl_append

/-- Where all connectives are `AND`, a conjunction can be taken out. -/
theorem extend_and {links : List (Connective × Bool)} (h : .or ∉ links.map (·.1)) (a b : Bool) :
    extend (a && b) links = (a && extend b links) := by
  induction links generalizing b with
  | nil => rfl
  | cons link links ih =>
      simp only [List.map_cons, List.mem_cons, not_or] at h
      obtain ⟨connective, truth⟩ := link
      cases connective with
      | or => exact absurd rfl h.1
      | and => simpa [Connective.join, Bool.and_assoc] using ih h.2 (b && truth)

theorem extend_same (value : Bool) (connectives : List Connective) :
    extend value (connectives.map (·, value)) = value := by
  induction connectives with
  | nil => rfl
  | cons connective connectives ih => cases connective <;> simpa [Connective.join] using ih

theorem extend_true {connectives : List Connective} (h : .or ∈ connectives) (value : Bool) :
    extend value (connectives.map (·, true)) = true := by
  induction connectives generalizing value with
  | nil => simp at h
  | cons connective connectives ih =>
      cases connective with
      | or => simpa [Connective.join] using extend_same true connectives
      | and => simpa [Connective.join] using ih (by simpa using h) value

/-- A chain that is continued behind an `AND`. -/
theorem resume_append {value : Bool} {truths truths' : List Bool}
    {connectives connectives' : List Connective} (h : truths.length = connectives.length + 1)
    (h' : truths' ≠ []) :
    resume value (truths ++ truths') (connectives ++ .and :: connectives') =
      resume (resume value truths connectives) truths' connectives' := by
  obtain ⟨truth, truths, rfl⟩ := List.exists_cons_of_length_eq_add_one h
  obtain ⟨truth', truths', rfl⟩ := List.exists_cons_of_ne_nil h'
  have hlength : connectives.length = truths.length := by simpa using h.symm
  rw [List.cons_append, resume, List.zip_append hlength, extend_append]
  rfl

/-- A chain without `OR` is joined as a whole. -/
theorem resume_and {connectives : List Connective} (h : .or ∉ connectives) (value : Bool)
    (truths : List Bool) :
    resume value truths connectives = (value && evaluate truths connectives) := by
  cases truths with
  | nil => simp [evaluate, resume]
  | cons truth truths =>
      rw [evaluate, resume, resume, Bool.true_and]
      apply extend_and
      intro hor
      obtain ⟨link, hlink, hconnective⟩ := List.mem_map.mp hor
      exact h (hconnective ▸ (List.of_mem_zip hlink).1)

/-- A chain with one truth value for all its conditions. -/
theorem resume_replicate (value truth : Bool) (connectives : List Connective) :
    resume value (List.replicate (connectives.length + 1) truth) connectives =
      extend (value && truth) (connectives.map (·, truth)) := by
  have hzip : connectives.zip (List.replicate connectives.length truth) =
      connectives.map (·, truth) := by
    induction connectives with
    | nil => rfl
    | cons connective connectives ih => simpa [List.replicate_succ] using ih
  rw [List.replicate_succ, resume, hzip]

namespace Definition

/-! ## Checks with truth values -/

structure Judged where
  chain : Chain
  truths : List Bool
  fits : truths.length = chain.conditions.length

namespace Judged

def value (j : Judged) : Bool := evaluate j.truths j.chain.connectives

/-- The value behind the check, if its first condition is joined to the value
before it by `AND`. -/
def follow (value : Bool) (j : Judged) : Bool := resume value j.truths j.chain.connectives

def constant (truth : Bool) (chain : Chain) : Judged where
  chain
  truths := List.replicate (chain.connectives.length + 1) truth
  fits := by simp [Chain.conditions, Chain.connectives]

theorem fits' (j : Judged) : j.truths.length = j.chain.connectives.length + 1 := by
  rw [j.fits]
  simp [Chain.conditions, Chain.connectives]

theorem truths_ne_nil (j : Judged) : j.truths ≠ [] :=
  List.ne_nil_of_length_pos (by rw [j.fits']; omega)

theorem follow_constant_false (value : Bool) (chain : Chain) :
    follow value (constant false chain) = false := by
  rw [follow, constant, resume_replicate, Bool.and_false, extend_same]

theorem follow_constant_true (chain : Chain) : follow true (constant true chain) = true := by
  rw [follow, constant, resume_replicate, Bool.and_true, extend_same]

theorem follow_constant_of_or {chain : Chain} (h : .or ∈ chain.connectives) (value : Bool) :
    follow value (constant true chain) = true := by
  rw [follow, constant, resume_replicate, extend_true h]

theorem foldl_follow_constant (value : Bool) (chains : List Chain) :
    (chains.map (constant value)).foldl follow value = value := by
  induction chains with
  | nil => rfl
  | cons chain chains ih =>
      cases value with
      | true => rwa [List.map_cons, List.foldl_cons, follow_constant_true]
      | false => rwa [List.map_cons, List.foldl_cons, follow_constant_false]

end Judged

/-- The connectives of the one chain that joins several checks. -/
def joints (chains : List Chain) : List Connective :=
  conjoined (chains.map fun chain => (chain.conditions, chain.connectives))

theorem joints_concat {chains : List Chain} (chain : Chain) (h : chains ≠ []) :
    joints (chains ++ [chain]) = joints chains ++ .and :: chain.connectives := by
  rw [joints, List.map_append]
  exact conjoined_append (chain.conditions, chain.connectives) (by simpa using h)

/-- The one chain of several checks goes through them one after the other. -/
theorem resume_joints (js : List Judged) (value : Bool) :
    resume value (js.flatMap (·.truths)) (joints (js.map (·.chain))) =
      js.foldl Judged.follow value := by
  induction js generalizing value with
  | nil => rfl
  | cons j js ih =>
      cases js with
      | nil => simp [joints, conjoined, Judged.follow]
      | cons j' js =>
          rw [List.foldl_cons, ← ih, List.flatMap_cons]
          exact resume_append j.fits' (by simp [j'.truths_ne_nil])

theorem foldl_follow_of_and {js : List Judged} (h : ∀ j ∈ js, .or ∉ j.chain.connectives)
    (value : Bool) : js.foldl Judged.follow value = (value && js.all (·.value)) := by
  induction js generalizing value with
  | nil => simp
  | cons j js ih =>
      have hj : Judged.follow value j = (value && j.value) := resume_and (h j (by simp)) _ _
      rw [List.foldl_cons, hj, ih fun j hj => h j (by simp [hj]), List.all_cons, Bool.and_assoc]

/-- One chain for several checks is their conjunction, if none but the first has
an `OR`, and else for some truth values it is not. -/
theorem foldl_follow_eq_all_iff (chains : List Chain) :
    (∀ js : List Judged, js.map (·.chain) = chains →
      js.foldl Judged.follow true = js.all (·.value)) ↔
      ∀ chain ∈ chains.tail, .or ∉ chain.connectives := by
  constructor
  · intro h chain hchain hor
    obtain ⟨first, rest, rfl⟩ := List.exists_cons_of_ne_nil
      (List.ne_nil_of_mem (List.mem_of_mem_tail hchain))
    obtain ⟨between, after, rfl⟩ := List.append_of_mem hchain
    -- everything before the check with the `OR` is false, and the rest is true
    let js := (first :: between).map (Judged.constant false) ++
      (chain :: after).map (Judged.constant true)
    have hchains : js.map (·.chain) = first :: (between ++ chain :: after) := by
      simp [js, Function.comp_def, Judged.constant]
    have hfold : js.foldl Judged.follow true = true := by
      simp only [js, List.foldl_append, List.map_cons, List.foldl_cons,
        Judged.follow_constant_false, Judged.follow_constant_of_or hor,
        Judged.foldl_follow_constant]
    have hfirst : (Judged.constant false first).value = false :=
      Judged.follow_constant_false true first
    have hall : js.all (·.value) = false := by simp [js, hfirst]
    simp [h js hchains, hall] at hfold
  · rintro h js rfl
    cases js with
    | nil => rfl
    | cons j js =>
        rw [List.foldl_cons, foldl_follow_of_and fun j' hj' => h _ (List.mem_map_of_mem hj')]
        rfl

/-! ## The checks of a column -/

def InlineClause.chain? : InlineClause → Option Chain
  | check chain => some chain
  | _ => none

def Element.attach (checks : List (String × List Chain)) : Element → List (String × List Chain)
  | field f => checks ++ [(f.name.text, f.clauses.filterMap InlineClause.chain?)]
  | clause (.check chain) =>
    match lastIdx? (·.1 == chain.first.column.text) checks with
    | some i => checks.modify i fun entry => (entry.1, entry.2 ++ [chain])
    | none => checks
  | clause _ => checks

/-- The columns that the definition names, each with the checks that are written
inside it or, by themselves, belong to it. -/
def checks (D : Definition) : List (String × List Chain) := D.elements.foldl Element.attach []

theorem conditions_ne_nil {chains : List Chain} (h : chains ≠ []) :
    chains.flatMap Chain.conditions ≠ [] := by
  obtain ⟨chain, chains, rfl⟩ := List.exists_cons_of_ne_nil h
  simp [Chain.conditions]

/-- A column has the conditions of these checks. -/
structure Carries (c : Column) (entry : String × List Chain) : Prop where
  name : c.name = entry.1
  conditions : c.checks = entry.2.flatMap Chain.conditions
  connectives : c.checkConnectives = joints entry.2

namespace Carries

variable {c : Column} {entry : String × List Chain} {chain : Chain}

/-- A clause that is no check leaves the checks alone. -/
theorem of_no_check {clause : ColumnClause} (h : Carries c entry)
    (hclause : ∀ conditions connectives, clause ≠ .check conditions connectives) :
    Carries (clause.apply c) entry := by
  cases clause with
  | check conditions connectives => exact absurd rfl (hclause conditions connectives)
  | _ => exact ⟨h.name, h.conditions, h.connectives⟩

theorem check (h : Carries c entry) (chain : Chain) :
    Carries (chain.clause.apply c) (entry.1, entry.2 ++ [chain]) := by
  refine ⟨(apply_name c chain.clause).trans h.name, ?_, ?_⟩
  · show c.checks ++ chain.conditions = _
    simp [h.conditions]
  · show (if c.checks.isEmpty then c.checkConnectives else c.checkConnectives ++ [.and]) ++
      chain.connectives = joints (entry.2 ++ [chain])
    rw [h.conditions, h.connectives]
    by_cases hnil : entry.2 = []
    · simp [hnil, joints, conjoined]
    · rw [joints_concat chain hnil, if_neg (by simpa using conditions_ne_nil hnil)]
      simp

theorem inline (h : Carries c entry) (clause : InlineClause) :
    Carries (clause.clause.apply c) (entry.1, entry.2 ++ clause.chain?.toList) := by
  cases clause with
  | check chain => exact h.check chain
  | _ => simpa [InlineClause.chain?] using h.of_no_check (by simp [InlineClause.clause])

theorem inlines (h : Carries c entry) (clauses : List InlineClause) :
    Carries ((clauses.map (·.clause)).foldl ColumnClause.apply c)
      (entry.1, entry.2 ++ clauses.filterMap InlineClause.chain?) := by
  induction clauses generalizing c entry with
  | nil => simpa using h
  | cons clause clauses ih =>
      have hall := ih (h.inline clause)
      cases hchain : clause.chain? <;> simpa [hchain] using hall

end Carries

theorem Field.carries (f : Field) :
    Carries f.column (f.name.text, f.clauses.filterMap InlineClause.chain?) := by
  have hbare : Carries f.bare (f.name.text, []) := ⟨rfl, rfl, rfl⟩
  exact hbare.inlines f.clauses

theorem forall₂_modify {α β : Type} {R : α → β → Prop} {as : List α} {bs : List β} {f : α → α}
    {g : β → β} (h : List.Forall₂ R as bs) (hR : ∀ a b, R a b → R (f a) (g b)) (i : Nat) :
    List.Forall₂ R (as.modify i f) (bs.modify i g) := by
  induction h generalizing i with
  | nil => simp
  | cons hab _ ih =>
      cases i with
      | zero => simp_all
      | succ i => simpa [hab] using ih i

section Attach

variable {columns columns' : List Column} {entries : List (String × List Chain)}

theorem lastIdx?_of_carries (h : List.Forall₂ Carries columns entries) (name : String) :
    lastIdx? (·.1 == name) entries = lastIdx? (·.name == name) columns := by
  have hnames : columns.map (·.name) = entries.map (·.1) := by
    induction h with
    | nil => rfl
    | cons hc _ ih => rw [List.map_cons, List.map_cons, hc.name, ih]
  have hlast := lastIdx?_map (· == name) (·.name) columns
  rw [hnames, lastIdx?_map] at hlast
  exact hlast

/-- A clause by itself that is no check leaves the checks alone. -/
theorem carries_mark {m : String × ColumnClause} (h : List.Forall₂ Carries columns entries)
    (hm : ∀ conditions connectives, m.2 ≠ .check conditions connectives)
    (hmark : mark columns m = some columns') : List.Forall₂ Carries columns' entries := by
  obtain ⟨i, -, rfl⟩ := Option.map_eq_some_iff.mp hmark
  have hall := forall₂_modify (f := (m.2.apply ·)) (g := id) h
    (fun c entry hc => hc.of_no_check hm) i
  rwa [List.modify_id] at hall

theorem carries_marks {marks : List (String × ColumnClause)}
    (h : List.Forall₂ Carries columns entries)
    (hmarks : ∀ m ∈ marks, ∀ conditions connectives, m.2 ≠ .check conditions connectives)
    (hfold : marks.foldlM mark columns = some columns') :
    List.Forall₂ Carries columns' entries := by
  induction marks generalizing columns with
  | nil =>
      obtain rfl := Option.some.inj hfold
      exact h
  | cons m marks ih =>
      rw [List.foldlM_cons] at hfold
      obtain ⟨columns₁, hmark, hrest⟩ := Option.bind_eq_some_iff.mp hfold
      exact ih (carries_mark h (hmarks m (by simp)) hmark)
        (fun m' hm' => hmarks m' (by simp [hm'])) hrest

theorem carries_build {e : Element} (h : List.Forall₂ Carries columns entries)
    (hbuild : e.build columns = some columns') :
    List.Forall₂ Carries columns' (e.attach entries) := by
  cases e with
  | field f =>
      obtain rfl := Option.some.inj hbuild
      exact List.rel_append h (.cons f.carries .nil)
  | clause clause =>
      cases clause with
      | primaryKey first others => exact carries_marks h (by simp [TableClause.marks]) hbuild
      | foreignKey column table target => exact carries_marks h (by simp [TableClause.marks]) hbuild
      | check chain =>
          have hmark : mark columns (chain.first.column.text, chain.clause) = some columns' := by
            simpa [Element.build, TableClause.marks] using hbuild
          obtain ⟨i, hi, rfl⟩ := Option.map_eq_some_iff.mp hmark
          rw [Element.attach, lastIdx?_of_carries h, hi]
          exact forall₂_modify h (fun c entry hc => hc.check chain) i

theorem carries_checks {D : Definition} (h : D.columns? = some columns) :
    List.Forall₂ Carries columns D.checks := by
  have hfold : ∀ (es : List Element) {before : List Column} {entries : List (String × List Chain)},
      List.Forall₂ Carries before entries → es.foldlM Element.build before = some columns →
        List.Forall₂ Carries columns (es.foldl Element.attach entries) := by
    intro es
    induction es with
    | nil =>
        rintro before entries hcarries ⟨⟩
        exact hcarries
    | cons e es ih =>
        intro before entries hcarries hall
        rw [List.foldlM_cons] at hall
        obtain ⟨next, hnext, hrest⟩ := Option.bind_eq_some_iff.mp hall
        exact ih (carries_build hcarries hnext) hrest
  exact hfold D.elements .nil h

end Attach

end Definition

section Checks

open Definition

/-- The checks of a column, evaluated as one chain, go through its checks in the
order of the text, whether they are written inside the column or by themselves:
the value so far is joined by `AND` to the first condition of the next check, and
the connectives of that check apply to the result from left to right.  So the
chain is the conjunction of the checks if none but the first has an `OR`, and
otherwise some truth values of the conditions tell them apart. -/
theorem check_value {settings : Settings} {x : String} {s : Statement}
    (hs : parseOne settings x = .ok s) (hkind : s.kind = .createTable) :
    (∃ D : Definition, D.WrittenIn settings x) ∧
      ∀ D : Definition, D.WrittenIn settings x →
        D.checks.length = s.columns.length ∧
        ∀ c name chains, (c, name, chains) ∈ s.columns.zip D.checks →
          c.name = name ∧ c.checks = chains.flatMap Chain.conditions ∧
          (∀ js : List Judged, js.map (·.chain) = chains →
            evaluate (js.flatMap (·.truths)) c.checkConnectives =
              js.foldl Judged.follow true) ∧
          ((∀ js : List Judged, js.map (·.chain) = chains →
            evaluate (js.flatMap (·.truths)) c.checkConnectives = js.all (·.value)) ↔
              ∀ chain ∈ chains.tail, .or ∉ chain.connectives) := by
  refine ⟨exists_writtenIn hs hkind, ?_⟩
  intro D hD
  obtain ⟨columns, hcolumns, rfl⟩ := hD.exists_columns hs
  have hall : List.Forall₂ Carries columns D.checks := carries_checks hcolumns
  refine ⟨hall.length_eq.symm, ?_⟩
  intro c name chains hmem
  have hc : Carries c (name, chains) := List.forall₂_iff_zip.mp hall |>.2 hmem
  have hvalue : ∀ js : List Judged, js.map (·.chain) = chains →
      evaluate (js.flatMap (·.truths)) c.checkConnectives = js.foldl Judged.follow true := by
    rintro js rfl
    rw [hc.connectives]
    exact resume_joints js true
  refine ⟨hc.name, hc.conditions, hvalue, ?_⟩
  rw [← foldl_follow_eq_all_iff]
  exact forall₂_congr fun js hjs => by rw [hvalue js hjs]

/-- A check inside its column and one by itself, behind all elements. -/
theorem check_value_spread :
    ∃ (s : Statement) (c : Column) (first second : Chain),
      parseOne {} "create table t (a int check (a > 0), b int, check (a < 10 and b = 'x'))" =
        .ok s ∧ s.kind = .createTable ∧ s.columns[0]? = some c ∧
      ∀ js : List Judged, js.map (·.chain) = [first, second] →
        evaluate (js.flatMap (·.truths)) c.checkConnectives = js.all (·.value) := by
  let a : Name := ⟨"a", by decide⟩
  let b : Name := ⟨"b", by decide⟩
  let positive : Chain := ⟨⟨a, .compare .gt rfl ⟨.word "0", "0", by decide⟩⟩, []⟩
  let bounded : Chain :=
    ⟨⟨a, .compare .lt rfl ⟨.word "10", "10", by decide⟩⟩,
      [(.and, ⟨b, .compare .eq rfl ⟨.literal "x", "x", by decide⟩⟩)]⟩
  let D : Definition := ⟨⟨"t", by decide⟩,
    [.field ⟨a, "int", by decide, none, [.check positive]⟩, .field ⟨b, "int", by decide, none, []⟩,
      .clause (.check bounded)], rfl⟩
  let c : Column :=
    bounded.clause.apply (positive.clause.apply { name := "a", dataType := .ofName "int" })
  have hs : parseOne {} "create table t (a int check (a > 0), b int, check (a < 10 and b = 'x'))" =
      .ok (Draft.withColumns "t" [c, { name := "b", dataType := .ofName "int" }]) := by
    decide +kernel
  obtain ⟨-, -, -, hconjunction⟩ := ((check_value hs rfl).2 D (by decide +kernel)).2 c "a"
    [positive, bounded] List.mem_cons_self
  exact ⟨_, c, positive, bounded, hs, rfl, rfl, hconjunction.mpr (by decide)⟩

/-- A second check with an `OR`, which alone makes the chain true. -/
theorem check_value_or :
    ∃ (D : Definition) (c : Column) (js : List Judged),
      parseOne {} "CREATE TABLE t (a INT CHECK (a > 0) CHECK (a < 10 OR a = 99))" =
        .ok (Draft.withColumns "t" [c]) ∧
      D.WrittenIn {} "CREATE TABLE t (a INT CHECK (a > 0) CHECK (a < 10 OR a = 99))" ∧
      D.checks = [("a", js.map (·.chain))] ∧
      evaluate (js.flatMap (·.truths)) c.checkConnectives = true ∧
      js.all (·.value) = false := by
  let a : Name := ⟨"a", by decide⟩
  let positive : Chain := ⟨⟨a, .compare .gt rfl ⟨.word "0", "0", by decide⟩⟩, []⟩
  let bounded : Chain :=
    ⟨⟨a, .compare .lt rfl ⟨.word "10", "10", by decide⟩⟩,
      [(.or, ⟨a, .compare .eq rfl ⟨.word "99", "99", by decide⟩⟩)]⟩
  let f : Field := ⟨a, "INT", by decide, none, [.check positive, .check bounded]⟩
  refine ⟨⟨⟨"t", by decide⟩, [.field f], rfl⟩, f.column,
    [⟨positive, [false], rfl⟩, ⟨bounded, [false, true], rfl⟩], ?_, ?_, rfl, rfl, rfl⟩
  · decide +kernel
  · decide +kernel

end Checks

end SqlReader
