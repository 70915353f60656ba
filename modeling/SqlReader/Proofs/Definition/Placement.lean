import SqlReader.Proofs.Definition.Parsing

/-!
# Where a constraint stands

A primary key, a foreign key and a check can stand inside the column that they
belong to or by themselves, behind all elements.  Both mean the same, as long as
nothing in between is about a column of that name.
-/

namespace SqlReader

/-! ## The last column of a name -/

section LastIdx

variable {α : Type} {p : α → Bool} {as : List α} {a : α} {i : Nat}

theorem lastIdx?_concat (h : lastIdx? p as = some i) (ha : p a = false) :
    lastIdx? p (as ++ [a]) = some i := by
  obtain ⟨before, b, after, rfl, rfl, hb, hafter⟩ := exists_split_of_lastIdx? h
  rw [List.append_assoc, List.cons_append]
  apply lastIdx?_append_cons hb
  simpa [or_imp, forall_and, ha] using hafter

theorem find?_reverse_of_lastIdx? (h : lastIdx? p as = some i) :
    ∃ a, as[i]? = some a ∧ p a = true ∧ as.reverse.find? p = some a := by
  obtain ⟨before, a, after, rfl, rfl, ha, hafter⟩ := exists_split_of_lastIdx? h
  have hnone : after.reverse.find? p = none := by simpa using hafter
  exact ⟨a, by simp, ha, by simp [List.find?_append, hnone, ha]⟩

theorem lastIdx?_map {β : Type} (p : β → Bool) (f : α → β) (as : List α) :
    lastIdx? p (as.map f) = lastIdx? (p ∘ f) as := by
  rw [lastIdx?, lastIdx?, ← List.map_reverse, List.findIdx?_map, List.length_map]

theorem lastIdx?_name_congr {columns columns' : List Column} (name : String)
    (h : columns'.map (·.name) = columns.map (·.name)) :
    lastIdx? (·.name == name) columns' = lastIdx? (·.name == name) columns := by
  have hlast := lastIdx?_map (· == name) (·.name) columns'
  rw [h, lastIdx?_map] at hlast
  exact hlast.symm

end LastIdx

namespace Definition

theorem apply_name (c : Column) (clause : ColumnClause) : (clause.apply c).name = c.name :=
  (clause.adds_apply c).name

theorem Field.column_name (f : Field) : f.column.name = f.name.text := by
  have hfold : ∀ (clauses : List ColumnClause) (c : Column),
      (clauses.foldl ColumnClause.apply c).name = c.name := by
    intro clauses
    induction clauses with
    | nil => exact fun c => rfl
    | cons clause clauses ih => exact fun c => (ih _).trans (apply_name c clause)
  exact hfold _ _

/-! ## Elements that are not about the column -/

section Elsewhere

variable {columns columns' : List Column} {name : String} {i : Nat} {f : Column → Column}

/-- A clause by itself changes the last column of the name. -/
theorem mark_eq_some (h : lastIdx? (·.name == name) columns = some i) (clause : ColumnClause) :
    mark columns (name, clause) = some (columns.modify i fun c => clause.apply c) := by
  rw [mark, h]
  rfl

/-- A mark keeps the names of all columns. -/
theorem names_of_mark {m : String × ColumnClause} (h : mark columns m = some columns') :
    columns'.map (·.name) = columns.map (·.name) := by
  obtain ⟨k, -, rfl⟩ := Option.map_eq_some_iff.mp h
  exact Draft.names_modify (apply_name · m.2) k

/-- A mark on a column of another name may come before or after a change. -/
theorem mark_modify {m : String × ColumnClause} (hf : ∀ c, (f c).name = c.name)
    (h : lastIdx? (·.name == name) columns = some i) (hm : m.1 ≠ name) :
    mark (columns.modify i f) m = (mark columns m).map (·.modify i f) := by
  rw [mark, mark, lastIdx?_name_congr m.1 (Draft.names_modify hf i)]
  cases hk : lastIdx? (·.name == m.1) columns with
  | none => rfl
  | some k =>
      -- a column has one name, so the two changes are in two places
      have hne : i ≠ k := by
        rintro rfl
        obtain ⟨c, hc, hname, -⟩ := find?_reverse_of_lastIdx? h
        obtain ⟨c', hc', hname', -⟩ := find?_reverse_of_lastIdx? hk
        obtain rfl := Option.some.inj (hc.symm.trans hc')
        exact hm ((beq_iff_eq.mp hname').symm.trans (beq_iff_eq.mp hname))
      simp only [Option.map_some, List.modify_modify_ne _ _ _ hne]

theorem foldlM_mark_modify {marks : List (String × ColumnClause)}
    (hf : ∀ c, (f c).name = c.name) (h : lastIdx? (·.name == name) columns = some i)
    (hmarks : name ∉ marks.map (·.1)) :
    marks.foldlM mark (columns.modify i f) = (marks.foldlM mark columns).map (·.modify i f) ∧
      ∀ columns', marks.foldlM mark columns = some columns' →
        lastIdx? (·.name == name) columns' = some i := by
  induction marks generalizing columns with
  | nil =>
      refine ⟨rfl, ?_⟩
      rintro columns' ⟨⟩
      exact h
  | cons m marks ih =>
      simp only [List.map_cons, List.mem_cons, not_or] at hmarks
      rw [List.foldlM_cons, List.foldlM_cons, mark_modify hf h (Ne.symm hmarks.1)]
      cases hmark : mark columns m with
      | none => exact ⟨rfl, by simp⟩
      | some columns₁ =>
          have h₁ : lastIdx? (·.name == name) columns₁ = some i := by
            rw [lastIdx?_name_congr name (names_of_mark hmark), h]
          exact ih h₁ hmarks.2

/-- An element about other columns does the same whatever the column is like, and
keeps its place. -/
theorem Element.build_modify {e : Element} (hf : ∀ c, (f c).name = c.name)
    (h : lastIdx? (·.name == name) columns = some i) (he : name ∉ e.names) :
    e.build (columns.modify i f) = (e.build columns).map (·.modify i f) ∧
      ∀ columns', e.build columns = some columns' →
        lastIdx? (·.name == name) columns' = some i := by
  cases e with
  | clause c => exact foldlM_mark_modify hf h he
  | field g =>
      have hname : g.column.name ≠ name := by
        rw [Field.column_name]
        exact fun heq => he (by simp [Element.names, heq])
      constructor
      · obtain ⟨before, c, after, rfl, rfl, -⟩ := exists_split_of_lastIdx? h
        simp only [Element.build, Option.map_some, List.append_assoc, List.cons_append,
          modify_append_cons]
      · rintro columns' ⟨⟩
        exact lastIdx?_concat h (by simpa using hname)

theorem foldlM_build_modify {es : List Element} (hf : ∀ c, (f c).name = c.name)
    (h : lastIdx? (·.name == name) columns = some i) (hes : ∀ e ∈ es, name ∉ e.names) :
    es.foldlM Element.build (columns.modify i f) =
        (es.foldlM Element.build columns).map (·.modify i f) ∧
      ∀ columns', es.foldlM Element.build columns = some columns' →
        lastIdx? (·.name == name) columns' = some i := by
  induction es generalizing columns with
  | nil =>
      refine ⟨rfl, ?_⟩
      rintro columns' ⟨⟩
      exact h
  | cons e es ih =>
      obtain ⟨hbuild, hplace⟩ := Element.build_modify hf h (hes e (by simp))
      rw [List.foldlM_cons, List.foldlM_cons, hbuild]
      cases hcolumns : e.build columns with
      | none => exact ⟨rfl, by simp⟩
      | some columns₁ => exact ih (hplace columns₁ hcolumns) fun e he => hes e (by simp [he])

end Elsewhere

/-! ## The two places of a constraint -/

/-- The form of a clause by itself, for the clauses of the column that have one. -/
def InlineClause.tableForm? (column : Name) : InlineClause → Option TableClause
  | primaryKey => some (.primaryKey column [])
  | references table target => some (.foreignKey column table target)
  | check chain => if chain.first.column.text = column.text then some (.check chain) else none
  | _ => none

theorem InlineClause.marks_tableForm {clause : InlineClause} {column : Name} {form : TableClause}
    (h : clause.tableForm? column = some form) : form.marks = [(column.text, clause.clause)] := by
  cases clause with
  | primaryKey =>
      obtain rfl := Option.some.inj h
      rfl
  | references table target =>
      obtain rfl := Option.some.inj h
      rfl
  | check chain =>
      simp only [tableForm?] at h
      split at h
      next hcolumn =>
        obtain rfl := Option.some.inj h
        simp [TableClause.marks, InlineClause.clause, hcolumn]
      · cases h
  | _ => cases h

def Element.add (clause : InlineClause) : Element → Element
  | field f => field (f.add clause)
  | e => e

theorem Element.isField_add (clause : InlineClause) (e : Element) :
    (e.add clause).isField = e.isField := by
  cases e <;> rfl

def addClause (D : Definition) (c : TableClause) : Definition where
  table := D.table
  elements := D.elements ++ [.clause c]
  begins := by
    have hbegins := D.begins
    cases hall : D.elements with
    | nil => simp [hall] at hbegins
    | cons e es => simpa [hall] using hbegins

/-- The definition with one more clause at the end of one of its columns. -/
def addInline (D : Definition) (i : Nat) (clause : InlineClause) : Definition where
  table := D.table
  elements := D.elements.modify i (Element.add clause)
  begins := by
    have hbegins := D.begins
    cases hall : D.elements with
    | nil => simp [hall] at hbegins
    | cons e es =>
        cases i with
        | zero => simpa [hall, Element.isField_add] using hbegins
        | succ i => simpa [hall] using hbegins

theorem Field.column_add (f : Field) (clause : InlineClause) :
    (f.add clause).column = clause.clause.apply f.column := by
  simp [Field.column, Field.add, Field.bare]

section Placement

variable {D : Definition} {earlier later : List Element} {f : Field} {clause : InlineClause}
  {form : TableClause} {columns : List Column}

theorem elements_addInline (h : D.elements = earlier ++ .field f :: later) :
    (D.addInline earlier.length clause).elements =
      earlier ++ .field (f.add clause) :: later := by
  show D.elements.modify earlier.length (Element.add clause) = _
  rw [h, modify_append_cons]
  rfl

theorem foldlM_build_field (columns : List Column) :
    (.field f :: later).foldlM Element.build columns =
      later.foldlM Element.build (columns ++ [f.column]) :=
  rfl

/-- Both places change the column in the same way, and change nothing else. -/
theorem columns?_placed (hcolumns : D.columns? = some columns)
    (hf : D.elements = earlier ++ .field f :: later)
    (hlater : ∀ e ∈ later, f.name.text ∉ e.names)
    (hform : clause.tableForm? f.name = some form) :
    ∃ j, lastIdx? (·.name == f.name.text) columns = some j ∧
      (D.addClause form).columns? = some (columns.modify j (clause.clause.apply ·)) ∧
      (D.addInline earlier.length clause).columns? =
        some (columns.modify j (clause.clause.apply ·)) := by
  rw [columns?] at hcolumns
  have hsplit := hcolumns
  rw [hf, List.foldlM_append] at hsplit
  obtain ⟨before, hbefore, hafter⟩ := Option.bind_eq_some_iff.mp hsplit
  rw [foldlM_build_field] at hafter
  have hj : lastIdx? (·.name == f.name.text) (before ++ [f.column]) = some before.length :=
    lastIdx?_append_cons (by simp [Field.column_name]) (by simp)
  obtain ⟨hmodify, hplace⟩ := foldlM_build_modify (apply_name · clause.clause) hj hlater
  have hlast := hplace columns hafter
  refine ⟨before.length, hlast, ?_, ?_⟩
  · rw [columns?, addClause, List.foldlM_append, hcolumns]
    simp [Element.build, InlineClause.marks_tableForm hform, mark_eq_some hlast]
  · have hfield : before ++ [(f.add clause).column] =
        (before ++ [f.column]).modify before.length (clause.clause.apply ·) := by
      rw [Field.column_add, modify_append_cons]
    rw [columns?, elements_addInline hf, List.foldlM_append, hbefore]
    show (.field (f.add clause) :: later).foldlM Element.build before = _
    rw [foldlM_build_field, hfield, hmodify, hafter]
    rfl

end Placement

/-- A text with this definition is read as the statement, if its length is allowed. -/
def ReadAs (D : Definition) (settings : Settings) (s : Statement) : Prop :=
  ∀ text, WithinLimit settings text → D.WrittenIn settings text → parseOne settings text = .ok s

end Definition

section Placement

open Definition

/-- It does not matter where a constraint on a column stands.  Every text that is
read as a table definition has elements.  Behind the element of a column, no
other may define or name a column of the same name.  Then a key, a foreign key or
a check of that column can be put behind all elements or at the end of its own
element: both are read as the same statement, in which nothing but that column
has changed, and only by what the clause adds.  It is the last of its name, so
the one that is found by its name. -/
theorem constraint_placement {settings : Settings} {x : String} {s : Statement}
    (hs : parseOne settings x = .ok s) (hkind : s.kind = .createTable) :
    (∃ D : Definition, D.WrittenIn settings x) ∧
      ∀ D : Definition, D.WrittenIn settings x →
      ∀ (earlier : List Element) (f : Field) (later : List Element),
        D.elements = earlier ++ .field f :: later → (∀ e ∈ later, f.name.text ∉ e.names) →
      ∀ (clause : InlineClause) (form : TableClause), clause.tableForm? f.name = some form →
      ∃ before c c' after,
        s.columns = before ++ c :: after ∧ (∀ d ∈ after, d.name ≠ f.name.text) ∧
        s.column? f.name.text = some c ∧ clause.clause.Adds c c' ∧
        (D.addClause form).ReadAs settings { s with columns := before ++ c' :: after } ∧
        (D.addInline earlier.length clause).ReadAs settings
          { s with columns := before ++ c' :: after } := by
  refine ⟨exists_writtenIn hs hkind, ?_⟩
  intro D hD earlier f later helements hlater clause form hform
  obtain ⟨columns, hcolumns, rfl⟩ := hD.exists_columns hs
  obtain ⟨j, hlast, houter, hinner⟩ := columns?_placed hcolumns helements hlater hform
  obtain ⟨before, c, after, rfl, rfl, -, hafter⟩ := exists_split_of_lastIdx? hlast
  rw [modify_append_cons] at houter hinner
  have hfound : (before ++ c :: after).reverse.find? (·.name == f.name.text) = some c := by
    obtain ⟨d, hd, -, hfind⟩ := find?_reverse_of_lastIdx? hlast
    obtain rfl : c = d := by simpa using hd
    exact hfind
  refine ⟨before, c, clause.clause.apply c, after, rfl, by simpa using hafter, hfound,
    clause.clause.adds_apply c, ?_, ?_⟩
  · exact fun y hy hwritten => hwritten.parseOne_eq hy houter
  · exact fun z hz hwritten => hwritten.parseOne_eq hz hinner

/-- A foreign key of a column the name of which is defined twice: the second one gets it. -/
theorem constraint_placement_repeated :
    ∃ s s',
      s' = { s with
        columns := [{ name := "a", dataType := .ofName "int" },
          { name := "a", dataType := .ofName "int", foreignKey := true,
            references := some { table := "u", column := "v" }, constraints := [.foreignKey] },
          { name := "b", dataType := .ofName "int" }] } ∧
      parseOne {} "create table t (a int, a int, b int)" = .ok s ∧ s.kind = .createTable ∧
      parseOne {} "create table t (a int, a int, b int, foreign key (a) references u(v))" =
        .ok s' ∧
      parseOne {} "create table t (a int, a int references u(v), b int)" = .ok s' := by
  have hs : parseOne {} "create table t (a int, a int, b int)" =
      .ok { kind := .createTable, tables := ["t"],
            columns := [{ name := "a", dataType := .ofName "int" },
              { name := "a", dataType := .ofName "int" },
              { name := "b", dataType := .ofName "int" }] } := by
    decide +kernel
  let a : Field := ⟨⟨"a", by decide⟩, "int", by decide, none, []⟩
  let b : Field := ⟨⟨"b", by decide⟩, "int", by decide, none, []⟩
  let clause : InlineClause := .references ⟨"u", by decide⟩ ⟨"v", by decide⟩
  obtain ⟨before, c, c', after, -, -, -, -, houter, hinner⟩ :=
    (constraint_placement hs rfl).2 ⟨⟨"t", by decide⟩, [.field a, .field a, .field b], rfl⟩
      (by decide +kernel) [.field a] a [.field b] rfl (by decide) clause _ rfl
  have houter := houter "create table t (a int, a int, b int, foreign key (a) references u(v))"
    (.inr (by decide +kernel)) (by decide +kernel)
  have hinner := hinner "create table t (a int, a int references u(v), b int)"
    (.inr (by decide +kernel)) (by decide +kernel)
  refine ⟨_, _, rfl, hs, rfl, ?_, ?_⟩
  · -- the other text is run, and this one is read as the same
    rw [houter, ← hinner]
    decide +kernel
  · decide +kernel

end Placement

end SqlReader
