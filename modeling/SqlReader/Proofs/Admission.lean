import SqlReader.Proofs.Progress

/-!
# What a move is about

A move carries the name or the value that its token spells, and is made only where the
draft is ready for its change.  What all changes keep, every step therefore keeps.
-/

namespace SqlReader

def Token.predicate? (t : Token) : Option (Predicate × PredicateShape) :=
  t.keyword?.bind Keyword.predicate?

namespace Draft

/-- The change is about what the token spells, and the draft is ready for it. -/
def Admits (t : Token) (d : Draft) : Change → Prop
  | .kind _ => d.statement = {}
  | .addStar => d.statement.kind = .select
  | .addTable s | .addField s | .addUser s | .addOrder s | .awaitValue s | .addCondition s
  | .addColumn s | .addKey s | .addForeignKey s | .setTarget s | .setTargetColumn s
  | .nameIndex s | .addIndexColumn s | .grantColumn s => t.identifier? = some s
  | .addCheck s =>
    -- a further condition of a check comes after an earlier one
    t.identifier? = some s ∧
      (d.freshCheck = false → ∃ i c, d.checkColumn = some i ∧
        d.statement.columns[i]? = some c ∧ c.checks ≠ [])
  | .addValue v | .assign v | .fillValue v | .fillLow v | .fillHigh v | .addItem v
  | .setPassword v | .define (.default v) => t.value? = some v
  | .setPredicate p =>
    -- checks know no ranges
    d.PredicateOpen (· = none) ∧ ∃ shape, t.predicate? = some (p, shape) ∧
      (shape = .range → ∃ i, d.openCondition = some (.filter i))
  | _ => True

variable {d : Draft} {t : Token} {rest : List Char} {m : Move} {next : State}

theorem admits_none : ∀ m, (none : Option Move) = some m → d.Admits t m.change := by
  rintro _ ⟨⟩

theorem admits_some (h : d.Admits t m.change) : ∀ m', some m = some m' → d.Admits t m'.change := by
  rintro _ ⟨⟩
  exact h

theorem admits_map {α : Type} {o : Option α} {f : α → Move}
    (h : ∀ a, o = some a → d.Admits t (f a).change) :
    ∀ m, o.map f = some m → d.Admits t m.change := by
  intro m hm
  obtain ⟨a, ha, rfl⟩ := Option.map_eq_some_iff.mp hm
  exact h a ha

theorem admits_expect {k : Keyword} :
    ∀ m, Move.expect t k next = some m → d.Admits t m.change := by
  unfold Move.expect
  split
  · exact admits_some trivial
  · exact admits_none

/-! ## The moves of each place

A move that carries a name or a value is made of the name or the value of the token;
the changes of most others are always admitted. -/

theorem beginning_admits (h : d.statement = {}) :
    ∀ m, Move.begin t = some m → d.Admits t m.change :=
  admits_map fun _ _ => h

theorem select_admits {place : SelectPlace} (h : place.Pictured d) :
    ∀ m, place.move? t = some m → d.Admits t m.change := by
  cases place with
  | field =>
      obtain ⟨fields, hs⟩ := h
      have hkind : d.statement.kind = .select := by rw [hs]
      simp only [SelectPlace.move?]
      split
      · exact admits_some hkind
      · exact admits_map fun _ hname => hname
  | table => exact admits_map fun _ hname => hname
  | commaOrFrom | commaOrClause =>
      simp only [SelectPlace.move?]
      split <;> first | exact admits_some trivial | exact admits_none

theorem order_admits {place : OrderPlace} :
    ∀ m, place.move? t = some m → d.Admits t m.change := by
  cases place with
  | field => exact admits_map fun _ hname => hname
  | directionOrComma =>
      simp only [OrderPlace.move?]
      split <;> first | exact admits_some trivial | exact admits_none
  | comma => exact admits_expect

theorem insert_admits {place : InsertPlace} :
    ∀ m, place.move? t = some m → d.Admits t m.change := by
  cases place with
  | table | field => exact admits_map fun _ hname => hname
  | value => exact admits_map fun _ htext => htext
  | fieldsOpen | valuesKeyword | rowComma => exact admits_expect
  | fieldsNext | valuesOpen | valuesNext =>
      simp only [InsertPlace.move?]
      split <;> first | exact admits_some trivial | exact admits_none

theorem update_admits {place : UpdatePlace} :
    ∀ m, place.move? t = some m → d.Admits t m.change := by
  cases place with
  | table | field => exact admits_map fun _ hname => hname
  | value => exact admits_map fun _ htext => htext
  | set | equal => exact admits_expect
  | commaOrWhere =>
      simp only [UpdatePlace.move?]
      split <;> first | exact admits_some trivial | exact admits_none

theorem delete_admits {place : DeletePlace} :
    ∀ m, place.move? t = some m → d.Admits t m.change := by
  cases place with
  | table => exact admits_map fun _ hname => hname
  | whereKeyword => exact admits_expect

theorem filter_admits {place : FilterPlace} (h : place.Pictured d) :
    ∀ m, place.move? d.statement.kind t = some m → d.Admits t m.change := by
  cases place with
  | field => exact admits_map fun _ hname => hname
  | operator =>
      have hopen := FilterPending.predicateOpen h
      obtain ⟨_, _, _, _, _, _, hslot⟩ := h
      exact admits_map fun (_, shape) hp => ⟨hopen, shape, hp, fun _ => ⟨_, hslot⟩⟩
  | value | betweenLow | betweenHigh | listValue => exact admits_map fun _ htext => htext
  | betweenAnd | listOpen => exact admits_expect
  | listNext =>
      simp only [FilterPlace.move?]
      split <;> first | exact admits_some trivial | exact admits_none
  | conjunction =>
      simp only [FilterPlace.move?]
      split
      · split
        · exact admits_some trivial
        · exact admits_none
      · exact admits_map fun _ _ => trivial
      · exact admits_none

theorem columnTail_admits : ∀ m, Move.columnTail t = some m → d.Admits t m.change := by
  unfold Move.columnTail
  split <;> first | exact admits_some trivial | exact admits_none

theorem table_admits {place : TablePlace} :
    ∀ m, place.move? t = some m → d.Admits t m.change := by
  have hcolumn : ∀ m, Move.openColumn t = some m → d.Admits t m.change :=
    admits_map fun _ hname => hname
  cases place with
  | name => exact admits_map fun _ hname => hname
  | opening | lengthClose => exact admits_expect
  | field => exact hcolumn
  | fieldType =>
      simp only [TablePlace.move?]
      split
      · exact admits_none
      · exact admits_some trivial
  | typeSuffix =>
      simp only [TablePlace.move?]
      split
      · exact admits_some trivial
      · exact columnTail_admits
  | fieldLength => exact admits_map fun _ _ => trivial
  | columnTail => exact columnTail_admits
  | defaultValue => exact admits_map fun _ htext => htext
  | element =>
      simp only [TablePlace.move?]
      split <;> first | exact admits_some trivial | exact hcolumn
  | constraintEnd =>
      simp only [TablePlace.move?]
      split <;> first | exact admits_some trivial | exact admits_none

theorem check_admits {place : CheckPlace} (h : place.Pictured d) :
    ∀ m, place.move? d.constraintScope t = some m → d.Admits t m.change := by
  obtain ⟨-, -, h⟩ := h
  cases place with
  | field =>
      refine admits_map fun name hname => ⟨hname, fun hfresh => ?_⟩
      rcases h with ⟨hfirst, _⟩ | ⟨_, before, c, after, hcs, hcheck, ⟨hne, _⟩, _⟩
      · simp [hfirst] at hfresh
      · exact ⟨before.length, c, hcheck, by simp [hcs], hne⟩
  | operator =>
      rintro m hm
      obtain ⟨⟨p, shape⟩, hp, hm⟩ := Option.bind_eq_some_iff.mp hm
      obtain ⟨_, hplace, rfl⟩ := Option.map_eq_some_iff.mp hm
      refine ⟨CheckPending.predicateOpen h, shape, hp, ?_⟩
      rintro rfl
      cases hplace
  | value | listValue => exact admits_map fun _ htext => htext
  | opening | listOpen => exact admits_expect
  | listNext =>
      simp only [CheckPlace.move?]
      split <;> first | exact admits_some trivial | exact admits_none
  | conjunctionOrClose =>
      simp only [CheckPlace.move?]
      split
      · exact admits_some trivial
      · exact admits_map fun _ _ => trivial
      · exact admits_none

theorem primaryKey_admits {place : PrimaryKeyPlace} :
    ∀ m, place.move? t = some m → d.Admits t m.change := by
  cases place with
  | opening => exact admits_expect
  | field => exact admits_map fun _ hname => hname
  | next =>
      simp only [PrimaryKeyPlace.move?]
      split <;> first | exact admits_some trivial | exact admits_none

theorem foreignKey_admits {place : ForeignKeyPlace} {scope : ConstraintScope} :
    ∀ m, place.move? scope t = some m → d.Admits t m.change := by
  cases place with
  | opening | close | references | tableOpen => exact admits_expect
  | field | table | column => exact admits_map fun _ hname => hname
  | columnClose =>
      simp only [ForeignKeyPlace.move?]
      split
      · exact admits_some trivial
      · exact admits_none

theorem view_admits {place : ViewPlace} :
    ∀ m, place.move? t rest = some m → d.Admits t m.change := by
  cases place with
  | name | field => exact admits_map fun _ hname => hname
  | columnsOrAs | fieldsNext | query =>
      simp only [ViewPlace.move?]
      split <;> first | exact admits_some trivial | exact admits_none
  | asKeyword => exact admits_expect

theorem index_admits {place : IndexPlace} :
    ∀ m, place.move? t = some m → d.Admits t m.change := by
  cases place with
  | name | table | field => exact admits_map fun _ hname => hname
  | on | opening => exact admits_expect
  | orderOrNext | next =>
      simp only [IndexPlace.move?]
      split <;> first | exact admits_some trivial | exact admits_none

theorem user_admits {place : UserPlace} :
    ∀ m, place.move? t = some m → d.Admits t m.change := by
  cases place with
  | name => exact admits_map fun _ hname => hname
  | identifiedBy => exact admits_expect
  | password => exact admits_map fun _ htext => htext

theorem privilege_admits {place : PrivilegePlace} {kind : Kind} :
    ∀ m, place.move? kind t = some m → d.Admits t m.change := by
  cases place with
  | action => exact admits_map fun _ _ => trivial
  | column | table | grantee => exact admits_map fun _ hname => hname
  | columnsOrNext | columnsNext | commaOrOn =>
      simp only [PrivilegePlace.move?]
      split <;> first | exact admits_some trivial | exact admits_none
  | tablesNext =>
      simp only [PrivilegePlace.move?]
      split
      · exact admits_some trivial
      · split
        · exact admits_some trivial
        · exact admits_none
      · exact admits_none
  | granteeComma => exact admits_expect

/-- A draft that holds what its state says is ready for every move of the state. -/
theorem Pictured.admits (h : d.Pictured) (hm : d.move? t rest = some m) : d.Admits t m.change := by
  unfold Pictured at h
  unfold move? at hm
  generalize d.state = state at h hm
  cases state with
  | beginning => exact beginning_admits h m hm
  | select place => exact select_admits h m hm
  | order place => exact order_admits m hm
  | insert place => exact insert_admits m hm
  | update place => exact update_admits m hm
  | delete place => exact delete_admits m hm
  | filter place => exact filter_admits h m hm
  | table place => exact table_admits m hm
  | check place => exact check_admits h m hm
  | primaryKey place => exact primaryKey_admits m hm
  | foreignKey place => exact foreignKey_admits m hm
  | view place => exact view_admits m hm
  | index place => exact index_admits m hm
  | user place => exact user_admits m hm
  | privilege place => exact privilege_admits m hm
  | done => cases hm

end Draft

end SqlReader
