import SqlReader.Proofs.Definition.Parsing

/-!
# Updates, indexes and permissions as they are written

The trees of the statements that name their columns twice, once in a list and
once in detail.  Every text that is read as such a statement has a tree.
-/

namespace SqlReader

open Definition (Name Value)

/-- The part of the text that is read has these tokens. -/
def HasTokens (settings : Settings) (text : String) (ts : List Token) : Prop :=
  (tokenize (String.ofList (cursorText settings text))).map (·.2) = ts

instance {settings : Settings} {text : String} {ts : List Token} :
    Decidable (HasTokens settings text ts) :=
  inferInstanceAs (Decidable (_ = _))

/-! ## Trees -/

structure Assignment where
  column : Name
  value : Value

namespace Assignment

def tokens (a : Assignment) : List Token := [a.column.token, .keyword .equal, a.value.token]

def entry (a : Assignment) : String × String := (a.column.text, a.value.text)

end Assignment

/-- An update.  Of its filter the tokens are kept. -/
structure Update where
  table : Name
  assignments : List Assignment
  filter : List Token
  assigns : assignments ≠ []

namespace Update

def heading (u : Update) : List Token :=
  [.keyword .update] ++ (namesTokens [u.table.text] ++ ([.keyword .set] ++
    (commaList Assignment.tokens u.assignments ++ [.keyword .whereClause])))

def tokens (u : Update) : List Token := u.heading ++ u.filter

end Update

structure IndexDefinition where
  name : Name
  table : Name
  columns : List SortedColumn
  sorts : columns ≠ []

def IndexDefinition.tokens (i : IndexDefinition) : List Token :=
  sortedIndexTokens i.table.text i.name.text i.columns

structure Permission where
  kind : Kind
  word : Keyword
  privileges : List Privilege
  tables : List Name
  users : List Name
  permits : kind = .grant ∨ kind = .revoke
  introduces : word ∈ [Keyword.onTable, .on]
  columns : ∀ p ∈ privileges, ∀ name ∈ p.columns, isIdentifier name = true
  nonempty : privileges ≠ [] ∧ tables ≠ [] ∧ users ≠ []

def Permission.tokens (p : Permission) : List Token :=
  permissionTokens p.kind p.word p.privileges (p.tables.map (·.text)) (p.users.map (·.text))

/-! ## Every sentence has a tree -/

namespace Sentence

variable {w : List Token}

theorem exists_of_mem_assignment (hw : w ∈ assignment) : ∃ a : Assignment, a.tokens = w := by
  obtain ⟨before, hbefore, u, hu, rfl⟩ := Language.mem_mul.mp hw
  obtain ⟨v, hv, _, ⟨_, rfl, rfl⟩, rfl⟩ := Language.mem_mul.mp hbefore
  obtain ⟨column, rfl⟩ := exists_of_mem_name hv
  obtain ⟨value, rfl⟩ := exists_of_mem_value hu
  exact ⟨⟨column, value⟩, rfl⟩

theorem exists_of_mem_update (hw : w ∈ update) : ∃ u : Update, u.tokens = w := by
  obtain ⟨before, hbefore, clause, hclause, rfl⟩ := Language.mem_mul.mp hw
  obtain ⟨opening, hopening, list, hlist, rfl⟩ := Language.mem_mul.mp hbefore
  obtain ⟨heading, hheading, _, ⟨_, rfl, rfl⟩, rfl⟩ := Language.mem_mul.mp hopening
  obtain ⟨name, hname, rfl⟩ := exists_of_mem_kw_mul hheading
  obtain ⟨table, rfl⟩ := exists_of_mem_name hname
  obtain ⟨a, as, rfl⟩ := exists_of_mem_listOf (fun u => exists_of_mem_assignment) hlist
  obtain ⟨filter, -, rfl⟩ := exists_of_mem_kw_mul hclause
  refine ⟨⟨table, a :: as, filter, by simp⟩, ?_⟩
  simp [Update.tokens, Update.heading, namesTokens, commaList, Name.token]

theorem exists_of_mem_sorted (hw : w ∈ sorted) : ∃ c : SortedColumn, c.tokens = w := by
  obtain ⟨u, hu, v, hv, rfl⟩ := Language.mem_mul.mp hw
  obtain ⟨name, rfl⟩ := exists_of_mem_name hu
  rcases hv with rfl | ⟨_, ⟨k, hk, rfl⟩, rfl⟩
  · exact ⟨⟨name.text, none, name.identifier⟩, rfl⟩
  · simp only [List.mem_cons, List.not_mem_nil, or_false] at hk
    rcases hk with rfl | rfl
    · exact ⟨⟨name.text, some .ascending, name.identifier⟩, rfl⟩
    · exact ⟨⟨name.text, some .descending, name.identifier⟩, rfl⟩

theorem exists_of_mem_createIndex (hw : w ∈ createIndex) :
    ∃ i : IndexDefinition, i.tokens = w := by
  obtain ⟨opening, hopening, list, hlist, rfl⟩ := Language.mem_mul.mp hw
  obtain ⟨before, hbefore, u, hu, rfl⟩ := Language.mem_mul.mp hopening
  obtain ⟨heading, hheading, _, ⟨_, rfl, rfl⟩, rfl⟩ := Language.mem_mul.mp hbefore
  obtain ⟨v, hv, rfl⟩ := exists_of_mem_kw_mul hheading
  obtain ⟨name, rfl⟩ := exists_of_mem_name hv
  obtain ⟨table, rfl⟩ := exists_of_mem_name hu
  obtain ⟨columns, hcolumns, rfl⟩ := exists_of_mem_parens hlist
  obtain ⟨c, cs, rfl⟩ := exists_of_mem_listOf (fun u => exists_of_mem_sorted) hcolumns
  refine ⟨⟨name, table, c :: cs, by simp⟩, ?_⟩
  simp [IndexDefinition.tokens, sortedIndexTokens, namesTokens, commaList, Name.token]

/-- A list of names, as texts. -/
theorem exists_of_mem_names (hw : w ∈ listOf name) :
    ∃ names : List Name, names ≠ [] ∧ w = namesTokens (names.map (·.text)) := by
  obtain ⟨n, ns, rfl⟩ := exists_of_mem_listOf (fun u => exists_of_mem_name) hw
  refine ⟨n :: ns, by simp, commaList_congr ?_⟩
  rw [List.map_map]
  rfl

theorem exists_action {k : Keyword}
    (hk : k ∈ [Keyword.select, .insert, .update, .delete, .allPrivileges]) :
    ∃ action : Action, action.keyword = k := by
  simp only [List.mem_cons, List.not_mem_nil, or_false] at hk
  rcases hk with rfl | rfl | rfl | rfl | rfl
  · exact ⟨.select, rfl⟩
  · exact ⟨.insert, rfl⟩
  · exact ⟨.update, rfl⟩
  · exact ⟨.delete, rfl⟩
  · exact ⟨.all, rfl⟩

/-- A privilege whose columns can be named. -/
abbrev Named : Type := { p : Privilege // ∀ name ∈ p.columns, isIdentifier name = true }

theorem exists_of_mem_privilege (hw : w ∈ privilege) : ∃ p : Named, p.1.tokens = w := by
  obtain ⟨_, ⟨_, ⟨k, hk, rfl⟩, rfl⟩, v, hv, rfl⟩ := Language.mem_mul.mp hw
  obtain ⟨action, rfl⟩ := exists_action hk
  rcases hv with rfl | hv
  · exact ⟨⟨⟨action, []⟩, by simp⟩, rfl⟩
  · obtain ⟨list, hlist, rfl⟩ := exists_of_mem_parens hv
    obtain ⟨names, hnames, rfl⟩ := exists_of_mem_names hlist
    refine ⟨⟨⟨action, names.map (·.text)⟩, ?_⟩, ?_⟩
    · simpa using fun n (_ : n ∈ names) => n.identifier
    · simp [Privilege.tokens, columnsTokens, hnames]

theorem exists_of_mem_permission {kind : Kind} (hkind : kind = .grant ∨ kind = .revoke)
    (hw : w ∈ kw (privilegeWords kind).1 * privileges * kw (privilegeWords kind).2 * listOf name) :
    ∃ p : Permission, p.tokens = w := by
  obtain ⟨before, hbefore, list, hlist, rfl⟩ := Language.mem_mul.mp hw
  obtain ⟨opening, hopening, _, ⟨_, rfl, rfl⟩, rfl⟩ := Language.mem_mul.mp hbefore
  obtain ⟨u, hu, rfl⟩ := exists_of_mem_kw_mul hopening
  obtain ⟨heading, hheading, names, hnames, rfl⟩ := Language.mem_mul.mp hu
  obtain ⟨items, hitems, _, ⟨_, ⟨word, hword, rfl⟩, rfl⟩, rfl⟩ := Language.mem_mul.mp hheading
  obtain ⟨p, ps, rfl⟩ := exists_of_mem_listOf (fun u => exists_of_mem_privilege) hitems
  obtain ⟨tables, htables, rfl⟩ := exists_of_mem_names hnames
  obtain ⟨users, husers, rfl⟩ := exists_of_mem_names hlist
  refine ⟨⟨kind, word, (p :: ps).map (·.1), tables, users, hkind, hword, ?_,
    by simp, htables, husers⟩, ?_⟩
  · intro q hq
    obtain ⟨r, -, rfl⟩ := List.mem_map.mp hq
    exact r.2
  · have hitems : commaList Privilege.tokens ((p :: ps).map (·.1)) =
        commaList (fun q : Named => q.1.tokens) (p :: ps) :=
      commaList_congr (by rw [List.map_map]; rfl)
    rw [Permission.tokens, permissionTokens, hitems]
    simp

end Sentence

/-! ## Every text has a tree -/

section Texts

variable {settings : Settings} {text : String} {s : Statement}

theorem hasTokens_iff {ts : List Token} :
    HasTokens settings text ts ↔ (Parser.ofText settings text).tokensLeft = ts := by
  rw [tokensLeft_ofText, HasTokens]

theorem exists_update (hs : parseOne settings text = .ok s) (hkind : s.kind = .update) :
    ∃ u : Update, HasTokens settings text u.tokens := by
  have hmem := Parser.tokensLeft_mem_ofKind hs
  rw [hkind] at hmem
  obtain ⟨u, hu⟩ := Sentence.exists_of_mem_update hmem
  exact ⟨u, hasTokens_iff.mpr hu.symm⟩

theorem exists_index (hs : parseOne settings text = .ok s) (hkind : s.kind = .createIndex) :
    ∃ i : IndexDefinition, HasTokens settings text i.tokens := by
  have hmem := Parser.tokensLeft_mem_ofKind hs
  rw [hkind] at hmem
  obtain ⟨i, hi⟩ := Sentence.exists_of_mem_createIndex hmem
  exact ⟨i, hasTokens_iff.mpr hi.symm⟩

theorem exists_permission (hs : parseOne settings text = .ok s)
    (hkind : s.kind = .grant ∨ s.kind = .revoke) :
    ∃ p : Permission, HasTokens settings text p.tokens := by
  have hmem := Parser.tokensLeft_mem_ofKind hs
  have hpermission : (Parser.ofText settings text).tokensLeft ∈
      Sentence.kw (privilegeWords s.kind).1 * Sentence.privileges *
        Sentence.kw (privilegeWords s.kind).2 * Sentence.listOf Sentence.name := by
    rcases hkind with h | h <;> rwa [h] at hmem ⊢
  obtain ⟨p, hp⟩ := Sentence.exists_of_mem_permission hkind hpermission
  exact ⟨p, hasTokens_iff.mpr hp.symm⟩

end Texts

end SqlReader
