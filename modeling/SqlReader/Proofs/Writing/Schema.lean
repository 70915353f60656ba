import SqlReader.Proofs.Writing.Manipulation

/-!
# Writing views, indexes, users and privileges

The query of a view is not written by tokens: the tokens of a view reach up to
its query.
-/

namespace SqlReader

/-! ## Tokens -/

def columnsTokens (names : List String) : List Token :=
  if names = [] then [] else bracketed (namesTokens names)

def viewTokens (view : String) (fields : List String) : List Token :=
  [.keyword .createView] ++ (namesTokens [view] ++ (columnsTokens fields ++ [.keyword .as]))

def indexTokens (table : String) (index : Index) : List Token :=
  [.keyword .createIndex] ++ ([.word index.name] ++ ([.keyword .on] ++ (namesTokens [table] ++
    bracketed (commaList (fun c => sortedTokens c.name c.order) index.columns))))

/-- A column of an index as it may be written: its direction can be left out. -/
structure SortedColumn where
  name : String
  direction : Option SortOrder
  identifier : isIdentifier name = true

namespace SortedColumn

def tokens (c : SortedColumn) : List Token :=
  .word c.name :: (c.direction.map fun order => .keyword order.keyword).toList

def column (c : SortedColumn) : IndexColumn := ⟨c.name, c.direction.getD .ascending⟩

end SortedColumn

def sortedIndexTokens (table name : String) (columns : List SortedColumn) : List Token :=
  [.keyword .createIndex] ++ ([.word name] ++ ([.keyword .on] ++ (namesTokens [table] ++
    bracketed (commaList SortedColumn.tokens columns))))

def userTokens (user password : String) : List Token :=
  [.keyword .createUser] ++ ([.word user] ++ ([.keyword .identifiedBy] ++ [.literal password]))

def Action.keyword : Action → Keyword
  | .select => .select
  | .insert => .insert
  | .update => .update
  | .delete => .delete
  | .all => .allPrivileges

def Privilege.tokens (p : Privilege) : List Token :=
  .keyword p.action.keyword :: columnsTokens p.columns

def privilegeWords (kind : Kind) : Keyword × Keyword :=
  if kind = .grant then (.grant, .toClause) else (.revoke, .fromClause)

def privilegesTokens (kind : Kind) (privileges : List Privilege) (tables users : List String) :
    List Token :=
  [.keyword (privilegeWords kind).1] ++ (commaList Privilege.tokens privileges ++
    ([.keyword .onTable] ++ ((namesTokens tables ++ [.keyword (privilegeWords kind).2]) ++
      namesTokens users)))

/-- The tokens of a grant or a revocation, with `ON TABLE` or `ON` before its tables. -/
def permissionTokens (kind : Kind) (word : Keyword) (privileges : List Privilege)
    (tables users : List String) : List Token :=
  [.keyword (privilegeWords kind).1] ++ (commaList Privilege.tokens privileges ++
    ([.keyword word] ++ ((namesTokens tables ++ [.keyword (privilegeWords kind).2]) ++
      namesTokens users)))

/-! ## They can be written -/

theorem free_columns {names : List String} (h : ∀ name ∈ names, PlainName name) :
    Free (columnsTokens names) := by
  unfold columnsTokens
  split
  · exact .nil
  · exact free_bracketed (sayable_names h)

theorem shut_view {view : String} {fields : List String} (hview : PlainName view)
    (hfields : ∀ name ∈ fields, PlainName name) : Shut (viewTokens view fields) := by
  have has : Shut [.keyword .as] := shut_keyword rfl
  have hfree : Free (columnsTokens fields ++ [.keyword .as]) :=
    (free_columns hfields).append (free_keyword rfl)
  have hall : Sayable ([.keyword .createView] ++ (namesTokens [view] ++
      (columnsTokens fields ++ [.keyword .as]))) :=
    (shut_keyword rfl).append_sayable ((sayable_name hview).append_free hfree)
  rw [← List.append_assoc, ← List.append_assoc] at hall
  have hshut := hall.shut_append has (by simp)
  rwa [List.append_assoc, List.append_assoc] at hshut

/-- The table of an index may stand behind `ON` unless its name is `TABLE`. -/
theorem apart_on {name : String} (h : Text.upperString name ≠ "TABLE")
    (hword : IsWord name.toList) : Token.Apart (.keyword .on) (.word name) := by
  have hsecond : ∀ e ∈ vocabulary,
      (e.words.map String.toList)[0]? = some (Text.upper (Token.keyword .on).spelling) →
      e.words.length = 2 → (e.words.map String.toList)[1]? = some "TABLE".toList := by
    decide +kernel
  refine reserved?_eq_none_of_second hsecond fun hname => h ?_
  have hfirst : (Token.word name).firstWord = name.toList :=
    List.takeWhile_eq_self_iff.mpr (List.all_eq_true.mp hword.2)
  rw [hfirst] at hname
  exact upperString_eq_iff.mpr hname

theorem sayable_index {table name : String} {columns : List IndexColumn} (htable : PlainName table)
    (hapart : Text.upperString table ≠ "TABLE") (hname : PlainName name)
    (hnames : ∀ c ∈ columns, PlainName c.name) : Sayable (indexTokens table ⟨name, columns⟩) := by
  have hcolumns : Free (bracketed (commaList (fun c => sortedTokens c.name c.order) columns)) :=
    free_bracketed (sayable_commaList fun c hc => sayable_sorted (hnames c hc) c.order)
  have htables : Sayable (namesTokens [table] ++
      bracketed (commaList (fun c => sortedTokens c.name c.order) columns)) :=
    (sayable_name htable).append_free hcolumns
  have hon : Free [.keyword .on] := free_keyword rfl
  have htail : Sayable ([.keyword .on] ++ (namesTokens [table] ++
      bracketed (commaList (fun c => sortedTokens c.name c.order) columns))) := by
    refine hon.toSayable.append htables fun t ht u hu => ?_
    obtain rfl : .keyword .on = t := by simpa using ht
    obtain rfl : .word table = u := by simpa [namesTokens, commaList] using hu
    exact apart_on hapart (isWord_of_isIdentifier htable.identifier)
  have hfree : Free ([.keyword .on] ++ (namesTokens [table] ++
      bracketed (commaList (fun c => sortedTokens c.name c.order) columns))) :=
    ⟨htail, fun t ht => hon.head t ht⟩
  exact (shut_keyword rfl).append_sayable ((sayable_name hname).append_free hfree)

theorem sayable_user {user password : String} (huser : PlainName user)
    (hpassword : QuotableValue password) : Sayable (userTokens user password) := by
  have hfree : Free ([.keyword .identifiedBy] ++ [.literal password]) :=
    (free_keyword rfl).append (free_literal hpassword)
  exact (shut_keyword rfl).append_sayable ((sayable_name huser).append_free hfree)

theorem sayable_privilege {p : Privilege} (h : ∀ name ∈ p.columns, PlainName name) :
    Sayable p.tokens :=
  Sayable.append_free (.singleton (spelled_keyword p.action.keyword)) (free_columns h)

theorem shut_names_grantee {kind : Kind} {tables : List String}
    (h : ∀ name ∈ tables, PlainName name) :
    Shut (namesTokens tables ++ [.keyword (privilegeWords kind).2]) := by
  unfold privilegeWords
  split
  · have hall := (sayable_names h).append_free (free_keyword (k := .toClause) rfl)
    exact hall.shut_append (shut_keyword rfl) (by simp)
  · exact shut_names_from fun name hname => .inl (h name hname)

theorem sayable_privileges {kind : Kind} {privileges : List Privilege} {tables users : List String}
    (hcolumns : ∀ p ∈ privileges, ∀ name ∈ p.columns, PlainName name)
    (htables : ∀ name ∈ tables, PlainName name) (husers : ∀ name ∈ users, PlainName name) :
    Sayable (privilegesTokens kind privileges tables users) := by
  have hword : Shut [.keyword (privilegeWords kind).1] := by
    unfold privilegeWords
    split
    · exact shut_keyword rfl
    · exact shut_keyword rfl
  have hlist : Sayable (commaList Privilege.tokens privileges) :=
    sayable_commaList fun p hp => sayable_privilege (hcolumns p hp)
  have htail : Free ([.keyword .onTable] ++
      ((namesTokens tables ++ [.keyword (privilegeWords kind).2]) ++ namesTokens users)) :=
    Free.cons_keyword rfl rfl ((shut_names_grantee htables).append_sayable (sayable_names husers))
  exact hword.append_sayable (hlist.append_free htail)

/-! ## They are read -/

namespace Draft

/-! ### Views -/

theorem brings_view {view : String} {fields : List String} (hview : PlainName view)
    (hfields : ∀ name ∈ fields, PlainName name) :
    Brings (At .beginning {}) (viewTokens view fields)
      (At (.view .query) { kind := .createView, tables := [view], fields }) := by
  have hname := brings_table (a := .view .name) (b := .view .columnsOrAs) .createView
    hview.identifier (by decide) fun _ => rfl
  refine (brings_beginning rfl).append (hname.append ?_)
  unfold columnsTokens
  split
  next hnil =>
    subst hnil
    exact .of_goto (by decide) fun _ => rfl
  next hne =>
    have hopen := Brings.of_goto (a := .view .columnsOrAs) (b := .view .field)
      (s := { kind := .createView, tables := [view] }) (t := .keyword .leftParen) (by decide)
      fun _ => rfl
    have hnames := brings_names (a := .view .field) (b := .view .fieldsNext)
      (f := fun fields => { kind := .createView, tables := [view], fields }) .addField
      hne (fun name hname => (hfields name hname).identifier) (by decide) (by decide)
      (fun _ _ => rfl)
      (fun d before name hs => ⟨_, rfl, by simp [addField, hs]⟩) fun _ => rfl
    have hclose := Brings.of_goto (a := .view .fieldsNext) (b := .view .asKeyword)
      (s := { kind := .createView, tables := [view], fields }) (t := .keyword .rightParen)
      (by decide) fun _ => rfl
    have has := Brings.of_goto (a := .view .asKeyword) (b := .view .query)
      (s := { kind := .createView, tables := [view], fields }) (t := .keyword .as)
      (by decide) fun _ => rfl
    exact (hopen.cons (hnames.append hclose)).append has

/-! ### Indexes -/

/-- An index whose columns are read up to here; the fields repeat their names. -/
def withIndex (table name : String) (columns : List IndexColumn) : Statement :=
  { kind := .createIndex, tables := [table], fields := columns.map (·.name),
    index := some ⟨name, columns⟩ }

def Indexed (table name : String) (columns : List IndexColumn) (d : Draft) : Prop :=
  d.statement = withIndex table name columns ∧
    (d.state = .index .orderOrNext ∨ d.state = .index .next)

theorem brings_indexColumn {table name : String} {before : List IndexColumn} {c : SortedColumn} :
    Brings (At (.index .field) (withIndex table name before)) c.tokens
      (Indexed table name (before ++ [c.column])) := by
  obtain ⟨column, direction, hc⟩ := c
  have hcolumn : Brings (At (.index .field) (withIndex table name before)) [.word column]
      (At (.index .orderOrNext) (withIndex table name (before ++ [⟨column, .ascending⟩]))) := by
    refine .of_name hc (by decide) (fun _ => rfl) fun d hs => ?_
    simp only [apply, modifyIndex, hs, withIndex]
    exact ⟨_, rfl, by simp [addField]⟩
  cases direction with
  | none => exact hcolumn.weaken (fun _ hd => hd) fun d hd => ⟨hd.statement_eq, .inl hd.state_eq⟩
  | some order =>
      have horder : Brings
          (At (.index .orderOrNext) (withIndex table name (before ++ [⟨column, .ascending⟩])))
          [.keyword order.keyword]
          (At (.index .next) (withIndex table name (before ++ [⟨column, order⟩]))) := by
        refine .of_accept (by decide) fun d hstate hs => ?_
        have hmodify : orderLastColumn order ⟨name, before ++ [⟨column, .ascending⟩]⟩ =
            .ok ⟨name, before ++ [⟨column, order⟩]⟩ := by
          simp [orderLastColumn, modifyLast?_append]
        have haccept : d.accept (.keyword order.keyword) [] =
            (d.modifyIndex (orderLastColumn order) >>= (·.goto (.index .next))) := by
          rw [accept, move?, hstate]
          cases order <;> rfl
        rw [haccept, modifyIndex, hs, withIndex]
        simp only [hmodify]
        exact ⟨_, rfl, rfl, by simp [withIndex]⟩
      exact (hcolumn.cons horder).weaken (fun _ hd => hd)
        fun d hd => ⟨hd.statement_eq, .inr hd.state_eq⟩

/-- The columns of an index go on with a comma and end with the bracket. -/
theorem brings_indexed {k : Keyword} {state : State}
    (h : (k, state) ∈ [(Keyword.comma, .index .field), (.rightParen, .done)])
    (table name : String) (columns : List IndexColumn) :
    Brings (Indexed table name columns) [.keyword k] (At state (withIndex table name columns)) := by
  simp only [List.mem_cons, List.not_mem_nil, or_false, Prod.mk.injEq] at h
  refine .step ?_
  rintro d ⟨hs, hstate | hstate⟩ <;>
    refine ⟨by simp [hstate], { d with state }, ?_, rfl, hs⟩ <;>
    rw [accept, move?, hstate] <;>
    rcases h with ⟨rfl, rfl⟩ | ⟨rfl, rfl⟩ <;> rfl

theorem brings_sorted {table name : String} {columns : List SortedColumn}
    (htable : isIdentifier table = true) (hname : isIdentifier name = true) (hne : columns ≠ []) :
    Brings (At .beginning {}) (sortedIndexTokens table name columns)
      (At .done (withIndex table name (columns.map (·.column)))) := by
  have hindex : Brings (At (.index .name) { kind := .createIndex }) [.word name]
      (At (.index .on) { kind := .createIndex, index := some ⟨name, []⟩ }) :=
    .of_name hname (by decide) (fun _ => rfl) fun d hs => ⟨_, rfl, by simp [hs]⟩
  have hon := Brings.of_goto (a := .index .on) (b := .index .table)
    (s := { kind := .createIndex, index := some ⟨name, []⟩ }) (t := .keyword .on) (by decide)
    fun _ => rfl
  have htables : Brings
      (At (.index .table) { kind := .createIndex, index := some ⟨name, []⟩ })
      (namesTokens [table]) (At (.index .opening) (withIndex table name [])) :=
    .of_name htable (by decide) (fun _ => rfl) fun d hs =>
      ⟨_, rfl, by simp [addTable, hs, withIndex]⟩
  have hopen := Brings.of_goto (a := .index .opening) (b := .index .field)
    (s := withIndex table name []) (t := .keyword .leftParen) (by decide)
    fun _ => rfl
  have hcolumns : Brings (At (.index .field) (withIndex table name []))
      (commaList SortedColumn.tokens columns) (Indexed table name (columns.map (·.column))) := by
    refine Brings.commaList
      (S := fun before => At (.index .field) (withIndex table name (before.map (·.column))))
      (T := fun before => Indexed table name (before.map (·.column))) hne ?_ ?_
    · intro before c after _
      rw [List.map_append]
      exact brings_indexColumn
    · intro before
      exact brings_indexed (by simp) table name _
  have hclose : Brings (Indexed table name (columns.map (·.column))) [.keyword .rightParen]
      (At .done (withIndex table name (columns.map (·.column)))) :=
    brings_indexed (by simp) table name _
  exact (brings_beginning rfl).append (hindex.append (hon.append (htables.append
    (hopen.cons (hcolumns.append hclose)))))

theorem brings_index {table name : String} {columns : List IndexColumn} (htable : PlainName table)
    (hname : PlainName name) (hne : columns ≠ []) (hnames : ∀ c ∈ columns, PlainName c.name) :
    Brings (At .beginning {}) (indexTokens table ⟨name, columns⟩)
      (At .done (withIndex table name columns)) := by
  let written : List SortedColumn :=
    columns.attach.map fun c => ⟨c.1.name, some c.1.order, (hnames c.1 c.2).identifier⟩
  have hsorted : Brings (At .beginning {}) (sortedIndexTokens table name written)
      (At .done (withIndex table name (written.map (·.column)))) :=
    brings_sorted htable.identifier hname.identifier (by simpa [written] using hne)
  have hcolumns : written.map (·.column) = columns := by
    simp [written, SortedColumn.column, Function.comp_def]
  have htokens : commaList SortedColumn.tokens written =
      commaList (fun c : IndexColumn => sortedTokens c.name c.order) columns :=
    commaList_congr (by simp [written, SortedColumn.tokens, sortedTokens, Function.comp_def])
  rwa [hcolumns, sortedIndexTokens, htokens] at hsorted

/-! ### Users and privileges -/

theorem brings_user {user password : String} (huser : PlainName user) :
    Brings (At .beginning {}) (userTokens user password)
      (At .done { kind := .createUser, users := [user], password := some password }) := by
  have hname : Brings (At (.user .name) { kind := .createUser }) [.word user]
      (At (.user .identifiedBy) { kind := .createUser, users := [user] }) :=
    .of_name huser.identifier (by decide) (fun _ => rfl) fun d hs =>
      ⟨_, rfl, by simp [addUser, hs]⟩
  have hidentified := Brings.of_goto (a := .user .identifiedBy) (b := .user .password)
    (s := { kind := .createUser, users := [user] }) (t := .keyword .identifiedBy) (by decide)
    fun _ => rfl
  have hpassword : Brings (At (.user .password) { kind := .createUser, users := [user] })
      [.literal password]
      (At .done { kind := .createUser, users := [user], password := some password }) := by
    refine .of_accept (by decide) fun d hstate hs => ?_
    rw [accept, move?, hstate]
    exact ⟨_, rfl, rfl, by simp [hs]⟩
  exact (brings_beginning rfl).append (hname.append (hidentified.append hpassword))

def withPrivileges (kind : Kind) (privileges : List Privilege) : Statement :=
  { kind, fields := distinct (privileges.flatMap (·.columns)), privileges }

def Listed (kind : Kind) (privileges : List Privilege) (d : Draft) : Prop :=
  d.statement = withPrivileges kind privileges ∧
    (d.state = .privilege .columnsOrNext ∨ d.state = .privilege .commaOrOn)

theorem brings_privilege {kind : Kind} {before : List Privilege} {p : Privilege}
    (hcolumns : ∀ name ∈ p.columns, isIdentifier name = true) :
    Brings (At (.privilege .action) (withPrivileges kind before)) p.tokens
      (Listed kind (before ++ [p])) := by
  obtain ⟨action, columns⟩ := p
  have haction : Brings (At (.privilege .action) (withPrivileges kind before))
      [.keyword action.keyword]
      (At (.privilege .columnsOrNext) (withPrivileges kind (before ++ [⟨action, []⟩]))) := by
    refine .of_accept (by decide) fun d hstate hs => ?_
    rw [accept, move?, hstate]
    cases action <;> exact ⟨_, rfl, rfl, by simp [hs, withPrivileges]⟩
  refine haction.cons ?_
  unfold columnsTokens
  split
  next hnil =>
    simp only at hnil
    subst hnil
    exact .nil fun d hd => ⟨hd.statement_eq, .inl hd.state_eq⟩
  next hne =>
    have hopen := Brings.of_goto (a := .privilege .columnsOrNext) (b := .privilege .column)
      (s := withPrivileges kind (before ++ [⟨action, []⟩])) (t := .keyword .leftParen)
      (by decide) fun _ => rfl
    have hnames : Brings
        (At (.privilege .column) (withPrivileges kind (before ++ [⟨action, []⟩])))
        (namesTokens columns)
        (At (.privilege .columnsNext) (withPrivileges kind (before ++ [⟨action, columns⟩]))) := by
      refine Brings.commaList_at (a := .privilege .column) (b := .privilege .columnsNext)
        (f := fun columns => withPrivileges kind (before ++ [⟨action, columns⟩])) hne (by decide)
        (fun _ => rfl) fun done name after hsplit => ?_
      have hname : isIdentifier name = true := hcolumns name (by rw [hsplit]; simp)
      refine .of_name hname (by decide) (fun _ => rfl) fun d hs => ?_
      simp only [apply, modifyLastPrivilege, addNewField, hs, withPrivileges, modifyLast?_append]
      refine ⟨_, rfl, ?_⟩
      simp [distinct, List.foldl_append]
    have hclose := Brings.of_goto (a := .privilege .columnsNext) (b := .privilege .commaOrOn)
      (s := withPrivileges kind (before ++ [⟨action, columns⟩])) (t := .keyword .rightParen)
      (by decide) fun _ => rfl
    exact (hopen.cons (hnames.append hclose)).weaken (fun _ hd => hd)
      fun d hd => ⟨hd.statement_eq, .inr hd.state_eq⟩

/-- A list of privileges goes on with a comma and ends with the tables. -/
theorem brings_listed {k : Keyword} {place : PrivilegePlace}
    (h : (k, place) ∈ [(.comma, .action), (.onTable, .table), (.on, .table)]) (kind : Kind)
    (privileges : List Privilege) :
    Brings (Listed kind privileges) [.keyword k]
      (At (.privilege place) (withPrivileges kind privileges)) := by
  simp only [List.mem_cons, List.not_mem_nil, or_false, Prod.mk.injEq] at h
  refine .step ?_
  rintro d ⟨hs, hstate | hstate⟩ <;>
    refine ⟨by simp [hstate], { d with state := .privilege place }, ?_, rfl, hs⟩ <;>
    rw [accept, move?, hstate] <;>
    rcases h with ⟨rfl, rfl⟩ | ⟨rfl, rfl⟩ | ⟨rfl, rfl⟩ <;> rfl

theorem brings_permission {kind : Kind} {word : Keyword} {privileges : List Privilege}
    {tables users : List String} (hkind : kind = .grant ∨ kind = .revoke)
    (hword : word ∈ [Keyword.onTable, .on]) (hprivileges : privileges ≠ [])
    (hcolumns : ∀ p ∈ privileges, ∀ name ∈ p.columns, isIdentifier name = true)
    (htables : tables ≠ []) (htable : ∀ name ∈ tables, isIdentifier name = true)
    (husers : users ≠ []) (huser : ∀ name ∈ users, isIdentifier name = true) :
    Brings (At .beginning {}) (permissionTokens kind word privileges tables users)
      (At (.privilege .granteeComma) { withPrivileges kind privileges with tables, users }) := by
  have hbegin : Brings (At .beginning {}) [.keyword (privilegeWords kind).1]
      (At (.privilege .action) (withPrivileges kind [])) := by
    rcases hkind with rfl | rfl
    · exact brings_beginning rfl
    · exact brings_beginning rfl
  have hlist : Brings (At (.privilege .action) (withPrivileges kind []))
      (commaList Privilege.tokens privileges) (Listed kind privileges) :=
    Brings.commaList (S := fun before => At (.privilege .action) (withPrivileges kind before))
      hprivileges (fun before p after hsplit => brings_privilege (hcolumns p (by simp [hsplit])))
      (brings_listed (by simp) kind)
  have hon : Brings (Listed kind privileges) [.keyword word]
      (At (.privilege .table) (withPrivileges kind privileges)) :=
    brings_listed (by simpa using hword) kind privileges
  have hnames := brings_names (a := .privilege .table) (b := .privilege .tablesNext)
    (f := fun tables => { withPrivileges kind privileges with tables }) .addTable htables htable
    (by decide) (by decide) (fun _ _ => rfl)
    (fun d before name hs => ⟨_, rfl, by simp [addTable, hs]⟩) fun _ => rfl
  have hgrantee : Brings
      (At (.privilege .tablesNext) { withPrivileges kind privileges with tables })
      [.keyword (privilegeWords kind).2]
      (At (.privilege .grantee) { withPrivileges kind privileges with tables }) := by
    refine .of_goto (by decide) fun d => ?_
    rcases hkind with rfl | rfl <;> rfl
  have hgrantees := brings_names (a := .privilege .grantee) (b := .privilege .granteeComma)
    (f := fun users => { withPrivileges kind privileges with tables, users }) .addUser husers huser
    (by decide) (by decide) (fun _ _ => rfl)
    (fun d before name hs => ⟨_, rfl, by simp [addUser, hs]⟩) fun _ => rfl
  exact hbegin.append (hlist.append (hon.append ((hnames.append hgrantee).append hgrantees)))

theorem brings_privileges {kind : Kind} {privileges : List Privilege} {tables users : List String}
    (hkind : kind = .grant ∨ kind = .revoke) (hprivileges : privileges ≠ [])
    (hcolumns : ∀ p ∈ privileges, ∀ name ∈ p.columns, PlainName name) (htables : Names tables)
    (husers : Names users) :
    Brings (At .beginning {}) (privilegesTokens kind privileges tables users)
      (At (.privilege .granteeComma)
        { kind, tables, fields := distinct (privileges.flatMap (·.columns)), privileges,
          users }) :=
  brings_permission hkind (List.mem_cons_self ..) hprivileges
    (fun p hp name hname => (hcolumns p hp name hname).identifier) htables.1 htables.identifiers
    husers.1 husers.identifiers

end Draft

end SqlReader
