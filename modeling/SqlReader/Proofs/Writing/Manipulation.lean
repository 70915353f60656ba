import SqlReader.Proofs.Writing.Condition

/-!
# Writing queries and changes
-/

namespace SqlReader

/-! ## Tokens -/

def valuesTokens (values : List String) : List Token :=
  bracketed (commaList (fun value => [.literal value]) values)

def filterTokens (cs : List Condition) (ls : List Connective) : List Token :=
  if cs = [] then [] else .keyword .whereClause :: chainTokens cs ls

def SortOrder.keyword : SortOrder → Keyword
  | .ascending => .asc
  | .descending => .desc

def sortedTokens (column : String) (order : SortOrder) : List Token :=
  [.word column, .keyword order.keyword]

def orderTokens (items : List OrderItem) : List Token :=
  if items = [] then []
  else .keyword .orderBy :: commaList (fun item => sortedTokens item.column item.order) items

def entryTokens (entry : String × String) : List Token :=
  [.word entry.1, .keyword .equal, .literal entry.2]

namespace Statement

def selectTokens (s : Statement) : List Token :=
  [.keyword .select] ++ ((namesTokens s.fields ++ [.keyword .fromClause]) ++
    (namesTokens s.tables ++ (filterTokens s.conditions s.connectives ++ orderTokens s.orderBy)))

def insertTokens (s : Statement) : List Token :=
  [.keyword .insertInto] ++ (namesTokens s.tables ++ (bracketed (namesTokens s.fields) ++
    ([.keyword .values] ++ commaList valuesTokens s.inserts)))

def updateTokens (s : Statement) : List Token :=
  [.keyword .update] ++ (namesTokens s.tables ++ ([.keyword .set] ++
    (commaList entryTokens s.updates ++ filterTokens s.conditions s.connectives)))

def deleteTokens (s : Statement) : List Token :=
  [.keyword .deleteFrom] ++ (namesTokens s.tables ++ filterTokens s.conditions s.connectives)

end Statement

def Statement.assign (s : Statement) (column value : String) : Statement :=
  { s with fields := pushNew s.fields column, updates := s.updates.set column value }

/-! ## They can be written -/

theorem free_values {values : List String} (h : ∀ value ∈ values, QuotableValue value) :
    Free (valuesTokens values) :=
  free_bracketed (sayable_commaList fun value hvalue => (free_literal (h value hvalue)).toSayable)

theorem free_filter {cs : List Condition} {ls : List Connective} (h : ChainExpressible cs ls) :
    Free (filterTokens cs ls) := by
  unfold filterTokens
  split
  · exact .nil
  · exact Free.cons_keyword rfl rfl (shut_chain h.conditions).toSayable

theorem sayable_sorted {column : String} (h : PlainName column) (order : SortOrder) :
    Sayable (sortedTokens column order) :=
  (sayable_name h).append_free (free_keyword (by cases order <;> rfl))

theorem free_order {items : List OrderItem} (h : ∀ item ∈ items, PlainName item.column) :
    Free (orderTokens items) := by
  unfold orderTokens
  split
  · exact .nil
  · refine Free.cons_keyword rfl rfl (sayable_commaList fun item hitem => ?_)
    exact sayable_sorted (h item hitem) item.order

theorem sayable_entry {entry : String × String}
    (h : PlainName entry.1 ∧ QuotableValue entry.2) : Sayable (entryTokens entry) :=
  (sayable_name h.1).append_free (Free.cons_keyword rfl rfl (free_literal h.2).toSayable)

/-- No name makes a phrase of `FROM`: only `DELETE` does, and it is reserved. -/
theorem apart_from {name : String} (h : reserved? [name.toList] = none) :
    Token.Apart (.word name) (.keyword .fromClause) := by
  have hfirst : ∀ e ∈ vocabulary,
      (e.words.map String.toList)[1]? = some (Text.upper (Token.keyword .fromClause).firstWord) →
      (e.words.map String.toList)[0]? = some "DELETE".toList := by
    decide +kernel
  refine reserved?_eq_none_of_first hfirst fun hname => ?_
  have hupper : Text.upper name.toList = Text.upper "DELETE".toList :=
    hname.trans (by decide +kernel)
  have hreserved : reserved? [name.toList] = reserved? ["DELETE".toList] :=
    reserved?_congr (by simp [hupper])
  have hdelete : reserved? ["DELETE".toList] = some .delete := by decide +kernel
  rw [h, hdelete] at hreserved
  cases hreserved

theorem sayable_star : Sayable [.word "*"] :=
  .singleton (spelled_word (by decide +kernel) (by decide +kernel))

/-- A list of names may stand before `FROM`. -/
theorem shut_names_from {names : List String} (h : ∀ name ∈ names, PlainName name ∨ name = "*") :
    Shut (namesTokens names ++ [.keyword .fromClause]) := by
  have hnames : Sayable (namesTokens names) := by
    refine sayable_commaList fun name hname => ?_
    rcases h name hname with hplain | rfl
    · exact sayable_name hplain
    · exact sayable_star
  have hfrom : Shut [.keyword .fromClause] := shut_keyword rfl
  refine (hnames.append hfrom.toSayable fun t ht u hu => ?_).shut_append hfrom (by simp)
  obtain rfl : .keyword .fromClause = u := by simpa using hu
  rcases mem_commaList (List.mem_of_getLast? ht) with rfl | ⟨name, hname, hmem⟩
  · exact shuts_keyword rfl _
  · obtain rfl := List.mem_singleton.mp hmem
    rcases h name hname with hplain | rfl
    · exact apart_from hplain.unreserved
    · exact apart_from (by decide +kernel)

/-! ## They are read -/

namespace Draft

theorem brings_filter {a : State} {s : Statement} {cs : List Condition} {ls : List Connective}
    (h : ChainExpressible cs ls) (hne : cs ≠ []) (hconditions : s.conditions = [])
    (hconnectives : s.connectives = [])
    (hwhere : Brings (At a s) [.keyword .whereClause] (At (.filter .field) s)) :
    Brings (At a s) (filterTokens cs ls)
      (At (.filter .conjunction) { s with conditions := cs, connectives := ls }) := by
  have hchain := brings_chain (s := s) h hne
  rw [hconditions, hconnectives, List.nil_append, List.nil_append] at hchain
  rw [filterTokens, if_neg hne]
  exact hwhere.cons hchain

/-! ### Queries -/

theorem brings_fields {fields : List String} (hne : fields ≠ [])
    (h : ∀ name ∈ fields, PlainName name ∨ name = "*") :
    Brings (At (.select .field) { kind := .select }) (namesTokens fields)
      (At (.select .commaOrFrom) { kind := .select, fields }) := by
  refine Brings.commaList_at (f := fun fields => { kind := .select, fields }) hne (by decide)
    (fun _ => rfl) fun before name after hfields => ?_
  refine .of_accept (by decide) fun d hstate hs => ?_
  rw [accept, move?, hstate]
  rcases h name (by simp [hfields]) with hplain | rfl
  · have hstar : Token.word name ≠ .word "*" := by
      rintro ⟨rfl⟩
      have hidentifier := hplain.identifier
      revert hidentifier
      decide +kernel
    simp only [SelectPlace.move?, if_neg hstar, Token.identifier?_word hplain.identifier]
    exact ⟨_, rfl, rfl, by simp [addField, hs]⟩
  · exact ⟨_, rfl, rfl, by simp [addField, hs]⟩

theorem brings_selectTables {tables fields : List String} (h : Names tables) :
    Brings (At (.select .table) { kind := .select, fields }) (namesTokens tables)
      (At (.select .commaOrClause) { kind := .select, tables, fields }) :=
  brings_names (f := fun tables => { kind := .select, tables, fields }) .addTable h.1 h.identifiers
    (by decide) (by decide) (fun _ _ => rfl)
    (fun d before name hs => ⟨_, rfl, by simp [addTable, hs]⟩) fun _ => rfl

theorem brings_orderItem {s : Statement} {item : OrderItem} (h : PlainName item.column) :
    Brings (At (.order .field) s) (sortedTokens item.column item.order)
      (At (.order .comma) { s with orderBy := s.orderBy ++ [item] }) := by
  obtain ⟨column, order⟩ := item
  have hcolumn : Brings (At (.order .field) s) [.word column]
      (At (.order .directionOrComma)
        { s with orderBy := s.orderBy ++ [⟨column, .ascending⟩] }) :=
    .of_name h.identifier (by decide) (fun _ => rfl) fun d hd =>
      ⟨_, rfl, by simp [addOrder, hd]⟩
  have horder : Brings
      (At (.order .directionOrComma) { s with orderBy := s.orderBy ++ [⟨column, .ascending⟩] })
      [.keyword order.keyword]
      (At (.order .comma) { s with orderBy := s.orderBy ++ [⟨column, order⟩] }) := by
    refine .of_accept (by decide) fun d hstate hd => ?_
    have haccept : d.accept (.keyword order.keyword) [] =
        (d.modifyLastOrder (fun item => { item with order }) >>= (·.goto (.order .comma))) := by
      rw [accept, move?, hstate]
      cases order <;> rfl
    rw [haccept, modifyLastOrder, hd]
    simp only [modifyLast?_append]
    exact ⟨_, rfl, rfl, rfl⟩
  exact hcolumn.cons horder

theorem brings_orderItems {s : Statement} {items : List OrderItem} (hne : items ≠ [])
    (h : ∀ item ∈ items, PlainName item.column) (hs : s.orderBy = []) :
    Brings (At (.order .field) s)
      (commaList (fun item => sortedTokens item.column item.order) items)
      (At (.order .comma) { s with orderBy := items }) := by
  have hstart : s = { s with orderBy := [] } := by rw [← hs]
  nth_rewrite 1 [hstart]
  refine Brings.commaList_at (f := fun orderBy => { s with orderBy }) hne (by decide)
    (fun _ => rfl) fun before item after hitems => ?_
  exact brings_orderItem (h item (by simp [hitems]))

/-- A query that may be sorted. -/
def Queried (s : Statement) (d : Draft) : Prop :=
  d.statement = s ∧ (d.state = .select .commaOrClause ∨ d.state = .filter .conjunction)

theorem brings_selectFilter {tables fields : List String} {cs : List Condition}
    {ls : List Connective} (h : ChainExpressible cs ls) :
    Brings (At (.select .commaOrClause) { kind := .select, tables, fields }) (filterTokens cs ls)
      (Queried { kind := .select, tables, fields, conditions := cs, connectives := ls }) := by
  by_cases hne : cs = []
  · subst hne
    obtain rfl : ls = [] := List.eq_nil_of_length_eq_zero h.count
    exact .nil fun d hd => ⟨hd.statement_eq, .inl hd.state_eq⟩
  · have hwhere := Brings.of_goto (a := .select .commaOrClause) (b := .filter .field)
      (s := { kind := .select, tables, fields }) (t := .keyword .whereClause) (by decide)
      fun _ => rfl
    exact (brings_filter h hne rfl rfl hwhere).weaken (fun _ hd => hd)
      fun d hd => ⟨hd.statement_eq, .inr hd.state_eq⟩

theorem brings_orderBy {s : Statement} (hkind : s.kind = .select) :
    Brings (Queried s) [.keyword .orderBy] (At (.order .field) s) := by
  refine .step ?_
  rintro d ⟨rfl, hstate | hstate⟩
  · refine ⟨by simp [hstate], { d with state := .order .field }, ?_, rfl, rfl⟩
    rw [accept, move?, hstate]
    rfl
  · refine ⟨by simp [hstate], { d with state := .order .field }, ?_, rfl, rfl⟩
    rw [accept, move?, hstate]
    simp [FilterPlace.move?, Token.keyword?, hkind, follow, apply, goto, bind, Except.bind]

theorem brings_order {s : Statement} {items : List OrderItem} (hkind : s.kind = .select)
    (hs : s.orderBy = []) (h : ∀ item ∈ items, PlainName item.column) :
    Brings (Queried s) (orderTokens items) (Ended { s with orderBy := items }) := by
  unfold orderTokens
  split
  next hnil =>
    refine .nil ?_
    rintro d ⟨rfl, hstate⟩
    refine ⟨?_, by rw [hnil, ← hs]⟩
    rcases hstate with hstate | hstate <;> rw [hstate] <;> rfl
  next hne =>
    have hitems := brings_orderItems hne h hs
    exact ((brings_orderBy hkind).cons hitems).ended rfl

/-! ### Rows -/

/-- The values of a row are being read behind the rows before it. -/
structure ReadingRow (place : InsertPlace) (s : Statement) (row : List String) (d : Draft) :
    Prop where
  state_eq : d.state = .insert place
  statement_eq : d.statement = { s with inserts := s.inserts ++ [row] }
  open_eq : d.openRow = some s.inserts.length

theorem ReadingRow.currentRow {place : InsertPlace} {s : Statement} {row : List String} {d : Draft}
    (h : d.ReadingRow place s row) : d.currentRow = .ok (s.inserts.length, row) := by
  rw [Draft.currentRow, h.open_eq, h.statement_eq]
  simp

theorem brings_row {s : Statement} {row : List String} (hne : row ≠ [])
    (hlength : row.length = s.fields.length) :
    Brings (At (.insert .valuesOpen) s) (valuesTokens row)
      (At (.insert .rowComma) { s with inserts := s.inserts ++ [row] }) := by
  have hopen : Brings (At (.insert .valuesOpen) s) [.keyword .leftParen]
      (ReadingRow .value s []) := by
    refine .step ?_
    rintro d ⟨hstate, rfl⟩
    refine ⟨by simp [hstate], ?_⟩
    rw [accept, move?, hstate]
    exact ⟨_, rfl, rfl, rfl, by simp [addRow]⟩
  have hvalues : Brings (ReadingRow .value s [])
      (commaList (fun value => [.literal value]) row) (ReadingRow .valuesNext s row) := by
    refine Brings.commaList (S := ReadingRow .value s) (T := ReadingRow .valuesNext s) hne ?_ ?_
    · intro before value after hrow
      refine .step fun d hd => ⟨by simp [hd.state_eq], ?_⟩
      have hadd : d.addValue value = .ok { d with
          statement := { s with inserts := s.inserts ++ [before ++ [value]] } } := by
        rw [addValue, hd.currentRow]
        simp [bind, Except.bind, pure, Except.pure, hd.statement_eq]
      rw [accept, move?, hd.state_eq]
      simp only [InsertPlace.move?, Token.value?, Option.map_some, follow, apply, hadd]
      exact ⟨_, rfl, rfl, rfl, hd.open_eq⟩
    · intro before
      refine .step fun d hd => ⟨by simp [hd.state_eq], ?_⟩
      rw [accept, move?, hd.state_eq]
      exact ⟨_, rfl, rfl, hd.statement_eq, hd.open_eq⟩
  have hclose : Brings (ReadingRow .valuesNext s row) [.keyword .rightParen]
      (At (.insert .rowComma) { s with inserts := s.inserts ++ [row] }) := by
    refine .step fun d hd => ⟨by simp [hd.state_eq], ?_⟩
    have hfields : row.length = d.statement.fields.length := by rw [hlength, hd.statement_eq]
    rw [accept, move?, hd.state_eq]
    simp only [InsertPlace.move?, Token.keyword?, follow, apply, closeRow, hd.currentRow, bind,
      Except.bind, if_pos hfields]
    exact ⟨_, rfl, rfl, hd.statement_eq⟩
  exact hopen.cons (hvalues.append hclose)

theorem brings_insertFields {table : String} {fields : List String} (h : Names fields) :
    Brings (At (.insert .fieldsOpen) { kind := .insert, tables := [table] })
      (bracketed (namesTokens fields))
      (At (.insert .valuesKeyword) { kind := .insert, tables := [table], fields }) := by
  have hnames := brings_names (a := .insert .field) (b := .insert .fieldsNext)
    (f := fun fields => { kind := .insert, tables := [table], fields }) .addField h.1 h.identifiers
    (by decide) (by decide) (fun _ _ => rfl)
    (fun d before name hs => ⟨_, rfl, by simp [addField, hs]⟩) fun _ => rfl
  have hopen := Brings.of_goto (a := .insert .fieldsOpen) (b := .insert .field)
    (s := { kind := .insert, tables := [table] }) (t := .keyword .leftParen) (by decide)
    fun _ => rfl
  have hclose := Brings.of_goto (a := .insert .fieldsNext) (b := .insert .valuesKeyword)
    (s := { kind := .insert, tables := [table], fields }) (t := .keyword .rightParen) (by decide)
    fun _ => rfl
  exact hopen.cons (hnames.append hclose)

theorem brings_rows {s : Statement} {rows : List (List String)} (hs : s.inserts = [])
    (hne : rows ≠ []) (hfields : s.fields ≠ []) (h : FullRows s.fields rows) :
    Brings (At (.insert .valuesOpen) s) (commaList valuesTokens rows)
      (At (.insert .rowComma) { s with inserts := rows }) := by
  have hstart : s = { s with inserts := [] } := by rw [← hs]
  nth_rewrite 1 [hstart]
  refine Brings.commaList_at (f := fun inserts => { s with inserts }) hne (by decide)
    (fun _ => rfl) fun before row after hrows => ?_
  have hlength : row.length = s.fields.length := h row (by simp [hrows])
  refine brings_row ?_ hlength
  rintro rfl
  exact hfields (List.length_eq_zero_iff.mp hlength.symm)

/-! ### Assignments -/

structure Assigning (place : UpdatePlace) (s : Statement) (column : String) (d : Draft) :
    Prop where
  state_eq : d.state = .update place
  statement_eq : d.statement = s
  pending_eq : d.pendingField = some column

theorem brings_assignment {s : Statement} {column value : String} {t : Token}
    (hname : isIdentifier column = true) (hvalue : t.value? = some value) :
    Brings (At (.update .field) s) [.word column, .keyword .equal, t]
      (At (.update .commaOrWhere) (s.assign column value)) := by
  have hcolumn : Brings (At (.update .field) s) [.word column]
      (Assigning .equal { s with fields := pushNew s.fields column } column) := by
    refine .step ?_
    rintro d ⟨hstate, rfl⟩
    refine ⟨by simp [hstate], ?_⟩
    rw [accept, move?, hstate]
    simp only [UpdatePlace.move?, Token.identifier?_word hname]
    exact ⟨_, rfl, rfl, rfl, rfl⟩
  have hequal : Brings (Assigning .equal { s with fields := pushNew s.fields column } column)
      [.keyword .equal]
      (Assigning .value { s with fields := pushNew s.fields column } column) := by
    refine .step fun d hd => ⟨by simp [hd.state_eq], ?_⟩
    rw [accept, move?, hd.state_eq]
    exact ⟨_, rfl, rfl, hd.statement_eq, hd.pending_eq⟩
  have hfill : Brings (Assigning .value { s with fields := pushNew s.fields column } column) [t]
      (At (.update .commaOrWhere) (s.assign column value)) := by
    refine .step fun d hd => ⟨by simp [hd.state_eq], ?_⟩
    rw [accept, move?, hd.state_eq]
    simp only [UpdatePlace.move?, hvalue, Option.map_some, follow, apply, assign, hd.pending_eq,
      hd.statement_eq]
    exact ⟨_, rfl, rfl, rfl⟩
  exact hcolumn.cons (hequal.cons hfill)

theorem brings_entries (table : String) {updates : Assignments} (hne : updates ≠ [])
    (hkeys : (updates.map (·.1)).Nodup) (h : ∀ entry ∈ updates, PlainName entry.1) :
    Brings (At (.update .field) { kind := .update, tables := [table] })
      (commaList entryTokens updates)
      (At (.update .commaOrWhere)
        { kind := .update, tables := [table], fields := updates.map (·.1), updates }) := by
  refine Brings.commaList_at (f := fun updates =>
    { kind := .update, tables := [table], fields := updates.map (·.1), updates }) hne (by decide)
    (fun _ => rfl) fun before entry after hupdates => ?_
  have hnew : entry.1 ∉ before.map (·.1) := by
    rw [hupdates, List.map_append, List.nodup_append] at hkeys
    intro hmem
    exact hkeys.2.2 _ hmem _ (by simp) rfl
  have hentry := brings_assignment
    (s := { kind := .update, tables := [table], fields := before.map (·.1), updates := before })
    (t := .literal entry.2) (h entry (by simp [hupdates])).identifier rfl
  simpa [entryTokens, Statement.assign, pushNew, hnew, Assignments.set_of_notMem] using hentry

end Draft

/-! ## Whole statements -/

namespace Statement

open Draft

section Select

variable {tables fields : List String} {conditions : List Condition}
  {connectives : List Connective} {orderBy : List OrderItem}

theorem writtenAs_select (htables : Names tables) (hfields : fields ≠ [])
    (hnames : ∀ name ∈ fields, PlainName name ∨ name = "*")
    (hfilter : ChainExpressible conditions connectives)
    (horder : ∀ item ∈ orderBy, PlainName item.column) :
    WrittenAs { kind := .select, tables, fields, conditions, connectives, orderBy }
      (selectTokens { kind := .select, tables, fields, conditions, connectives, orderBy }) := by
  constructor
  · have htail : Free (filterTokens conditions connectives ++ orderTokens orderBy) :=
      (free_filter hfilter).append (free_order horder)
    have hrest : Sayable (namesTokens tables ++
        (filterTokens conditions connectives ++ orderTokens orderBy)) :=
      (sayable_names htables.2).append_free htail
    exact (shut_keyword rfl).append_sayable ((shut_names_from hnames).append_sayable hrest)
  · have hfrom := Brings.of_goto (a := .select .commaOrFrom) (b := .select .table)
      (s := { kind := .select, fields }) (t := .keyword .fromClause) (by decide)
      fun _ => rfl
    have hfieldsFrom := (brings_fields hfields hnames).append hfrom
    exact (brings_beginning rfl).append (hfieldsFrom.append
      ((brings_selectTables htables).append
        ((brings_selectFilter hfilter).append (brings_order rfl rfl horder))))

end Select

theorem writtenAs_insert {table : String} {fields : List String} {inserts : List (List String)}
    (htable : PlainName table) (hfields : Names fields) (hinserts : inserts ≠ [])
    (hrows : FullRows fields inserts)
    (hvalues : ∀ row ∈ inserts, ∀ value ∈ row, QuotableValue value) :
    WrittenAs { kind := .insert, tables := [table], fields, inserts }
      (insertTokens { kind := .insert, tables := [table], fields, inserts }) := by
  constructor
  · have hall : Sayable (commaList valuesTokens inserts) :=
      sayable_commaList fun row hrow => (free_values (hvalues row hrow)).toSayable
    have hcolumns : Free (bracketed (namesTokens fields)) :=
      free_bracketed (sayable_names hfields.2)
    have htail : Free (bracketed (namesTokens fields) ++
        ([.keyword .values] ++ commaList valuesTokens inserts)) :=
      hcolumns.append (Free.cons_keyword rfl rfl hall)
    have hname : Sayable (namesTokens [table]) := sayable_name htable
    exact (shut_keyword rfl).append_sayable (hname.append_free htail)
  · have hname := brings_table (a := .insert .table) (b := .insert .fieldsOpen) .insert
      htable.identifier (by decide) fun _ => rfl
    have hkeyword := Brings.of_goto (a := .insert .valuesKeyword) (b := .insert .valuesOpen)
      (s := { kind := .insert, tables := [table], fields }) (t := .keyword .values) (by decide)
      fun _ => rfl
    have hall := brings_rows (s := { kind := .insert, tables := [table], fields }) rfl hinserts
      hfields.1 hrows
    exact ((brings_beginning rfl).append (hname.append
      ((brings_insertFields hfields).append (hkeyword.append hall)))).ended rfl

section Filtered

variable {table : String} {conditions : List Condition} {connectives : List Connective}

theorem writtenAs_update {updates : Assignments} (htable : PlainName table)
    (hupdates : updates ≠ []) (hkeys : (updates.map (·.1)).Nodup)
    (hentries : ∀ entry ∈ updates, PlainName entry.1 ∧ QuotableValue entry.2)
    (hconditions : conditions ≠ []) (hfilter : ChainExpressible conditions connectives) :
    WrittenAs
      { kind := .update, tables := [table], fields := updates.map (·.1), conditions, connectives,
        updates }
      (updateTokens
        { kind := .update, tables := [table], fields := updates.map (·.1), conditions,
          connectives, updates }) := by
  constructor
  · have hall : Sayable (commaList entryTokens updates) :=
      sayable_commaList fun entry hentry => sayable_entry (hentries entry hentry)
    have htail : Free ([.keyword .set] ++
        (commaList entryTokens updates ++ filterTokens conditions connectives)) :=
      Free.cons_keyword rfl rfl (hall.append_free (free_filter hfilter))
    have hname : Sayable (namesTokens [table]) := sayable_name htable
    exact (shut_keyword rfl).append_sayable (hname.append_free htail)
  · have hname := brings_table (a := .update .table) (b := .update .set) .update
      htable.identifier (by decide) fun _ => rfl
    have hset := Brings.of_goto (a := .update .set) (b := .update .field)
      (s := { kind := .update, tables := [table] }) (t := .keyword .set) (by decide)
      fun _ => rfl
    have hall := brings_entries table hupdates hkeys fun entry hentry =>
      (hentries entry hentry).1
    have hwhere := Brings.of_goto (a := .update .commaOrWhere) (b := .filter .field)
      (s := { kind := .update, tables := [table], fields := updates.map (·.1), updates })
      (t := .keyword .whereClause) (by decide) fun _ => rfl
    have hclause := brings_filter hfilter hconditions rfl rfl hwhere
    exact ((brings_beginning rfl).append (hname.append
      (hset.append (hall.append hclause)))).ended rfl

theorem writtenAs_delete (htable : PlainName table) (hconditions : conditions ≠ [])
    (hfilter : ChainExpressible conditions connectives) :
    WrittenAs { kind := .delete, tables := [table], conditions, connectives }
      (deleteTokens { kind := .delete, tables := [table], conditions, connectives }) := by
  constructor
  · have hname : Sayable (namesTokens [table]) := sayable_name htable
    exact (shut_keyword rfl).append_sayable (hname.append_free (free_filter hfilter))
  · have hname := brings_table (a := .delete .table) (b := .delete .whereKeyword) .delete
      htable.identifier (by decide) fun _ => rfl
    have hwhere := Brings.of_goto (a := .delete .whereKeyword) (b := .filter .field)
      (s := { kind := .delete, tables := [table] })
      (t := .keyword .whereClause) (by decide) fun _ => rfl
    have hclause := brings_filter hfilter hconditions rfl rfl hwhere
    exact ((brings_beginning rfl).append (hname.append hclause)).ended rfl

end Filtered

end Statement

end SqlReader
