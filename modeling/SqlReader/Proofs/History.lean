import SqlReader.Proofs.Completion
import SqlReader.Proofs.Residual.Manipulation
import SqlReader.Proofs.Storage

/-!
# What has been read

Most states of the grammar say nothing about the tokens that led to them.  Two
things are kept here: inside an insertion all tokens from its beginning on, which
tell how long the open row is, and before the name of a defined column the last
token, which is a symbol.
-/

namespace SqlReader

open Sentence
open scoped Computability

namespace Sentence

def insertHead (width : Nat) : Language Token :=
  kw .insertInto * name * parens (listOfSucc name (width - 1)) * kw .values

def rowsRead (width : Nat) : Language Token :=
  (parens (listOfSucc value (width - 1)) * kw .comma)∗

/-- An insertion up to an open row that has at least as many commas as there are
columns. -/
def overfullRow : Language Token :=
  ⨆ n, insertHead (n + 1) * rowsRead (n + 1) *
    (kw .leftParen * ((value * kw .comma) ^ (n + 1) * (value * kw .comma)∗ * maybe value))

def insertRead (c : Context) : InsertPlace → Language Token
  | .table => kw .insertInto
  | .fieldsOpen => kw .insertInto * name
  | .field => kw .insertInto * name * (kw .leftParen * (name * kw .comma) ^ c.width)
  | .fieldsNext => kw .insertInto * name * (kw .leftParen * listOfSucc name (c.width - 1))
  | .valuesKeyword => kw .insertInto * name * parens (listOfSucc name (c.width - 1))
  | .valuesOpen => insertHead c.width * rowsRead c.width
  | .value =>
    insertHead c.width * rowsRead c.width * (kw .leftParen * (value * kw .comma) ^ c.filled)
  | .valuesNext =>
    insertHead c.width * rowsRead c.width * (kw .leftParen * listOfSucc value (c.filled - 1))
  | .rowComma =>
    insertHead c.width * rowsRead c.width * parens (listOfSucc value (c.width - 1))

/-! ## One more token of an insertion -/

section Append

variable {A : Language Token} {P : Token → Prop} {k : Keyword} {c : Context} {t : Token}
  {ts : List Token} {s : String}

theorem append_mem_one (h : ts ∈ A) (ht : P t) : ts ++ [t] ∈ A * one P :=
  Language.append_mem_mul h ⟨t, ht, rfl⟩

theorem append_mem_kw (h : ts ∈ A) (ht : t.keyword? = some k) : ts ++ [t] ∈ A * kw k :=
  append_mem_one h (keyword?_eq_some_iff.mp ht)

theorem append_mem_name (h : ts ∈ A) (ht : t.identifier? = some s) :
    ts ++ [t] ∈ A * name :=
  append_mem_one h (isName_iff.mpr ⟨s, ht⟩)

theorem append_mem_value (h : ts ∈ A) (ht : t.value? = some s) :
    ts ++ [t] ∈ A * value :=
  append_mem_one h (isValue_iff.mpr ⟨s, ht⟩)

/-- Items with a comma behind each of them and one more item are a list. -/
theorem pow_mul_eq_listOfSucc (item : Language Token) (n : Nat) :
    (item * kw .comma) ^ n * item = listOfSucc item n := mul_pow_mul item (kw .comma) n

theorem listOfSucc_mul_comma (item : Language Token) {n : Nat} (hn : 0 < n) :
    listOfSucc item (n - 1) * kw .comma = (item * kw .comma) ^ n := by
  obtain ⟨m, rfl⟩ := Nat.exists_eq_succ_of_ne_zero (Nat.ne_of_gt hn)
  rw [Nat.succ_sub_one, ← pow_mul_eq_listOfSucc, pow_succ, mul_assoc]

theorem insertRead_field (h : ts ∈ insertRead c .field) (ht : t.identifier? = some s) :
    ts ++ [t] ∈ insertRead { c with width := c.width + 1 } .fieldsNext := by
  have hmem := append_mem_name h ht
  simp only [insertRead, mul_assoc, pow_mul_eq_listOfSucc, Nat.add_sub_cancel] at hmem ⊢
  exact hmem

theorem insertRead_fieldsNext_comma (hwidth : 0 < c.width) (h : ts ∈ insertRead c .fieldsNext)
    (ht : t.keyword? = some .comma) : ts ++ [t] ∈ insertRead c .field := by
  have hmem := append_mem_kw h ht
  simp only [insertRead, mul_assoc, listOfSucc_mul_comma name hwidth] at hmem ⊢
  exact hmem

theorem insertRead_fieldsNext_close (h : ts ∈ insertRead c .fieldsNext)
    (ht : t.keyword? = some .rightParen) : ts ++ [t] ∈ insertRead c .valuesKeyword := by
  have hmem := append_mem_kw h ht
  simp only [insertRead, parens, mul_assoc] at hmem ⊢
  exact hmem

theorem insertRead_valuesKeyword (h : ts ∈ insertRead c .valuesKeyword)
    (ht : t.keyword? = some .values) : ts ++ [t] ∈ insertRead c .valuesOpen := by
  have hmem := Language.append_mem_mul (append_mem_kw h ht)
    (Language.nil_mem_kstar (parens (listOfSucc value (c.width - 1)) * kw .comma))
  rw [List.append_nil] at hmem
  exact hmem

theorem insertRead_valuesOpen (h : ts ∈ insertRead c .valuesOpen)
    (ht : t.keyword? = some .leftParen) : ts ++ [t] ∈ insertRead { c with filled := 0 } .value := by
  have hmem := append_mem_kw h ht
  simp only [insertRead, pow_zero, mul_one] at hmem ⊢
  exact hmem

theorem insertRead_value (h : ts ∈ insertRead c .value) (ht : t.value? = some s) :
    ts ++ [t] ∈ insertRead { c with filled := c.filled + 1 } .valuesNext := by
  have hmem := append_mem_value h ht
  simp only [insertRead, mul_assoc, pow_mul_eq_listOfSucc, Nat.add_sub_cancel] at hmem ⊢
  exact hmem

theorem insertRead_valuesNext_comma (hfilled : 0 < c.filled) (h : ts ∈ insertRead c .valuesNext)
    (ht : t.keyword? = some .comma) : ts ++ [t] ∈ insertRead c .value := by
  have hmem := append_mem_kw h ht
  simp only [insertRead, mul_assoc, listOfSucc_mul_comma value hfilled] at hmem ⊢
  exact hmem

theorem insertRead_valuesNext_close (hfull : c.filled = c.width)
    (h : ts ∈ insertRead c .valuesNext) (ht : t.keyword? = some .rightParen) :
    ts ++ [t] ∈ insertRead c .rowComma := by
  have hmem := append_mem_kw h ht
  simp only [insertRead, parens, mul_assoc, hfull] at hmem ⊢
  exact hmem

/-- A row with its comma joins those that were read before it. -/
theorem insertRead_rowComma (h : ts ∈ insertRead c .rowComma) (ht : t.keyword? = some .comma) :
    ts ++ [t] ∈ insertRead c .valuesOpen := by
  have hmem := append_mem_kw h ht
  rw [insertRead, mul_assoc, mul_assoc] at hmem
  obtain ⟨us, hus, vs, hvs, heq⟩ := Language.mem_mul.mp hmem
  have hrows : vs ∈ rowsRead c.width :=
    kstar_mul_le_kstar (a := parens (listOfSucc value (c.width - 1)) * kw .comma) hvs
  rw [← heq]
  exact Language.append_mem_mul hus hrows

end Append

end Sentence

/-! ## The tokens of a draft -/

/-- Nothing is kept of the tokens that lead to the state. -/
def State.Unkept : State → Prop
  | .beginning | .insert _ | .check .field | .primaryKey .field | .foreignKey .field => False
  | _ => True

/-- The last token is a symbol that lists begin or go on with. -/
def EndsInSymbol (ts : List Token) : Prop :=
  ts.getLast? = some (.keyword .leftParen) ∨ ts.getLast? = some (.keyword .comma)

/-- The tokens `ts` have led to the draft. -/
def Traced (ts : List Token) (d : Draft) : Prop :=
  match d.state with
  | .beginning => ts = []
  | .insert place => ts ∈ insertRead d.context place
  | .check .field => d.checkColumn = none → EndsInSymbol ts
  | .primaryKey .field | .foreignKey .field => EndsInSymbol ts
  | _ => True

theorem Traced.endsInSymbol {ts : List Token} {d : Draft} (h : Traced ts d)
    (hnames : d.NamesColumn) : EndsInSymbol ts := by
  unfold Draft.NamesColumn at hnames
  unfold Traced at h
  split at hnames
  next hstate =>
    rw [hstate] at h
    exact h hnames
  next hstate =>
    rw [hstate] at h
    exact h
  next hstate =>
    rw [hstate] at h
    exact h
  · exact hnames.elim

namespace Draft

variable {d : Draft} {t : Token} {ts us : List Token}

/-! ## Steps that nothing is kept of -/

theorem yields_traced {move : Option Move} (h : ∀ m, move = some m → m.next.Unkept) :
    Yields (Traced us) (d.follow move) := by
  cases move with
  | none => simp
  | some m =>
      rw [yields_follow]
      intro d' _
      have hnext := h m rfl
      unfold State.Unkept at hnext
      unfold Traced
      generalize m.next = next at hnext
      split at hnext <;> first | exact hnext.elim | trivial

theorem unkept_map {α : Type} {o : Option α} {f : α → Move} (h : ∀ a, (f a).next.Unkept) :
    ∀ m, o.map f = some m → m.next.Unkept := by
  intro m hm
  obtain ⟨a, -, rfl⟩ := Option.map_eq_some_iff.mp hm
  exact h a

theorem select_traced {place : SelectPlace} :
    Yields (Traced us) (d.follow (place.move? t)) :=
  yields_traced (by fun_cases SelectPlace.move? <;> simp [State.Unkept])

theorem order_traced {place : OrderPlace} : Yields (Traced us) (d.follow (place.move? t)) :=
  yields_traced (by fun_cases OrderPlace.move? <;> simp [State.Unkept, Move.expect])

theorem update_traced {place : UpdatePlace} : Yields (Traced us) (d.follow (place.move? t)) :=
  yields_traced (by fun_cases UpdatePlace.move? <;> simp [State.Unkept, Move.expect])

theorem delete_traced {place : DeletePlace} : Yields (Traced us) (d.follow (place.move? t)) :=
  yields_traced (by fun_cases DeletePlace.move? <;> simp [State.Unkept, Move.expect])

theorem filter_traced {place : FilterPlace} {kind : Kind} :
    Yields (Traced us) (d.follow (place.move? kind t)) := by
  refine yields_traced ?_
  fun_cases FilterPlace.move?
  case case2 => exact unkept_map fun _ => trivial
  all_goals simp [State.Unkept, Move.expect]

theorem table_traced {place : TablePlace} : Yields (Traced us) (d.follow (place.move? t)) := by
  have htail : ∀ m, Move.columnTail t = some m → m.next.Unkept := by
    fun_cases Move.columnTail <;> simp [State.Unkept]
  refine yields_traced ?_
  fun_cases TablePlace.move?
  all_goals first | exact htail | simp [State.Unkept, Move.expect, Move.openColumn]

theorem view_traced {rest : List Char} {place : ViewPlace} :
    Yields (Traced us) (d.follow (place.move? t rest)) :=
  yields_traced (by fun_cases ViewPlace.move? <;> simp [State.Unkept, Move.expect])

theorem index_traced {place : IndexPlace} : Yields (Traced us) (d.follow (place.move? t)) :=
  yields_traced (by fun_cases IndexPlace.move? <;> simp [State.Unkept, Move.expect])

theorem user_traced {place : UserPlace} : Yields (Traced us) (d.follow (place.move? t)) :=
  yields_traced (by fun_cases UserPlace.move? <;> simp [State.Unkept, Move.expect])

theorem privilege_traced {place : PrivilegePlace} {kind : Kind} :
    Yields (Traced us) (d.follow (place.move? kind t)) := by
  refine yields_traced ?_
  fun_cases PrivilegePlace.move?
  case case1 => exact unkept_map fun _ => trivial
  all_goals simp [State.Unkept, Move.expect]

/-! ## Steps to the name of a column -/

theorem endsInSymbol_append {k : Keyword} (h : t.keyword? = some k)
    (hk : k = .leftParen ∨ k = .comma) : EndsInSymbol (ts ++ [t]) := by
  rw [keyword?_eq_some_iff] at h
  rcases hk with rfl | rfl
  · exact .inl (by simp [h])
  · exact .inr (by simp [h])

theorem endsInSymbol_of_is (h : t.is .leftParen = true) : EndsInSymbol (ts ++ [t]) :=
  endsInSymbol_append (by simpa [Token.is] using h) (.inl rfl)

theorem unkept_afterConstraint (scope : ConstraintScope) : (afterConstraint scope).Unkept := by
  cases scope <;> trivial

theorem check_traced {place : CheckPlace} :
    Yields (Traced (ts ++ [t])) (d.follow (place.move? d.constraintScope t)) := by
  cases place with
  | opening =>
      simp only [CheckPlace.move?, yields_follow_expect]
      intro hopen _
      exact endsInSymbol_of_is hopen
  | conjunctionOrClose =>
      simp only [CheckPlace.move?]
      split
      · refine yields_traced ?_
        rintro _ ⟨⟩
        exact unkept_afterConstraint _
      · -- a further condition belongs to the column that the check is on
        simp only [yields_follow_map, yields_follow, apply, linkCheck]
        intro link _
        split
        · simp
        next i hcheck =>
          unfold modifyColumn
          split <;> simp [Traced, hcheck]
      · simp
  | operator =>
      refine yields_traced fun m hm => ?_
      obtain ⟨⟨p, shape⟩, -, hm⟩ := Option.bind_eq_some_iff.mp hm
      obtain ⟨next, hnext, rfl⟩ := Option.map_eq_some_iff.mp hm
      cases shape <;> cases hnext <;> trivial
  | listNext =>
      simp only [CheckPlace.move?]
      split <;> simp [yields_follow, apply, Traced]
  | _ => exact yields_traced (by simp [CheckPlace.move?, Move.expect, State.Unkept])

theorem primaryKey_traced {place : PrimaryKeyPlace} :
    Yields (Traced (ts ++ [t])) (d.follow (place.move? t)) := by
  cases place with
  | opening =>
      simp only [PrimaryKeyPlace.move?, yields_follow_expect]
      exact endsInSymbol_of_is
  | field => exact yields_traced (by simp [PrimaryKeyPlace.move?, State.Unkept])
  | next =>
      simp only [PrimaryKeyPlace.move?]
      split
      next hcomma => exact yields_ok.mpr (endsInSymbol_append hcomma (.inr rfl))
      · simp [yields_follow, apply, Traced]
      · simp

theorem foreignKey_traced {place : ForeignKeyPlace} :
    Yields (Traced (ts ++ [t])) (d.follow (place.move? d.constraintScope t)) := by
  cases place with
  | opening =>
      simp only [ForeignKeyPlace.move?, yields_follow_expect]
      exact endsInSymbol_of_is
  | columnClose =>
      refine yields_traced fun m hm => ?_
      simp only [ForeignKeyPlace.move?, Option.ite_none_right_eq_some] at hm
      obtain ⟨-, ⟨⟩⟩ := hm
      exact unkept_afterConstraint _
  | _ => exact yields_traced (by simp [ForeignKeyPlace.move?, Move.expect, State.Unkept])

/-! ## Steps of an insertion -/

theorem yields_insert {c : Change} {place : InsertPlace} :
    Yields (Traced us) (d.follow (some ⟨c, .insert place⟩)) ↔
      Yields (fun d' => us ∈ insertRead d'.context place) (d.apply c) := yields_follow

theorem keyword?_of_is {k : Keyword} (h : t.is k = true) : t.keyword? = some k := by
  simpa [Token.is] using h

theorem insert_traced {place : InsertPlace} (hp : place.Pictured d)
    (h : ts ∈ insertRead d.context place) :
    Yields (Traced (ts ++ [t])) (d.follow (place.move? t)) := by
  cases place with
  | table =>
      simp only [InsertPlace.move?, yields_follow_map, yields_insert, apply, yields_ok]
      intro name hname
      exact append_mem_name h hname
  | fieldsOpen =>
      obtain ⟨table, hs⟩ := hp
      have hwidth : d.context.width = 0 := by simp [context, hs]
      simp only [InsertPlace.move?, yields_follow_expect]
      intro hopen
      change ts ++ [t] ∈ insertRead d.context .field
      rw [insertRead, hwidth, pow_zero, mul_one]
      exact append_mem_kw h (keyword?_of_is hopen)
  | field =>
      simp only [InsertPlace.move?, yields_follow_map, yields_insert, apply, yields_ok,
        context_addField]
      intro name hname
      exact insertRead_field h hname
  | fieldsNext =>
      obtain ⟨table, fields, hfields, hs⟩ := hp
      have hwidth : 0 < d.context.width := by
        simpa [context, hs] using List.length_pos_iff.mpr hfields
      simp only [InsertPlace.move?]
      split
      next hcomma => exact yields_ok.mpr (insertRead_fieldsNext_comma hwidth h hcomma)
      next hclose => exact yields_ok.mpr (insertRead_fieldsNext_close h hclose)
      · simp
  | valuesKeyword =>
      simp only [InsertPlace.move?, yields_follow_expect]
      intro hvalues
      exact insertRead_valuesKeyword h (keyword?_of_is hvalues)
  | valuesOpen =>
      simp only [InsertPlace.move?]
      split
      next hopen =>
        have hmem := insertRead_valuesOpen h (keyword?_of_is hopen)
        rwa [yields_insert, apply, yields_ok, context_addRow]
      · simp
  | value =>
      obtain ⟨table, fields, rows, row, -, -, hopen, hs⟩ := hp
      have hrow : d.statement.inserts[rows.length]? = some row := by simp [hs]
      simp only [InsertPlace.move?, yields_follow_map, yields_insert, apply]
      intro value hvalue
      obtain ⟨-, d', hd', hcontext⟩ := addValue_context hopen hrow value
      rw [hd', yields_ok, hcontext]
      exact insertRead_value h hvalue
  | valuesNext =>
      obtain ⟨table, fields, rows, row, -, -, hne, hopen, hs⟩ := hp
      have hrow : d.statement.inserts[rows.length]? = some row := by simp [hs]
      have hfilled : d.context.filled = row.length := (addValue_context hopen hrow "").1
      simp only [InsertPlace.move?]
      split
      next hcomma =>
        have hpos : 0 < d.context.filled := by
          rw [hfilled]
          exact List.length_pos_iff.mpr hne
        exact yields_ok.mpr (insertRead_valuesNext_comma hpos h hcomma)
      next hclose =>
        simp only [yields_insert, apply, closeRow, currentRow, hopen, hrow, yields_bind, yields_ok]
        split
        next hfull =>
          have hmem := insertRead_valuesNext_close (hfilled.trans hfull) h hclose
          exact yields_ok.mpr hmem
        · simp
      · simp
  | rowComma =>
      simp only [InsertPlace.move?, yields_follow_expect]
      intro hcomma
      exact insertRead_rowComma h (keyword?_of_is hcomma)

/-! ## All steps -/

theorem beginning_traced (h : ts = []) : Yields (Traced (ts ++ [t])) (d.follow (Move.begin t)) := by
  unfold Move.begin
  cases hk : t.keyword? with
  | none => simp
  | some k =>
      cases k
      case insertInto => exact yields_ok.mpr ⟨t, keyword?_eq_some_iff.mp hk, by simp [h]⟩
      all_goals simp [opening?, yields_follow, apply, Traced]

theorem accept_traced {rest : List Char} (hp : d.Pictured) (h : Traced ts d) :
    Yields (Traced (ts ++ [t])) (d.accept t rest) := by
  unfold Pictured at hp
  unfold Traced at h
  unfold accept move?
  generalize hstate : d.state = state at hp h
  cases state with
  | beginning => exact beginning_traced h
  | select place => exact select_traced
  | order place => exact order_traced
  | insert place => exact insert_traced hp h
  | update place => exact update_traced
  | delete place => exact delete_traced
  | filter place => exact filter_traced
  | table place => exact table_traced
  | check place => exact check_traced
  | primaryKey place => exact primaryKey_traced
  | foreignKey place => exact foreignKey_traced
  | view place => exact view_traced
  | index place => exact index_traced
  | user place => exact user_traced
  | privilege place => exact privilege_traced
  | done => simp

end Draft

/-! ## Rows that are too long -/

section Overfull

variable {d : Draft} {ts : List Token}

theorem pow_le_pow_mul_kstar (A : Language Token) {m n : Nat} (hn : n ≤ m) :
    A ^ m ≤ A ^ n * A∗ := by
  rw [← Nat.add_sub_cancel' hn, pow_add]
  exact mul_le_mul' le_rfl pow_le_kstar

theorem mem_overfullRow {c : Context} {A : Language Token} {m : Nat} (hwidth : 0 < c.width)
    (hm : c.width ≤ m) (hA : A ≤ maybe value)
    (h : ts ∈ insertHead c.width * rowsRead c.width *
      (kw .leftParen * ((value * kw .comma) ^ m * A))) : ts ∈ overfullRow := by
  have hle : kw .leftParen * ((value * kw .comma) ^ m * A) ≤
      kw .leftParen * ((value * kw .comma) ^ c.width * (value * kw .comma)∗ * maybe value) :=
    mul_le_mul' le_rfl (mul_le_mul' (pow_le_pow_mul_kstar _ hm) hA)
  rw [overfullRow, Language.mem_iSup]
  refine ⟨c.width - 1, ?_⟩
  rw [Nat.sub_add_cancel hwidth]
  exact mul_le_mul' le_rfl hle h

theorem Traced.overfull (h : Traced ts d) (hp : d.Pictured) (hover : d.Overfull) :
    ts ∈ overfullRow := by
  unfold Draft.Overfull at hover
  unfold Draft.Pictured at hp
  unfold Traced at h
  split at hover
  next place hstate =>
    rw [hstate] at h hp
    cases place with
    | value =>
        obtain ⟨table, fields, rows, row, hfields, -, -, hs⟩ := hp
        have hwidth : 0 < d.context.width := by
          simpa [Draft.context, hs] using List.length_pos_iff.mpr hfields
        refine mem_overfullRow (A := 1) hwidth hover le_sup_left ?_
        rwa [mul_one]
    | valuesNext =>
        obtain ⟨table, fields, rows, row, hfields, -, -, -, hs⟩ := hp
        have hwidth : 0 < d.context.width := by
          simpa [Draft.context, hs] using List.length_pos_iff.mpr hfields
        have hover : d.context.width < d.context.filled := hover
        refine mem_overfullRow (A := value) (m := d.context.filled - 1) hwidth (by omega)
          le_sup_right ?_
        rwa [pow_mul_eq_listOfSucc]
    | _ => exact hover.elim
  · exact hover.elim

end Overfull

namespace Draft

variable {d : Draft} {t : Token}

/-! ## Tokens that are taken -/

/-- The token means nothing to the grammar. -/
structure Stray (t : Token) : Prop where
  keyword : t.keyword? = none
  identifier : t.identifier? = none
  value : t.value? = none
  dataType : dataType t = .unknown
  length : columnLength? t = none
  star : t ≠ .word "*"

theorem all_isWordChar_of_ofName {s : String} (h : DataType.ofName s ≠ .unknown) :
    s.toList.all isWordChar = true := by
  have hupper : (Text.upperString s).toList.all isWordChar = true := by
    unfold DataType.ofName at h
    split at h
    case h_7 => exact absurd rfl h
    all_goals
      next hs =>
        rw [hs]
        decide +kernel
  simpa [Text.upperString, all_isWordChar_upper] using hupper

theorem unsigned?_singleton {c : Char} (hc : isWordChar c = false) :
    Text.unsigned? (String.singleton c) = none := by
  have hdigit : c.isDigit = false := by
    simp only [isWordChar, Char.isAlphanum, Bool.or_eq_false_iff] at hc
    exact hc.1.1.2
  unfold Text.unsigned?
  split <;> simp_all [Text.decimal?]

theorem stray_singleton {c : Char} (hc : isWordChar c = false) :
    Stray (.word (String.singleton c)) where
  keyword := rfl
  identifier := by simp [Token.identifier?, isIdentifier_singleton hc]
  value := by simp [Token.value?, hc]
  dataType := by
    cases htype : DataType.ofName (String.singleton c) with
    | unknown => exact htype
    | _ =>
        have hall := all_isWordChar_of_ofName (s := String.singleton c) (by simp [htype])
        simp [hc] at hall
  length := by simp [columnLength?, unsigned?_singleton hc]
  star := by
    intro hstar
    have hlist := congrArg String.toList (Token.word.inj hstar)
    have hstar : c = '*' := by simpa using hlist
    rw [hstar] at hc
    cases hc

/-- What is read off a text has a meaning or is stray. -/
theorem stray_of_not_readable {cs : List Char} (h : ¬ (scan cs).token.Readable) :
    Stray (scan cs).token := by
  cases cs with
  | nil => exact ⟨rfl, rfl, rfl, rfl, rfl, by simp [scan]⟩
  | cons c cs =>
      cases hm : longestMatch (c :: cs) with
      | some m => simp [scan, hm, Token.Readable] at h
      | none =>
          by_cases hquote : c = '\''
          · subst hquote
            cases hsplit : splitQuoted cs with
            | some p => simp [scan, hm, scanQuoted, hsplit, Token.Readable] at h
            | none =>
                simp only [scan, hm, beq_self_eq_true, if_true, scanQuoted, hsplit]
                exact ⟨rfl, rfl, rfl, rfl, rfl, by simp⟩
          · cases hc : isWordChar c with
            | true => simp [scan, hm, hquote, scanWord, hc, Token.Readable] at h
            | false =>
                simp only [scan, hm, hquote, beq_iff_eq, if_false, scanWord, hc]
                exact stray_singleton hc

/-- No place has a move on a stray token. -/
theorem move?_stray {rest : List Char} (h : Stray t) : d.move? t rest = none := by
  obtain ⟨hkeyword, hidentifier, hvalue, htype, hlength, hstar⟩ := h
  have his : ∀ k, t.is k = false := by simp [Token.is, hkeyword]
  unfold move?
  cases d.state with
  | beginning => simp [Move.begin, hkeyword]
  | select place => cases place <;> simp [SelectPlace.move?, hkeyword, hidentifier, hstar]
  | table place =>
      cases place <;>
        simp [TablePlace.move?, Move.columnTail, Move.openColumn, Move.expect, hkeyword,
          hidentifier, hvalue, htype, hlength, his]
  | order place => cases place <;> simp [OrderPlace.move?, Move.expect, hkeyword, hidentifier, his]
  | insert place =>
      cases place <;> simp [InsertPlace.move?, Move.expect, hkeyword, hidentifier, hvalue, his]
  | update place =>
      cases place <;> simp [UpdatePlace.move?, Move.expect, hkeyword, hidentifier, hvalue, his]
  | delete place => cases place <;> simp [DeletePlace.move?, Move.expect, hidentifier, his]
  | filter place =>
      cases place <;> simp [FilterPlace.move?, Move.expect, hkeyword, hidentifier, hvalue, his]
  | check place =>
      cases place <;> simp [CheckPlace.move?, Move.expect, hkeyword, hidentifier, hvalue, his]
  | primaryKey place =>
      cases place <;> simp [PrimaryKeyPlace.move?, Move.expect, hkeyword, hidentifier, his]
  | foreignKey place => cases place <;> simp [ForeignKeyPlace.move?, Move.expect, hidentifier, his]
  | view place => cases place <;> simp [ViewPlace.move?, Move.expect, hkeyword, hidentifier, his]
  | index place => cases place <;> simp [IndexPlace.move?, Move.expect, hkeyword, hidentifier, his]
  | user place => cases place <;> simp [UserPlace.move?, Move.expect, hidentifier, hvalue, his]
  | privilege place =>
      cases place <;> simp [PrivilegePlace.move?, Move.expect, hkeyword, hidentifier, his]
  | done => rfl

end Draft

/-! ## Along a run -/

namespace Parser

variable {p q : Parser} {settings : Settings} {text : String} {ts us : List Token}

/-- A run takes only tokens that have a meaning. -/
theorem Steps.readable (h : Steps p ts q) : ∀ t ∈ ts, t.Readable := by
  induction h with
  | refl => simp
  | @head p q r ts hend hstep _ ih =>
      intro t ht
      rcases List.mem_cons.mp ht with rfl | ht
      · by_contra hread
        obtain ⟨draft, hdraft, -⟩ := step_eq_ok_iff.mp hstep
        have hnone : p.draft.move? p.cursor.peek p.cursor.rest = none :=
          Draft.move?_stray (Draft.stray_of_not_readable hread)
        rw [Draft.accept, hnone] at hdraft
        cases hdraft
      · exact ih t ht

/-- The tokens of a run have led to its draft. -/
theorem Steps.traced (h : Steps p us q) (hp : p.draft.Pictured) (htraced : Traced ts p.draft) :
    Traced (ts ++ us) q.draft := by
  induction h generalizing ts with
  | refl => rwa [List.append_nil]
  | @head p q r us hend hstep hrest ih =>
      have htraced' : Traced (ts ++ [p.cursor.peek]) q.draft := by
        obtain ⟨draft, hdraft, rfl⟩ := step_eq_ok_iff.mp hstep
        exact Draft.accept_traced hp htraced draft hdraft
      have hnext := ih (step_pictured hp hstep) htraced'
      rwa [List.append_assoc] at hnext

theorem Steps.traced_ofText (h : Steps (.ofText settings text) ts q) : Traced ts q.draft := by
  have hstart : Traced [] (ofText settings text).draft := rfl
  exact h.traced rfl hstart

end Parser

end SqlReader
