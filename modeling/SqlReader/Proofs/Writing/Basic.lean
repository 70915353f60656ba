import SqlReader.Proofs.Completion
import SqlReader.Proofs.Expressible

/-!
# Putting tokens next to each other

Two tokens may be written next to each other unless they make a phrase.  A token
that begins no phrase may stand before all tokens, one that ends no phrase may
stand behind all; most reserved words, all symbols and all literals do both.
-/

namespace SqlReader

open Token Text

/-! ## Tokens that begin no phrase -/

def opensPhrase (w : List Char) : Bool :=
  vocabulary.any fun e => e.words.length == 2 && (e.words.map String.toList)[0]? == some (upper w)

theorem reserved?_eq_none_of_opensPhrase {v w : List Char} (h : opensPhrase v = false) :
    reserved? [v, w] = none := by
  apply Option.eq_none_iff_forall_ne_some.mpr
  intro k hk
  obtain ⟨e, he, hwords, -⟩ := exists_mem_of_reserved? hk
  have hlength : e.words.length = 2 := by simpa using congrArg List.length hwords
  have hany : opensPhrase v = true :=
    List.any_eq_true.mpr ⟨e, he, by simp [hlength, hwords]⟩
  rw [h] at hany
  cases hany

/-- The token begins no phrase. -/
def Token.Shuts (t : Token) : Prop := ∀ w, reserved? [t.spelling, w] = none

/-- Whether the reserved word is also the beginning of a phrase. -/
def Keyword.opens : Keyword → Bool
  | .insert | .delete | .on => true
  | _ => false

theorem opensPhrase_of_mem : ∀ e ∈ vocabulary, e.keyword.opens = false →
    opensPhrase (keyword e.keyword).spelling = false := by
  decide +kernel

theorem shuts_keyword {k : Keyword} (h : k.opens = false) : (keyword k).Shuts := by
  obtain ⟨e, he, rfl⟩ := List.mem_map.mp (mem_keywords k)
  exact fun w => reserved?_eq_none_of_opensPhrase (opensPhrase_of_mem e he h)

/-! ## Phrases with a given word -/

/-- A word makes a phrase only of the words before it that the vocabulary has. -/
theorem reserved?_eq_none_of_first {v w first : List Char}
    (hfirst : ∀ e ∈ vocabulary, (e.words.map String.toList)[1]? = some (upper w) →
      (e.words.map String.toList)[0]? = some first) (hv : upper v ≠ first) :
    reserved? [v, w] = none := by
  apply Option.eq_none_iff_forall_ne_some.mpr
  intro k hk
  obtain ⟨e, he, hwords, -⟩ := exists_mem_of_reserved? hk
  have hv' := hfirst e he (by simp [hwords])
  rw [hwords] at hv'
  exact hv (by simpa using hv')

/-- A word makes a phrase only of the words behind it that the vocabulary has. -/
theorem reserved?_eq_none_of_second {v w second : List Char}
    (hsecond : ∀ e ∈ vocabulary, (e.words.map String.toList)[0]? = some (upper v) →
      e.words.length = 2 → (e.words.map String.toList)[1]? = some second) (hw : upper w ≠ second) :
    reserved? [v, w] = none := by
  apply Option.eq_none_iff_forall_ne_some.mpr
  intro k hk
  obtain ⟨e, he, hwords, -⟩ := exists_mem_of_reserved? hk
  have hlength : e.words.length = 2 := by simpa using congrArg List.length hwords
  have hw' := hsecond e he (by simp [hwords]) hlength
  rw [hwords] at hw'
  exact hw (by simpa using hw')

theorem upperString_eq_iff {s t : String} : upperString s = t ↔ upper s.toList = t.toList := by
  rw [upperString, ← String.toList_inj, String.toList_ofList]

/-! ## Literals -/

theorem Quotable.tail {c : Char} {cs : List Char} (h : Quotable (c :: cs))
    (hescape : c = '\\' → cs.head? ≠ some '\'') : Quotable cs := by
  constructor
  · intro before after hcs
    have hlast := h.escaped (c :: before) after (by simp [hcs])
    cases before with
    | nil =>
        obtain rfl : c = '\\' := by simpa using hlast
        exact absurd (by simp [hcs]) (hescape rfl)
    | cons b before => simpa using hlast
  · intro hlast
    have hne : cs ≠ [] := by
      rintro rfl
      cases hlast
    refine h.closed ?_
    rw [List.getLast?_cons_of_ne_nil hne, hlast]

theorem Quotable.tail_escape {cs : List Char} (h : Quotable ('\\' :: '\'' :: cs)) :
    Quotable cs := by
  constructor
  · intro before after hcs
    have hlast := h.escaped ('\\' :: '\'' :: before) after (by simp [hcs])
    cases before with
    | nil => simp at hlast
    | cons b before => simpa using hlast
  · intro hlast
    refine h.closed ?_
    cases cs with
    | nil => cases hlast
    | cons d cs => simpa using hlast

theorem splitQuoted_quotable {cs after : List Char} (h : Quotable cs) :
    splitQuoted (cs ++ '\'' :: after) = some (cs, after) := by
  generalize htext : cs ++ '\'' :: after = text
  fun_induction splitQuoted text generalizing cs with
  | case1 => simp at htext
  | case2 rest =>
      cases cs with
      | nil => simpa using htext.symm
      | cons c cs =>
          obtain ⟨rfl, -⟩ := List.cons.inj htext
          have hescaped := h.escaped [] cs rfl
          cases hescaped
  | case3 rest ih =>
      cases cs with
      | nil => simp at htext
      | cons c cs =>
          obtain ⟨rfl, hrest⟩ := List.cons.inj htext
          cases cs with
          | nil => exact absurd rfl h.closed
          | cons d cs =>
              obtain ⟨rfl, hafter⟩ := List.cons.inj hrest
              rw [ih h.tail_escape hafter]
              rfl
  | case4 c rest hquote hescape ih =>
      cases cs with
      | nil => exact absurd (List.cons.inj htext).1.symm hquote
      | cons d cs =>
          obtain ⟨rfl, hrest⟩ := List.cons.inj htext
          have htail : Quotable cs := by
            refine h.tail fun hslash hhead => ?_
            obtain ⟨cs', rfl⟩ := List.head?_eq_some_iff.mp hhead
            exact hescape _ hslash hrest.symm
          rw [ih htail hrest]
          rfl

theorem spelled_literal {value : String} (h : QuotableValue value) : (literal value).Spelled := by
  have hsplit : splitQuoted (value.toList ++ '\'' :: []) = some (value.toList, []) :=
    splitQuoted_quotable h
  have hscan := scan_literal hsplit
  rw [List.append_nil, String.ofList_toList] at hscan
  have hspelling : (literal value).spelling = '\'' :: (value.toList ++ ['\'']) := by
    simp [spelling, display]
  refine ⟨trivial, ?_, ?_⟩
  · rw [hspelling, hscan]
  · rw [hspelling, hscan]

theorem isWordChar_quote : isWordChar '\'' = false := by decide

theorem shuts_literal (value : String) : (literal value).Shuts := by
  intro w
  apply reserved?_pair_eq_none
  simp [spelling, display, isWordChar_quote]

theorem closesPhrase_literal (value : String) : closesPhrase (literal value).firstWord = false := by
  have hfirst : (literal value).firstWord = [] := by
    simp [firstWord, spelling, display, isWordChar_quote]
  rw [hfirst]
  exact closesPhrase_nil

/-! ## Lists that anything may follow -/

/-- Tokens that can be written before any others. -/
structure Shut (ts : List Token) : Prop extends Sayable ts where
  last : ∀ t ∈ ts.getLast?, t.Shuts

theorem Sayable.append {ts us : List Token} (hts : Sayable ts) (hus : Sayable us)
    (h : ∀ t ∈ ts.getLast?, ∀ u ∈ us.head?, t.Apart u) : Sayable (ts ++ us) := by
  refine ⟨?_, List.isChain_append.mpr ⟨hts.apart, hus.apart, h⟩⟩
  intro t ht
  rcases List.mem_append.mp ht with ht | ht
  · exact hts.spelled t ht
  · exact hus.spelled t ht

theorem Shut.append_sayable {ts us : List Token} (hts : Shut ts) (hus : Sayable us) :
    Sayable (ts ++ us) :=
  hts.toSayable.append hus fun t ht u _ => hts.last t ht u.firstWord

theorem Sayable.singleton {t : Token} (h : t.Spelled) : Sayable [t] :=
  ⟨by simpa using h, .singleton t⟩

theorem Shut.singleton {t : Token} (h : t.Spelled) (hshuts : t.Shuts) : Shut [t] :=
  ⟨.singleton h, by simpa using hshuts⟩

/-- The end of a list decides whether others may follow. -/
theorem Sayable.shut_append {ts us : List Token} (h : Sayable (ts ++ us)) (hus : Shut us)
    (hne : us ≠ []) : Shut (ts ++ us) := by
  refine ⟨h, fun t ht => hus.last t ?_⟩
  rwa [List.getLast?_append_of_ne_nil _ hne] at ht

theorem Shut.append {ts us : List Token} (hts : Shut ts) (hus : Shut us) : Shut (ts ++ us) := by
  cases us with
  | nil => simpa using hts
  | cons u us => exact (hts.append_sayable hus.toSayable).shut_append hus (by simp)

theorem Free.cons_keyword {k : Keyword} {ts : List Token} (hcloses : k.closes = false)
    (hopens : k.opens = false) (hts : Sayable ts) : Free (.keyword k :: ts) := by
  have hshut : Shut [.keyword k] := .singleton (spelled_keyword k) (shuts_keyword hopens)
  refine ⟨hshut.append_sayable hts, ?_⟩
  simpa using closesPhrase_keyword hcloses

theorem shut_keyword {k : Keyword} (hopens : k.opens = false) : Shut [.keyword k] :=
  .singleton (spelled_keyword k) (shuts_keyword hopens)

theorem free_keyword {k : Keyword} (hcloses : k.closes = false) : Free [.keyword k] :=
  .singleton (spelled_keyword k) (closesPhrase_keyword hcloses)

theorem shut_literal {value : String} (h : QuotableValue value) : Shut [.literal value] :=
  .singleton (spelled_literal h) (shuts_literal value)

theorem free_literal {value : String} (h : QuotableValue value) : Free [.literal value] :=
  .singleton (spelled_literal h) (closesPhrase_literal value)

theorem sayable_name {name : String} (h : PlainName name) : Sayable [.word name] :=
  .singleton (spelled_of_plainName h)

/-! ## Lists and brackets -/

def commaList {α : Type} (item : α → List Token) : List α → List Token
  | [] => []
  | a :: as => item a ++ as.flatMap fun b => .keyword .comma :: item b

theorem commaList_congr {α β : Type} {item : α → List Token} {item' : β → List Token}
    {as : List α} {bs : List β} (h : as.map item = bs.map item') :
    commaList item as = commaList item' bs := by
  cases as with
  | nil =>
      obtain rfl : bs = [] := List.map_eq_nil_iff.mp h.symm
      rfl
  | cons a as =>
      obtain ⟨b, bs, rfl, hb, hbs⟩ := List.map_eq_cons_iff.mp h.symm
      have hrest := congrArg (List.flatMap fun ts => Token.keyword .comma :: ts) hbs
      simpa [commaList, hb, List.flatMap_map] using hrest.symm

def bracketed (ts : List Token) : List Token :=
  .keyword .leftParen :: (ts ++ [.keyword .rightParen])

section Lists

variable {α : Type} {item : α → List Token} {as : List α} {ts : List Token}

theorem free_flatMap (h : ∀ a ∈ as, Free (item a)) : Free (as.flatMap item) := by
  induction as with
  | nil => exact .nil
  | cons a as ih =>
      rw [List.flatMap_cons]
      exact (h a (by simp)).append (ih fun b hb => h b (by simp [hb]))

theorem shut_flatMap (h : ∀ a ∈ as, Shut (item a)) : Shut (as.flatMap item) := by
  induction as with
  | nil => exact ⟨.nil, by simp⟩
  | cons a as ih =>
      rw [List.flatMap_cons]
      exact (h a (by simp)).append (ih fun b hb => h b (by simp [hb]))

theorem sayable_commaList (h : ∀ a ∈ as, Sayable (item a)) : Sayable (commaList item as) := by
  cases as with
  | nil => exact .nil
  | cons a as =>
      refine (h a (by simp)).append_free (free_flatMap fun b hb => ?_)
      exact Free.cons_keyword rfl rfl (h b (by simp [hb]))

theorem mem_commaList {t : Token} (h : t ∈ commaList item as) :
    t = .keyword .comma ∨ ∃ a ∈ as, t ∈ item a := by
  cases as with
  | nil => simp [commaList] at h
  | cons a as =>
      simp only [commaList, List.mem_append, List.mem_flatMap, List.mem_cons] at h ⊢
      rcases h with h | ⟨b, hb, rfl | h⟩
      · exact .inr ⟨a, .inl rfl, h⟩
      · exact .inl rfl
      · exact .inr ⟨b, .inr hb, h⟩

theorem free_bracketed (h : Sayable ts) : Free (bracketed ts) :=
  Free.cons_keyword rfl rfl (h.append_free (free_keyword rfl))

theorem shut_bracketed (h : Sayable ts) : Shut (bracketed ts) := by
  have hclose : Shut [.keyword .rightParen] := shut_keyword rfl
  have hsplit : bracketed ts = (.keyword .leftParen :: ts) ++ [.keyword .rightParen] := rfl
  have hall : Sayable (bracketed ts) := (free_bracketed h).toSayable
  rw [hsplit] at hall ⊢
  exact hall.shut_append hclose (by simp)

end Lists

end SqlReader
