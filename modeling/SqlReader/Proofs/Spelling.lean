import Mathlib.Data.List.Chain
import SqlReader.Proofs.Reading

/-!
# Writing tokens down

Tokens that are written with a blank before each of them are read again, as long
as no two neighbours make a phrase.  A list whose first token ends no phrase can
be written behind any token.
-/

namespace SqlReader

open Text

/-! ## The words of phrases -/

/-- Whether the word is the second of a phrase. -/
def closesPhrase (w : List Char) : Bool :=
  vocabulary.any fun e => e.words.length == 2 && (e.words.map String.toList)[1]? == some (upper w)

theorem reserved?_eq_none_of_closesPhrase {v w : List Char} (h : closesPhrase w = false) :
    reserved? [v, w] = none := by
  apply Option.eq_none_iff_forall_ne_some.mpr
  intro k hk
  obtain ⟨e, he, hwords, -⟩ := exists_mem_of_reserved? hk
  have hlength : e.words.length = 2 := by simpa using congrArg List.length hwords
  have hany : closesPhrase w = true :=
    List.any_eq_true.mpr ⟨e, he, by simp [hlength, hwords]⟩
  rw [h] at hany
  cases hany

theorem closesPhrase_nil : closesPhrase [] = false := by
  decide +kernel

/-! ## Spellings -/

namespace Token

def spelling (t : Token) : List Char := t.display.toList

def firstWord (t : Token) : List Char := t.spelling.takeWhile isWordChar

structure Spelled (t : Token) : Prop where
  readable : t.Readable
  token_eq : (scan t.spelling).token = t
  text_eq : (scan t.spelling).text = t.spelling

/-- The two tokens next to each other do not make a phrase. -/
def Apart (t u : Token) : Prop := reserved? [t.spelling, u.firstWord] = none

instance (t u : Token) : Decidable (t.Apart u) :=
  inferInstanceAs (Decidable (reserved? [t.spelling, u.firstWord] = none))

end Token

open Token

theorem mem_keywords (k : Keyword) : k ∈ vocabulary.map (·.keyword) := by
  cases k <;> decide

theorem scan_spelling_of_mem : ∀ e ∈ vocabulary,
    (scan (keyword e.keyword).spelling).token = keyword e.keyword ∧
      (scan (keyword e.keyword).spelling).text = (keyword e.keyword).spelling := by
  decide +kernel

theorem spelled_keyword (k : Keyword) : (keyword k).Spelled := by
  have hscan : (scan (keyword k).spelling).token = keyword k ∧
      (scan (keyword k).spelling).text = (keyword k).spelling := by
    obtain ⟨e, he, rfl⟩ := List.mem_map.mp (mem_keywords k)
    exact scan_spelling_of_mem e he
  exact ⟨trivial, hscan.1, hscan.2⟩

theorem spelled_word {s : String} (hs : IsWord s.toList) (hplain : reserved? [s.toList] = none) :
    (word s).Spelled := by
  have hnext : reserved? [s.toList, nextWord []] = none :=
    reserved?_eq_none_of_closesPhrase closesPhrase_nil
  have hscan := scan_plain hs (show WordBreak [] from rfl) hnext hplain
  rw [List.append_nil, String.ofList_toList] at hscan
  refine ⟨hs.2, ?_, ?_⟩
  · rw [spelling, display, hscan]
  · rw [spelling, display, hscan]

theorem isWord_of_isIdentifier {s : String} (h : isIdentifier s = true) : IsWord s.toList := by
  unfold isIdentifier at h
  split at h
  · cases h
  next c cs hs =>
    rw [hs]
    simp only [Bool.and_eq_true, Bool.or_eq_true, List.all_eq_true] at h
    refine ⟨by simp, List.all_eq_true.mpr ?_⟩
    intro d hd
    rcases List.mem_cons.mp hd with rfl | hd
    · rcases h.1 with ha | ha <;> simp [isWordChar, Char.isAlphanum, ha]
    · rcases h.2 d hd with ha | ha <;> simp [isWordChar, ha]

theorem spelled_of_plainName {s : String} (h : PlainName s) : (word s).Spelled :=
  spelled_word (isWord_of_isIdentifier h.identifier) h.unreserved

/-- No token that has a meaning begins with white space. -/
theorem isSpace_eq_false_of_readable {c : Char} {cs : List Char}
    (h : (scan (c :: cs)).token.Readable) : isSpace c = false := by
  cases hspace : isSpace c with
  | false => rfl
  | true =>
      have hc := isWordChar_of_isSpace hspace
      cases hm : longestMatch (c :: cs) with
      | some m =>
          obtain ⟨e, he, hme⟩ := exists_entry_of_longestIn hm
          obtain ⟨hs, hcat, -⟩ := match?_symbol_cases he hc hme
          obtain ⟨d, ds, hd⟩ := List.exists_cons_of_ne_nil hs.1
          rw [hd, List.cons_append] at hcat
          obtain ⟨rfl, -⟩ := List.cons.inj hcat
          rw [(hs.2.2 d (by simp [hd])).2.1] at hspace
          cases hspace
      | none =>
          have hquote : c ≠ '\'' := by
            rintro rfl
            cases hspace
          simp [scan, hm, hquote, scanWord, hc, Readable] at h

theorem isSpace_head_of_readable {cs : List Char} (h : (scan cs).token.Readable) :
    ∀ c ∈ cs.head?, isSpace c = false := by
  intro c hc
  obtain ⟨tail, rfl⟩ := List.head?_eq_some_iff.mp hc
  exact isSpace_eq_false_of_readable h

namespace Token.Spelled

variable {t : Token} {after : List Char}

theorem spelling_ne_nil (h : t.Spelled) : t.spelling ≠ [] := by
  intro hnil
  have htoken := h.token_eq
  rw [hnil] at htoken
  have hread := h.readable
  rw [← htoken] at hread
  cases hread

theorem head_spelling (h : t.Spelled) : ∀ c ∈ t.spelling.head?, isSpace c = false := by
  have hread := h.readable
  rw [← h.token_eq] at hread
  exact isSpace_head_of_readable hread

theorem firm (h : t.Spelled) : Firm t.spelling := by
  have hread := h.readable
  rw [← h.token_eq] at hread
  rw [← h.text_eq]
  exact firm_scan_text hread

/-- The token is read before any text that stands apart from it. -/
theorem scan_append (h : t.Spelled) (hspaced : Spaced after)
    (hphrase : reserved? [t.spelling, nextWord after] = none) :
    scan (t.spelling ++ after) = ⟨t, t.spelling, after⟩ := by
  have hread := h.readable
  rw [← h.token_eq] at hread
  have hscan := scan_fits hread (hspaced.fits _) (by rwa [h.text_eq])
  rwa [h.text_eq, h.token_eq] at hscan

end Token.Spelled

/-! ## Lists of tokens -/

def writing (ts : List Token) : List Char := ts.flatMap fun t => ' ' :: t.spelling

@[simp] theorem writing_cons (t : Token) (ts : List Token) :
    writing (t :: ts) = ' ' :: (t.spelling ++ writing ts) := rfl

/-- Tokens that are read again when they are written down. -/
structure Sayable (ts : List Token) : Prop where
  spelled : ∀ t ∈ ts, t.Spelled
  apart : ts.IsChain Apart

theorem spaced_writing (ts : List Token) : Spaced (writing ts) := by
  cases ts with
  | nil =>
      intro c hc
      cases hc
  | cons t ts => exact spaced_blank _

theorem Spaced.wordBreak {cs : List Char} (h : Spaced cs) : WordBreak cs := by
  cases cs with
  | nil => rfl
  | cons c cs => exact isWordChar_of_isSpace (h c rfl)

theorem takeWhile_append_of_wordBreak (w : List Char) {rest : List Char} (hrest : WordBreak rest) :
    (w ++ rest).takeWhile isWordChar = w.takeWhile isWordChar := by
  induction w with
  | nil => simpa using takeWhile_run (w := []) rfl hrest
  | cons c w ih =>
      rw [List.cons_append, List.takeWhile_cons, List.takeWhile_cons, ih]

theorem dropWhile_writing {t : Token} (h : t.Spelled) (ts : List Token) :
    (writing (t :: ts)).dropWhile isSpace = t.spelling ++ writing ts := by
  have hhead : ∀ c ∈ (t.spelling ++ writing ts).head?, isSpace c = false := by
    intro c hc
    rw [List.head?_append_of_ne_nil _ h.spelling_ne_nil] at hc
    exact h.head_spelling c hc
  have hblank : ∀ c ∈ [' '], isSpace c = true := by simp [isSpace]
  exact dropWhile_append_gap hblank hhead

theorem nextWord_writing {t : Token} (h : t.Spelled) (ts : List Token) :
    nextWord (writing (t :: ts)) = t.firstWord := by
  rw [nextWord, dropWhile_writing h, takeWhile_append_of_wordBreak _ (spaced_writing ts).wordBreak]
  rfl

namespace Sayable

variable {t : Token} {ts us : List Token}

theorem nil : Sayable [] := ⟨by simp, .nil⟩

theorem tail (h : Sayable (t :: ts)) : Sayable ts :=
  ⟨fun u hu => h.spelled u (List.mem_cons_of_mem _ hu), h.apart.tail⟩

/-- The first word of what follows makes no phrase of the first token. -/
theorem reserved?_head (h : Sayable (t :: ts)) :
    reserved? [t.spelling, nextWord (writing ts)] = none := by
  cases ts with
  | nil => exact reserved?_eq_none_of_closesPhrase closesPhrase_nil
  | cons u us =>
      rw [nextWord_writing (h.spelled u (by simp))]
      exact h.apart.rel

theorem closesPhrase_nextWord (h : Sayable ts)
    (hhead : ∀ t ∈ ts.head?, closesPhrase t.firstWord = false) :
    closesPhrase (nextWord (writing ts)) = false := by
  cases ts with
  | nil => exact closesPhrase_nil
  | cons t ts =>
      rw [nextWord_writing (h.spelled t (by simp))]
      exact hhead t rfl

theorem reads (h : Sayable ts) : Reads ((writing ts).dropWhile isSpace) ts [] := by
  induction ts with
  | nil => exact .refl []
  | cons t ts ih =>
      have ht := h.spelled t (by simp)
      have hscan := ht.scan_append (spaced_writing ts) h.reserved?_head
      rw [dropWhile_writing ht]
      exact Reads.head_of_scan ht.spelling_ne_nil hscan (ih h.tail)

theorem firm (h : Sayable ts) (hne : ts ≠ []) : Firm (writing ts) := by
  induction ts with
  | nil => exact absurd rfl hne
  | cons t ts ih =>
      cases ts with
      | nil =>
          have hfirm := (h.spelled t (by simp)).firm
          simpa [writing] using hfirm.append [' ']
      | cons u us =>
          have hfirm := ih h.tail (by simp)
          simpa using hfirm.append (' ' :: t.spelling)

end Sayable

/-- Tokens that can be written behind any token. -/
structure Free (ts : List Token) : Prop extends Sayable ts where
  head : ∀ t ∈ ts.head?, closesPhrase t.firstWord = false

namespace Free

variable {t : Token} {ts us : List Token}

theorem nil : Free [] := ⟨.nil, by simp⟩

theorem singleton (hspelled : t.Spelled) (hcloses : closesPhrase t.firstWord = false) :
    Free [t] := by
  refine ⟨⟨?_, .singleton t⟩, ?_⟩
  · simpa using hspelled
  · simpa using hcloses

end Free

theorem Sayable.append_free {ts us : List Token} (hts : Sayable ts) (hus : Free us) :
    Sayable (ts ++ us) := by
  constructor
  · intro t ht
    rcases List.mem_append.mp ht with ht | ht
    · exact hts.spelled t ht
    · exact hus.spelled t ht
  · refine List.isChain_append.mpr ⟨hts.apart, hus.apart, ?_⟩
    intro t _ u hu
    exact reserved?_eq_none_of_closesPhrase (hus.head u hu)

theorem Free.append {ts us : List Token} (hts : Free ts) (hus : Free us) : Free (ts ++ us) := by
  refine ⟨hts.toSayable.append_free hus, ?_⟩
  intro t ht
  cases ts with
  | nil => exact hus.head t ht
  | cons u ts => exact hts.head t ht

end SqlReader
