import SqlReader.Proofs.Tokenization

/-!
# Scanning by words

`scan` tries every entry of the vocabulary and keeps the longest match.
`scanByWord` tries none: it cuts off the longest word, the white space after it
and the word after that, and looks them up; what is no word it takes by one or
two characters.  The two read every text alike that begins with no quote.
-/

namespace SqlReader

open Text

/-- The keyword of the entry with this text. -/
def entryOf? (text : List Char) : Option Keyword :=
  (vocabulary.find? fun e => e.text.toList == text).map (·.keyword)

def lookUpWord (w rest : List Char) : Token × Nat :=
  let gap := rest.takeWhile isSpace
  let next := nextWord rest
  match if gap = [] then none else entryOf? (upper w ++ ' ' :: upper next) with
  | some k => (.keyword k, byteLength w + byteLength gap + byteLength next)
  | none =>
    match entryOf? (upper w) with
    | some k => (.keyword k, byteLength w)
    | none => (.word (String.ofList w), byteLength w)

def pair? : Char → Char → Option Keyword
  | '>', '=' => some .greaterEqual
  | '<', '=' => some .lessEqual
  | '!', '=' => some .notEqual
  | '<', '>' => some .notEqual
  | _, _ => none

def single? : Char → Option Keyword
  | '(' => some .leftParen
  | ')' => some .rightParen
  | ',' => some .comma
  | '=' => some .equal
  | '>' => some .greater
  | '<' => some .less
  | _ => none

def lookUpSymbol (c : Char) (rest : List Char) : Token × Nat :=
  match rest.head?.bind (pair? c) with
  | some k => (.keyword k, 2)
  | none =>
    match single? c with
    | some k => (.keyword k, 1)
    | none => (.word (String.ofList [c]), c.utf8Size)

/-- The token at the start of a text and its length in bytes, for texts that do
not begin with a quote. -/
def scanByWord : List Char → Token × Nat
  | [] => (.endOfText, 0)
  | c :: cs =>
    if isWordChar c then
      lookUpWord ((c :: cs).takeWhile isWordChar) ((c :: cs).dropWhile isWordChar)
    else lookUpSymbol c cs

/-! ## Entries by their text -/

section Entries

variable {w v : List Char}

theorem find?_vocabulary_congr {p q : Entry → Bool} (h : ∀ e ∈ vocabulary, p e = q e) :
    vocabulary.find? p = vocabulary.find? q := by
  rw [← List.head?_filter, ← List.head?_filter, List.filter_congr h]

theorem space_notMem_of_isSymbol {s : List Char} (hs : IsSymbol s) : ' ' ∉ s := by
  intro hmem
  have hspace := (hs.2.2 ' ' hmem).2.1
  cases hspace

theorem space_notMem_of_isWord (hw : IsWord w) : ' ' ∉ w := by
  intro hmem
  have hword := List.all_eq_true.mp hw.2 ' ' hmem
  cases hword

theorem isWord_upper (hw : IsWord w) : IsWord (upper w) :=
  ⟨by simpa [upper] using hw.1, by rw [all_isWordChar_upper, hw.2]⟩

/-- A word is the text of an entry if it is all of its words. -/
theorem text_eq_word_iff {e : Entry} (he : e ∈ vocabulary) (hw : IsWord w) :
    e.text.toList = w ↔ e.words.map String.toList = [w] := by
  rw [e.toList_text]
  cases form_of_mem he with
  | symbol hwords _ => simp [hwords, List.intercalate_singleton]
  | word hwords _ => simp [hwords, List.intercalate_singleton]
  | @phrase x y hwords _ _ =>
      rw [hwords, List.intercalate_cons_cons, List.intercalate_singleton]
      constructor
      · rintro rfl
        exact absurd (by simp) (space_notMem_of_isWord hw)
      · intro h
        simp at h

/-- Two words with a blank between them are the text of an entry if they are its words. -/
theorem text_eq_phrase_iff {e : Entry} (he : e ∈ vocabulary) (hw : IsWord w)
    (hv : v.all isWordChar = true) :
    e.text.toList = w ++ ' ' :: v ↔ e.words.map String.toList = [w, v] := by
  have hmem : ' ' ∈ w ++ ' ' :: v := by simp
  rw [e.toList_text]
  cases form_of_mem he with
  | @symbol s hwords hs =>
      rw [hwords, List.intercalate_singleton]
      constructor
      · rintro rfl
        exact absurd hmem (space_notMem_of_isSymbol hs)
      · intro h
        simp at h
  | @word u hwords hu =>
      rw [hwords, List.intercalate_singleton]
      constructor
      · rintro rfl
        exact absurd hmem (space_notMem_of_isWord hu)
      · intro h
        simp at h
  | @phrase x y hwords hx hy =>
      rw [hwords, List.intercalate_cons_cons, List.intercalate_singleton, List.append_assoc,
        List.singleton_append]
      constructor
      · intro h
        obtain ⟨rfl, hrest⟩ := run_unique h hx.2 hw.2 rfl rfl
        rw [(List.cons.inj hrest).2]
      · intro h
        obtain ⟨rfl, rfl⟩ : x = w ∧ y = v := by simpa using h
        rfl

theorem entryOf?_word (hw : IsWord w) : entryOf? (upper w) = reserved? [w] := by
  unfold entryOf? reserved?
  congr 1
  refine find?_vocabulary_congr fun e he => ?_
  rw [Bool.eq_iff_iff, beq_iff_eq, beq_iff_eq]
  exact text_eq_word_iff he (isWord_upper hw)

theorem entryOf?_phrase (hw : IsWord w) (hv : v.all isWordChar = true) :
    entryOf? (upper w ++ ' ' :: upper v) = reserved? [w, v] := by
  unfold entryOf? reserved?
  congr 1
  refine find?_vocabulary_congr fun e he => ?_
  rw [Bool.eq_iff_iff, beq_iff_eq, beq_iff_eq]
  exact text_eq_phrase_iff he (isWord_upper hw) (by rwa [all_isWordChar_upper])

end Entries

/-! ## Operators and delimiters by their characters -/

section Symbols

variable {a b c : Char} {k : Keyword}

def symbol? : List Char → Option Keyword
  | [a] => single? a
  | [a, b] => pair? a b
  | _ => none

theorem symbol?_of_mem : ∀ e ∈ vocabulary, ∀ s ∈ e.words.map String.toList,
    IsSymbol s → symbol? s = some e.keyword := by
  decide +kernel

theorem symbol?_of_reserved? {s : List Char} (hs : IsSymbol s) (h : reserved? [s] = some k) :
    symbol? s = some k := by
  obtain ⟨e, he, hwords, rfl⟩ := exists_mem_of_reserved? h
  refine symbol?_of_mem e he s ?_ hs
  rw [hwords, List.map_singleton, hs.upper_eq]
  exact List.mem_singleton.mpr rfl

theorem single?_eq (hc : isWordChar c = false) : single? c = reserved? [[c]] := by
  cases hk : reserved? [[c]] with
  | some k => exact symbol?_of_reserved? (isSymbol_of_reserved? hk hc) hk
  | none =>
      apply Option.eq_none_iff_forall_ne_some.mpr
      intro k hsingle
      have hreserved : reserved? [[c]] = some k := by
        revert hsingle
        fun_cases single? c <;> rintro ⟨⟩ <;> decide
      rw [hk] at hreserved
      cases hreserved

theorem pair?_eq (ha : isWordChar a = false) : pair? a b = reserved? [[a, b]] := by
  cases hk : reserved? [[a, b]] with
  | some k => exact symbol?_of_reserved? (isSymbol_of_reserved? hk ha) hk
  | none =>
      apply Option.eq_none_iff_forall_ne_some.mpr
      intro k hpair
      have hreserved : reserved? [[a, b]] = some k := by
        revert hpair
        fun_cases pair? a b <;> rintro ⟨⟩ <;> decide
      rw [hk] at hreserved
      cases hreserved

theorem utf8Size_of_single? (h : single? c = some k) : c.utf8Size = 1 := by
  revert h
  fun_cases single? c <;> rintro ⟨⟩ <;> rfl

theorem byteLength_of_pair? (h : pair? a b = some k) : byteLength [a, b] = 2 := by
  revert h
  fun_cases pair? a b <;> rintro ⟨⟩ <;> rfl

end Symbols

/-! ## The two scanners -/

theorem scan_eq_lookUpWord {w rest : List Char} (hw : IsWord w) (hrest : WordBreak rest) :
    ((scan (w ++ rest)).token, (scan (w ++ rest)).size) = lookUpWord w rest := by
  have hnext : (nextWord rest).all isWordChar = true := List.all_takeWhile
  -- without white space there is no second word, and no phrase with an empty one
  have hphrase : (if rest.takeWhile isSpace = [] then none
      else entryOf? (upper w ++ ' ' :: upper (nextWord rest))) = reserved? [w, nextWord rest] := by
    split
    next hgap =>
      symm
      apply Option.eq_none_iff_forall_ne_some.mpr
      intro k hk
      exact takeWhile_isSpace_ne_nil hrest (ne_nil_of_reserved? hk _ (by simp)) hgap
    · exact entryOf?_phrase hw hnext
  unfold lookUpWord
  simp only [hphrase, entryOf?_word hw]
  rcases scan_run_cases hw hrest with ⟨k, hk, hscan⟩ | ⟨hnone, ⟨k, hk, hscan⟩ | ⟨hk, hscan⟩⟩
  · simp [hscan, hk, Lexeme.size, Nat.add_assoc]
  · simp [hscan, hnone, hk, Lexeme.size]
  · simp [hscan, hnone, hk, Lexeme.size]

theorem scan_eq_lookUpSymbol {c : Char} (cs : List Char) (hc : isWordChar c = false)
    (hquote : c ≠ '\'') :
    ((scan (c :: cs)).token, (scan (c :: cs)).size) = lookUpSymbol c cs := by
  have hpair : ∀ rest : List Char, (∀ d ∈ rest.head?, reserved? [[c] ++ [d]] = none) →
      rest.head?.bind (pair? c) = none := by
    intro rest hrest
    apply Option.bind_eq_none_iff.mpr
    intro d hd
    rw [pair?_eq hc]
    exact hrest d hd
  unfold lookUpSymbol
  rcases scan_symbol_cases cs hc hquote with
    ⟨s, k, rest, hs, hk, hcat, hrest, hscan⟩ | ⟨hnone, hrest, hscan⟩
  · rcases hs.cases with ⟨a, rfl⟩ | ⟨a, b, rfl⟩
    · obtain ⟨rfl, rfl⟩ := List.cons.inj hcat
      have hsingle : single? c = some k := (single?_eq hc).trans hk
      simp [hscan, hpair _ hrest, hsingle, Lexeme.size, utf8Size_of_single? hsingle]
    · obtain ⟨rfl, rfl⟩ : c = a ∧ cs = b :: rest := by simpa using hcat
      have hboth : pair? c b = some k := (pair?_eq hc).trans hk
      rw [hscan]
      simp [hboth, Lexeme.size, byteLength_of_pair? hboth]
  · have hsingle : single? c = none := (single?_eq hc).trans hnone
    simp [hscan, hpair _ hrest, hsingle, Lexeme.size]

/-- A text that begins with no quote is scanned as word by word: a phrase where
the first two words make one, else the first word, reserved or not; and where no
word begins, the operator of two characters before that of one, and any other
character by itself. -/
theorem scan_eq_scanByWord {cs : List Char} (hquote : cs.head? ≠ some '\'') :
    ((scan cs).token, (scan cs).size) = scanByWord cs := by
  cases cs with
  | nil => rfl
  | cons c cs =>
      rw [scanByWord]
      cases hc : isWordChar c with
      | true =>
          obtain ⟨w, rest, hcs, hw, hrest⟩ := exists_run cs hc
          rw [if_pos rfl, hcs, takeWhile_run hw.2 hrest, dropWhile_run hw.2 hrest]
          exact scan_eq_lookUpWord hw hrest
      | false =>
          rw [if_neg (by simp)]
          exact scan_eq_lookUpSymbol cs hc (by simpa using hquote)

/-- A phrase in two lines and in mixed case, right before an operator. -/
theorem scan_eq_scanByWord_phrase :
    "Not\t\nnuLL<>".toList.head? ≠ some '\'' ∧
      ((scan "Not\t\nnuLL<>".toList).token, (scan "Not\t\nnuLL<>".toList).size) =
        (.keyword .notNull, 9) := by
  have hquote : "Not\t\nnuLL<>".toList.head? ≠ some '\'' := by decide
  refine ⟨hquote, ?_⟩
  rw [scan_eq_scanByWord hquote]
  decide +kernel

end SqlReader
