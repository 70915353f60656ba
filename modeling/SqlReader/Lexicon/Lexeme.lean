import SqlReader.Lexicon.Vocabulary

/-!
# Lexemes

`scan` reads one token off the start of a text and keeps the characters that
spell it.  Reserved phrases come first, then quoted literals, then words; a
character of no class is a word by itself, so scanning never fails.
-/

namespace SqlReader

open Text

/-- A token, the characters that spell it and the text that follows. -/
structure Lexeme where
  token : Token
  text : List Char
  rest : List Char

namespace Lexeme

def size (l : Lexeme) : Nat := byteLength l.text

end Lexeme

/-- The content of a quotation whose opening quote has been read, and the text
after its closing quote.  A quote after a backslash does not close. -/
def splitQuoted : List Char → Option (List Char × List Char)
  | [] => none
  | '\'' :: cs => some ([], cs)
  | '\\' :: '\'' :: cs => (splitQuoted cs).map fun p => ('\\' :: '\'' :: p.1, p.2)
  | c :: cs => (splitQuoted cs).map fun p => (c :: p.1, p.2)

def scanQuoted (cs : List Char) : Lexeme :=
  match splitQuoted cs with
  | some (content, rest) =>
    ⟨.literal (String.ofList content), '\'' :: (content ++ ['\'']), rest⟩
  | none => ⟨.unterminated (String.ofList cs), '\'' :: cs, []⟩

/-- The word that starts with `c`, or `c` by itself. -/
def scanWord (c : Char) (cs : List Char) : Lexeme :=
  if isWordChar c then
    let run := c :: cs.takeWhile isWordChar
    ⟨.word (String.ofList run), run, cs.dropWhile isWordChar⟩
  else ⟨.word (String.ofList [c]), [c], cs⟩

def scan : List Char → Lexeme
  | [] => ⟨.endOfText, [], []⟩
  | c :: cs =>
    match longestMatch (c :: cs) with
    | some m => ⟨.keyword m.keyword, m.text, m.rest⟩
    | none => if c == '\'' then scanQuoted cs else scanWord c cs

/-! ## The parts of a lexeme make up the text -/

theorem splitWord_append {w cs taken rest : List Char} (h : splitWord w cs = some (taken, rest)) :
    taken ++ rest = cs ∧ taken.length = w.length := by
  induction w generalizing cs taken rest with
  | nil =>
    obtain ⟨rfl, rfl⟩ : [] = taken ∧ cs = rest := by simpa [splitWord] using h
    simp
  | cons a w ih =>
    cases cs with
    | nil => simp [splitWord] at h
    | cons c cs =>
      simp only [splitWord] at h
      split at h
      · obtain ⟨⟨t, r⟩, hp, he⟩ := Option.map_eq_some_iff.1 h
        obtain ⟨rfl, rfl⟩ : c :: t = taken ∧ r = rest := by simpa using he
        simpa using ih hp
      · simp at h

theorem splitPhrase_append {ws : List (List Char)} {cs taken rest : List Char}
    (h : splitPhrase ws cs = some (taken, rest)) :
    taken ++ rest = cs ∧ (ws.headD []).length ≤ taken.length := by
  induction ws generalizing cs taken rest with
  | nil =>
    obtain ⟨rfl, rfl⟩ : [] = taken ∧ cs = rest := by simpa [splitPhrase] using h
    simp
  | cons w ws ih =>
    cases ws with
    | nil =>
      simp only [splitPhrase] at h
      have := splitWord_append h
      exact ⟨this.1, by simp [this.2]⟩
    | cons v ws =>
      simp only [splitPhrase] at h
      split at h
      · simp at h
      next t r hw =>
        split at h
        · simp at h
        · obtain ⟨⟨t', r'⟩, hp, he⟩ := Option.map_eq_some_iff.1 h
          obtain ⟨rfl, rfl⟩ : t ++ r.takeWhile isSpace ++ t' = taken ∧ r' = rest := by
            simpa using he
          obtain ⟨hcat, hlen⟩ := splitWord_append hw
          obtain ⟨hcat', _⟩ := ih hp
          constructor
          · rw [List.append_assoc, hcat', List.append_assoc,
              List.takeWhile_append_dropWhile, hcat]
          · simp [hlen]

theorem Entry.match?_append {e : Entry} {cs : List Char} {m : Match}
    (h : e.match? cs = some m) :
    m.text ++ m.rest = cs ∧ ((e.words.map String.toList).headD []).length ≤ m.text.length := by
  unfold Entry.match? at h
  split at h
  · simp at h
  next t r hp =>
    split at h
    · simp at h
    · obtain rfl : ⟨e.keyword, t, r⟩ = m := by simpa using h
      exact splitPhrase_append hp

theorem mem_of_foldl_longer {ms : List Match} {best : Option Match} {m : Match}
    (h : ms.foldl longer best = some m) : best = some m ∨ m ∈ ms := by
  induction ms generalizing best with
  | nil => exact .inl h
  | cons a ms ih =>
    rcases ih h with h' | h'
    · cases best with
      | none =>
        obtain rfl : a = m := by simpa [longer] using h'
        simp
      | some b =>
        simp only [longer] at h'
        split at h'
        · obtain rfl : a = m := by simpa using h'
          simp
        · exact .inl h'
    · simp [h']

theorem exists_entry_of_longestIn {es : List Entry} {cs : List Char} {m : Match}
    (h : longestIn es cs = some m) : ∃ e ∈ es, e.match? cs = some m := by
  rcases mem_of_foldl_longer h with h' | h'
  · simp at h'
  · simpa using h'

/-- No entry of the vocabulary starts with an empty word. -/
theorem vocabulary_head_pos :
    ∀ e ∈ vocabulary, 0 < ((e.words.map String.toList).headD []).length := by
  decide

theorem longestMatch_append {cs : List Char} {m : Match} (h : longestMatch cs = some m) :
    m.text ++ m.rest = cs ∧ 0 < m.text.length := by
  obtain ⟨e, he, hm⟩ := exists_entry_of_longestIn h
  have := vocabulary_head_pos e he
  have := Entry.match?_append hm
  exact ⟨this.1, by omega⟩

theorem splitQuoted_append {cs content rest : List Char}
    (h : splitQuoted cs = some (content, rest)) : content ++ '\'' :: rest = cs := by
  fun_induction splitQuoted cs generalizing content rest with
  | case1 => simp at h
  | case2 cs =>
    obtain ⟨rfl, rfl⟩ : [] = content ∧ cs = rest := by simpa using h
    rfl
  | case3 cs ih =>
    obtain ⟨⟨v, r⟩, hp, he⟩ := Option.map_eq_some_iff.1 h
    obtain ⟨rfl, rfl⟩ : '\\' :: '\'' :: v = content ∧ r = rest := by simpa using he
    simp [ih hp]
  | case4 c cs _ _ ih =>
    obtain ⟨⟨v, r⟩, hp, he⟩ := Option.map_eq_some_iff.1 h
    obtain ⟨rfl, rfl⟩ : c :: v = content ∧ r = rest := by simpa using he
    simp [ih hp]

/-- A scanned token and the text after it make up the whole text. -/
theorem scan_append (cs : List Char) : (scan cs).text ++ (scan cs).rest = cs := by
  cases cs with
  | nil => rfl
  | cons c cs =>
    simp only [scan]
    split
    next m hm => exact (longestMatch_append hm).1
    · split
      next hc =>
        have hc : c = '\'' := by simpa using hc
        subst hc
        simp only [scanQuoted]
        split
        next v r hq => simp [splitQuoted_append hq]
        · simp
      · simp only [scanWord]
        split <;> simp [List.takeWhile_append_dropWhile]

/-- Outside the end of the text a token covers at least one character. -/
theorem scan_text_length_pos {cs : List Char} (h : cs ≠ []) : 0 < (scan cs).text.length := by
  cases cs with
  | nil => exact absurd rfl h
  | cons c cs =>
    simp only [scan]
    split
    next m hm => exact (longestMatch_append hm).2
    · split
      · simp only [scanQuoted]
        split <;> simp
      · simp only [scanWord]
        split <;> simp

/-- Scanning makes progress. -/
theorem scan_rest_length_lt {cs : List Char} (h : cs ≠ []) :
    (scan cs).rest.length < cs.length := by
  have hpos := scan_text_length_pos h
  have hcat := congrArg List.length (scan_append cs)
  rw [List.length_append] at hcat
  omega

end SqlReader
