import SqlReader.Proofs.Layout
import SqlReader.Proofs.Writing

/-!
# What the tokens of a text keep

A text is made of the characters of its tokens and the white space before them,
and the tokens, shown one after the other, are read again as the same tokens.
-/

namespace SqlReader

open Text

/-! ## The entries of the vocabulary as texts -/

theorem Entry.toList_text (e : Entry) :
    e.text.toList = [' '].intercalate (e.words.map String.toList) := by
  rw [Entry.text, String.toList_intercalate]
  rfl

section Entries

variable {k : Keyword} {w v : List Char}

theorem exists_text_of_reserved? (h : reserved? [w] = some k) :
    ∃ e ∈ vocabulary, e.keyword = k ∧ e.text.toList = upper w := by
  obtain ⟨e, he, hwords, hk⟩ := exists_mem_of_reserved? h
  refine ⟨e, he, hk, ?_⟩
  rw [e.toList_text, hwords, List.map_singleton, List.intercalate_singleton]

theorem exists_text_of_phrase (h : reserved? [w, v] = some k) :
    ∃ e ∈ vocabulary, e.keyword = k ∧ e.text.toList = upper w ++ ' ' :: upper v := by
  obtain ⟨e, he, hwords, hk⟩ := exists_mem_of_reserved? h
  refine ⟨e, he, hk, ?_⟩
  rw [e.toList_text, hwords, List.map_cons, List.map_singleton, List.intercalate_cons_cons,
    List.intercalate_singleton, List.append_assoc, List.singleton_append]

/-- No entry has white space in a word. -/
theorem any_isSpace_of_mem : ∀ e ∈ vocabulary, ∀ w ∈ e.words.map String.toList,
    w.any isSpace = false := by
  decide +kernel

theorem isSpace_eq_false_of_reserved? {ws : List (List Char)} (h : reserved? ws = some k)
    (hw : w ∈ ws) : ∀ c ∈ upper w, isSpace c = false := by
  obtain ⟨e, he, hwords, -⟩ := exists_mem_of_reserved? h
  have hany := any_isSpace_of_mem e he _ (hwords ▸ List.mem_map_of_mem hw)
  simpa using hany

/-- The text of an entry is a spelling of what it means. -/
theorem spelledBy_text {e : Entry} (he : e ∈ vocabulary) :
    (Token.keyword e.keyword).SpelledBy e.text.toList := by
  have hreserved := reserved?_of_mem e he
  rw [e.toList_text]
  cases form_of_mem he with
  | symbol hwords _ =>
      rw [hwords] at hreserved ⊢
      rw [List.intercalate_singleton]
      exact .reserved hreserved
  | word hwords _ =>
      rw [hwords] at hreserved ⊢
      rw [List.intercalate_singleton]
      exact .reserved hreserved
  | phrase hwords _ _ =>
      rw [hwords] at hreserved ⊢
      rw [List.intercalate_cons_cons, List.intercalate_singleton]
      exact .phrase hreserved (by simp) (by simp [isSpace])

/-- Messages show a reserved word as the vocabulary has it. -/
theorem exists_text_eq_spelling : ∀ e ∈ vocabulary, ∃ e' ∈ vocabulary,
    e'.keyword = e.keyword ∧ e'.text = e.keyword.spelling := by
  decide +kernel

theorem spelledBy_spelling_keyword (k : Keyword) :
    (Token.keyword k).SpelledBy (Token.keyword k).spelling := by
  obtain ⟨e, he, rfl⟩ := List.mem_map.mp (mem_keywords k)
  obtain ⟨e', he', hk, htext⟩ := exists_text_eq_spelling e he
  have hspelled := spelledBy_text he'
  rwa [hk, htext] at hspelled

end Entries

/-! ## The characters of a token -/

/-- The token at the start of a text is spelled there. -/
theorem spelledBy_scan {cs : List Char} (hne : cs ≠ []) :
    (scan cs).token.SpelledBy (scan cs).text := by
  obtain ⟨c, cs, rfl⟩ := List.exists_cons_of_ne_nil hne
  cases hc : isWordChar c with
  | true =>
      obtain ⟨w, rest, hcs, hw, hrest⟩ := exists_run cs hc
      rw [hcs]
      rcases scan_run_cases hw hrest with ⟨k, hk, hscan⟩ | ⟨-, ⟨k, hk, hscan⟩ | ⟨-, hscan⟩⟩
      · have hnext := ne_nil_of_reserved? hk (nextWord rest) (by simp)
        rw [hscan]
        exact .phrase hk (takeWhile_isSpace_ne_nil hrest hnext)
          (List.all_eq_true.mp List.all_takeWhile)
      · rw [hscan]
        exact .reserved hk
      · rw [hscan]
        simpa using Token.SpelledBy.word (String.ofList w)
  | false =>
      by_cases hquote : c = '\''
      · subst hquote
        simp only [scan, longestMatch_quote, beq_self_eq_true, if_true, scanQuoted]
        split
        next content rest _ => simpa using Token.SpelledBy.literal (String.ofList content)
        · simpa using Token.SpelledBy.unterminated (String.ofList cs)
      · rcases scan_symbol_cases cs hc hquote with ⟨s, k, rest, -, hk, -, -, hscan⟩ | ⟨-, -, hscan⟩
        · rw [hscan]
          exact .reserved hk
        · rw [hscan]
          simpa using Token.SpelledBy.word (String.ofList [c])

/-- Nothing follows a quotation that never closes. -/
theorem rest_eq_nil_of_unterminated {cs : List Char} {s : String}
    (h : (scan cs).token = .unterminated s) : (scan cs).rest = [] := by
  cases cs with
  | nil => rfl
  | cons c cs =>
      simp only [scan] at h ⊢
      split at h
      · cases h
      · split at h
        next hquote =>
          rw [if_pos hquote]
          simp only [scanQuoted] at h ⊢
          split at h
          · cases h
          · rfl
        · simp only [scanWord] at h
          split at h <;> cases h

/-- One blank in place of each run of white space, where the run ends. -/
def collapse : List Char → List Char
  | [] => []
  | c :: cs =>
    if isSpace c then if cs.head?.any isSpace then collapse cs else ' ' :: collapse cs
    else c :: collapse cs

section Collapse

variable {w gap cs : List Char}

theorem collapse_append (hw : ∀ c ∈ w, isSpace c = false) (cs : List Char) :
    collapse (w ++ cs) = w ++ collapse cs := by
  induction w with
  | nil => rfl
  | cons c w ih =>
      rw [List.cons_append, collapse, hw c (by simp), if_neg (by simp),
        ih fun d hd => hw d (List.mem_cons_of_mem c hd), List.cons_append]

theorem collapse_gap (hgap : gap ≠ []) (hspace : ∀ c ∈ gap, isSpace c = true)
    (hcs : ∀ c ∈ cs.head?, isSpace c = false) : collapse (gap ++ cs) = ' ' :: collapse cs := by
  induction gap with
  | nil => exact absurd rfl hgap
  | cons a gap ih =>
      rw [List.cons_append, collapse, hspace a (by simp), if_pos rfl]
      cases gap with
      | nil =>
          have hnext : ¬ cs.head?.any isSpace = true := by simpa [Option.any_eq_true] using hcs
          rw [List.nil_append, if_neg hnext]
      | cons b gap =>
          have hb : isSpace b = true := hspace b (by simp)
          rw [if_pos (by simp [hb]), ih (by simp) fun c hc => hspace c (List.mem_cons_of_mem a hc)]

end Collapse

/-- The characters with which a token is written: a word as it is, a literal
with both quotes, a quotation that never closes with the one that it has, and a
reserved word as the vocabulary has it, up to case and white space. -/
def Token.WrittenAs (f : List Char) : Token → Prop
  | .keyword k => ∃ e ∈ vocabulary, e.keyword = k ∧ e.text.toList = collapse (upper f)
  | .literal s => f = '\'' :: (s.toList ++ ['\''])
  | .word s => f = s.toList
  | .unterminated s => f = '\'' :: s.toList
  | .endOfText => False

theorem upper_spaced {w gap v : List Char} (hspace : ∀ c ∈ gap, isSpace c = true) :
    upper (w ++ gap ++ v) = upper w ++ (gap ++ upper v) := by
  have hgap : upper gap = gap := upper_eq_self fun c hc => isWordChar_of_isSpace (hspace c hc)
  rw [upper, List.map_append, List.map_append, List.append_assoc]
  exact congrArg (fun g => upper w ++ (g ++ upper v)) hgap

theorem Token.SpelledBy.writtenAs {t : Token} {f : List Char} (h : t.SpelledBy f) :
    t.WrittenAs f := by
  cases h with
  | reserved h =>
      obtain ⟨e, he, hk, htext⟩ := exists_text_of_reserved? h
      have hspace := isSpace_eq_false_of_reserved? h (List.mem_singleton.mpr rfl)
      refine ⟨e, he, hk, ?_⟩
      rw [htext, ← List.append_nil (upper f), collapse_append hspace, collapse]
  | @phrase k w gap v h hgap hspace =>
      obtain ⟨e, he, hk, htext⟩ := exists_text_of_phrase h
      have hw := isSpace_eq_false_of_reserved? (w := w) h (by simp)
      have hv := isSpace_eq_false_of_reserved? (w := v) h (by simp)
      have hhead : ∀ c ∈ (upper v).head?, isSpace c = false :=
        fun c hc => hv c (List.mem_of_mem_head? hc)
      refine ⟨e, he, hk, ?_⟩
      rw [htext, upper_spaced hspace, collapse_append hw, collapse_gap hgap hspace hhead,
        ← List.append_nil (upper v), collapse_append hv, collapse]
  | word => rfl
  | literal => rfl
  | unterminated => rfl

/-! ## The text around the tokens -/

/-- White space does not end a trimmed text. -/
theorem eq_nil_of_trimEnd {gap : List Char} (hspace : ∀ c ∈ gap, isSpace c = true)
    (h : trimEnd gap = gap) : gap = [] := by
  rw [trimEnd_eq_self_iff] at h
  apply List.getLast?_eq_none_iff.mp
  apply Option.eq_none_iff_forall_ne_some.mpr
  intro c hc
  have hblank := isBlank_of_isSpace (hspace c (List.mem_of_getLast? hc))
  rw [h c hc] at hblank
  cases hblank

/-- A token in its place: white space, then the characters of the token. -/
structure Piece where
  gap : List Char
  text : List Char
  token : Token
  space : ∀ c ∈ gap, isSpace c = true
  text_ne_nil : text ≠ []
  written : token.WrittenAs text

def Piece.chars (p : Piece) : List Char := p.gap ++ p.text

/-- A text that begins at the position `start` is made of the pieces, which hold
the tokens at their positions. -/
structure Covers (pieces : List Piece) (start : Nat) (cs : List Char)
    (tokens : List (Nat × Token)) : Prop where
  text_eq : cs = pieces.flatMap Piece.chars
  length_eq : tokens.length = pieces.length
  placed : ∀ before p after, pieces = before ++ p :: after →
    tokens[before.length]? =
      some (start + byteLength (before.flatMap Piece.chars ++ p.gap), p.token)
  closed : ∀ before p after, pieces = before ++ p :: after →
    ∀ s, p.token = .unterminated s → after = []

namespace Covers

variable {pieces : List Piece} {start : Nat} {cs : List Char} {tokens : List (Nat × Token)}

theorem nil (start : Nat) : Covers [] start [] [] := by
  constructor
  · rfl
  · rfl
  · simp
  · simp

theorem cons (p : Piece) (hclosed : ∀ s, p.token = .unterminated s → pieces = [])
    (h : Covers pieces (start + byteLength p.chars) cs tokens) :
    Covers (p :: pieces) start (p.chars ++ cs)
      ((start + byteLength p.gap, p.token) :: tokens) := by
  constructor
  · rw [h.text_eq, List.flatMap_cons]
  · rw [List.length_cons, List.length_cons, h.length_eq]
  · intro before q after hsplit
    rcases List.cons_eq_append_iff.mp hsplit with ⟨rfl, hcons⟩ | ⟨before, rfl, hrest⟩
    · obtain ⟨rfl, -⟩ := List.cons.inj hcons
      rfl
    · rw [List.length_cons, List.getElem?_cons_succ, h.placed before q after hrest,
        List.flatMap_cons, List.append_assoc, byteLength_append p.chars, Nat.add_assoc]
  · intro before q after hsplit s hs
    rcases List.cons_eq_append_iff.mp hsplit with ⟨rfl, hcons⟩ | ⟨before, rfl, hrest⟩
    · obtain ⟨rfl, rfl⟩ := List.cons.inj hcons
      exact hclosed s hs
    · exact h.closed before q after hrest s hs

theorem eq_nil (h : Covers pieces start [] tokens) : pieces = [] := by
  cases pieces with
  | nil => rfl
  | cons p pieces =>
      have hnil := h.text_eq.symm
      rw [List.flatMap_cons, List.append_eq_nil_iff, Piece.chars, List.append_eq_nil_iff] at hnil
      exact absurd hnil.1.2 p.text_ne_nil

end Covers

def Cursor.piece (c : Cursor) (hne : c.rest ≠ []) (gap : List Char)
    (hspace : ∀ d ∈ gap, isSpace d = true) : Piece where
  gap := gap
  text := c.fragment
  token := c.peek
  space := hspace
  text_ne_nil := List.length_pos_iff.mp (scan_text_length_pos hne)
  written := (spelledBy_scan hne).writtenAs

theorem Cursor.exists_covers (c : Cursor) {start : Nat} {gap : List Char}
    (hspace : ∀ d ∈ gap, isSpace d = true) (hoffset : c.offset = start + byteLength gap)
    (htrim : trimEnd (gap ++ c.rest) = gap ++ c.rest) :
    ∃ pieces, Covers pieces start (gap ++ c.rest) c.tokens := by
  fun_induction Cursor.tokens c generalizing start gap with
  | case1 c hend =>
      have hrest : c.rest = [] := by simpa [Cursor.atEnd] using hend
      rw [hrest, List.append_nil] at htrim ⊢
      rw [eq_nil_of_trimEnd hspace htrim]
      exact ⟨[], .nil start⟩
  | case2 c hend ih =>
      have hne := Cursor.rest_ne_nil (Bool.eq_false_of_not_eq_true hend)
      let p := c.piece hne gap hspace
      have hcat : c.fragment ++ c.lexeme.rest = c.rest := scan_append c.rest
      have hsplit : c.lexeme.rest.takeWhile isSpace ++ c.pop.rest = c.lexeme.rest :=
        List.takeWhile_append_dropWhile
      have hoffset' : c.pop.offset =
          start + byteLength p.chars + byteLength (c.lexeme.rest.takeWhile isSpace) := by
        rw [Cursor.byteLength_takeWhile_isSpace, Piece.chars, byteLength_append, ← Nat.add_assoc]
        exact congrArg (· + c.lexeme.size + _) hoffset
      have htrim' : trimEnd c.lexeme.rest = c.lexeme.rest := by
        rw [← hcat, ← List.append_assoc] at htrim
        exact trimEnd_of_suffix htrim
      obtain ⟨pieces, hcovers⟩ :=
        ih (List.all_eq_true.mp List.all_takeWhile) hoffset' (by rwa [hsplit])
      rw [hsplit] at hcovers
      refine ⟨p :: pieces, ?_⟩
      have hclosed : ∀ s, p.token = .unterminated s → pieces = [] := by
        intro s hs
        have hrest : c.lexeme.rest = [] := rest_eq_nil_of_unterminated hs
        rw [hrest] at hcovers
        exact hcovers.eq_nil
      have hcons := hcovers.cons p hclosed
      rwa [Piece.chars, List.append_assoc, show p.text ++ c.lexeme.rest = c.rest from hcat,
        show start + byteLength p.gap = c.offset from hoffset.symm] at hcons

/-- Nothing is lost: a text without the blanks at its end is the white space and
the characters of its tokens, each at its position. -/
theorem tokenize_covers (text : String) :
    ∃ pieces, Covers pieces 0 (trimEnd text.toList) (tokenize text) := by
  generalize hcs : trimEnd text.toList = cs
  have htrim : trimEnd cs = cs := hcs ▸ trimEnd_trimEnd _
  have hsplit : cs.takeWhile isSpace ++ cs.dropWhile isSpace = cs :=
    List.takeWhile_append_dropWhile
  have hrest : (Cursor.ofText text.toList).rest = cs.dropWhile isSpace := by
    rw [Cursor.ofText, hcs, Cursor.skipSpace]
  have hoffset : (Cursor.ofText text.toList).offset = 0 + byteLength (cs.takeWhile isSpace) := by
    rw [Cursor.ofText, hcs, Cursor.byteLength_takeWhile_isSpace, Cursor.skipSpace]
  have hcovers := (Cursor.ofText text.toList).exists_covers
    (List.all_eq_true.mp List.all_takeWhile) hoffset (by rwa [hrest, hsplit])
  rwa [hrest, hsplit] at hcovers

/-! ## Tokens that are shown -/

def joined (ts : List Token) : List Char := [' '].intercalate (ts.map Token.spelling)

def shown (text : String) : String :=
  " ".intercalate ((tokenize text).map fun p => p.2.display)

theorem toList_shown (text : String) :
    (shown text).toList = joined ((tokenize text).map (·.2)) := by
  rw [shown, String.toList_intercalate, List.map_map, joined, List.map_map]
  rfl

theorem joined_cons (t : Token) (ts : List Token) :
    joined (t :: ts) = t.spelling ++ (if ts = [] then [] else [' ']) ++ joined ts := by
  cases ts with
  | nil => simp [joined]
  | cons u us => simp [joined, List.intercalate_cons_cons]

namespace Token.SpelledBy

variable {t : Token} {f : List Char}

/-- Messages show everything but reserved words as it is written. -/
theorem spelling_cases (h : t.SpelledBy f) : (∃ k, t = .keyword k) ∨ t.spelling = f := by
  cases h with
  | @reserved k w _ => exact .inl ⟨k, rfl⟩
  | @phrase k w gap v _ _ _ => exact .inl ⟨k, rfl⟩
  | word => exact .inr rfl
  | literal => exact .inr (by simp [Token.spelling, Token.display])
  | unterminated => exact .inr (by simp [Token.spelling, Token.display])

theorem of_spelling (h : t.SpelledBy f) : t.SpelledBy t.spelling := by
  rcases h.spelling_cases with ⟨k, rfl⟩ | heq
  · exact spelledBy_spelling_keyword k
  · rwa [heq]

theorem spelling_ne_nil (h : t.SpelledBy f) (hne : f ≠ []) : t.spelling ≠ [] := by
  rcases h.spelling_cases with ⟨k, rfl⟩ | heq
  · exact (spelled_keyword k).spelling_ne_nil
  · rwa [heq]

theorem trimEnd_spelling (h : t.SpelledBy f) (htrim : trimEnd f = f) :
    trimEnd t.spelling = t.spelling := by
  rcases h.spelling_cases with ⟨k, rfl⟩ | heq
  · have hnil : ∀ c ∈ ([] : List Char), isBlank c = true := by simp
    simpa using trimEnd_append (spelled_keyword k).firm hnil
  · rwa [heq]

end Token.SpelledBy

theorem Reads.eq_nil {ts : List Token} {rest : List Char} (h : Reads [] ts rest) : ts = [] := by
  cases h with
  | refl => rfl
  | head hne _ => exact absurd rfl hne

theorem Reads.relaid_joined {cs : List Char} {ts : List Token} (h : Reads cs ts []) :
    Relaid cs (joined ts) := by
  generalize hnil : ([] : List Char) = rest at h
  induction h with
  | refl => exact hnil ▸ .nil
  | @head cs rest ts hne hreads ih =>
      have hspelled := (spelledBy_scan hne).of_spelling
      rw [joined_cons]
      apply Relaid.cons hne hspelled
      · split <;> simp [isSpace]
      · intro _
        split
        next hts => exact .inr (by simp [hts, joined])
        · exact .inl (by simp)
      · intro hend
        rw [hend] at hreads
        rw [if_pos hreads.eq_nil]
      · exact ih hnil

theorem Reads.joined_ne_nil {cs : List Char} {ts : List Token} (h : Reads cs ts [])
    (hne : cs ≠ []) : joined ts ≠ [] := by
  cases h with
  | refl => exact absurd rfl hne
  | head hne _ =>
      have hspelling := (spelledBy_scan hne).spelling_ne_nil
        (List.length_pos_iff.mp (scan_text_length_pos hne))
      rw [joined_cons]
      simp [hspelling]

/-- No blank is trimmed off the tokens of a trimmed text. -/
theorem Reads.trimEnd_joined {cs : List Char} {ts : List Token} (h : Reads cs ts [])
    (htrim : trimEnd cs = cs) : trimEnd (joined ts) = joined ts := by
  generalize hnil : ([] : List Char) = rest at h
  induction h with
  | refl => rfl
  | @head cs rest ts hne hreads ih =>
      subst hnil
      rw [← scan_append cs] at htrim
      have hrest := trimEnd_of_suffix htrim
      by_cases hend : (scan cs).rest.dropWhile isSpace = []
      · have hspace : ∀ c ∈ (scan cs).rest, isSpace c = true := List.dropWhile_eq_nil_iff.mp hend
        rw [eq_nil_of_trimEnd hspace hrest, List.append_nil] at htrim
        rw [hend] at hreads
        rw [joined_cons, hreads.eq_nil]
        simpa [joined] using (spelledBy_scan hne).trimEnd_spelling htrim
      · rw [joined_cons]
        exact trimEnd_append_of_trimmed _ (hreads.joined_ne_nil hend)
          (ih (trimEnd_dropWhile isSpace hrest) rfl)

/-- Tokens that are shown are read again as the same tokens, so showing them a
second time changes nothing. -/
theorem tokenize_shown (text : String) :
    (tokenize (shown text)).map (·.2) = (tokenize text).map (·.2) ∧
      shown (shown text) = shown text := by
  have hreads := Cursor.reads_tokens (Cursor.ofText text.toList)
  have hrelaid := hreads.relaid_joined
  have htrim : trimEnd (shown text).toList = (shown text).toList := by
    rw [toList_shown]
    exact hreads.trimEnd_joined (trimEnd_dropWhile isSpace (trimEnd_trimEnd _))
  have hdrop : (shown text).toList.dropWhile isSpace = (shown text).toList := by
    have hhead := hrelaid.resembles.isSpace_eq_false (head_dropWhile_isSpace _)
    have hnil : ∀ c ∈ ([] : List Char), isSpace c = true := by simp
    rw [toList_shown]
    exact dropWhile_append_gap hnil hhead
  have htokens : (tokenize (shown text)).map (·.2) = (tokenize text).map (·.2) := by
    obtain ⟨ts, hts, hts'⟩ := hrelaid.exists_reads
    have hrest : (Cursor.ofText (shown text).toList).rest =
        joined ((tokenize text).map (·.2)) := by
      rw [← toList_shown, Cursor.ofText, htrim]
      exact hdrop
    rw [tokenize, Reads.tokens_eq (hrest ▸ hts'), tokenize, Reads.tokens_eq hts]
  refine ⟨htokens, ?_⟩
  rw [← String.toList_inj, toList_shown, htokens, toList_shown]

example : shown "select(a)from t\twhere b<>'x y" = "SELECT ( a ) FROM t WHERE b != 'x y" := by
  decide +kernel

end SqlReader
