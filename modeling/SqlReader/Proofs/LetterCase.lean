import Mathlib.Data.List.Forall2
import SqlReader.Proofs.Matching

/-!
# The case of letters

Every step of the tokenizer does the same to a text in capitals as to the text
itself: it cuts at the same places, and what it keeps of the text is in capitals.
So two texts that differ in the case of ASCII letters only have the same tokens up
to that case, at the same positions.
-/

namespace SqlReader

open Text

/-! ## Letters -/

namespace Text

section Letters

variable {c : Char} {cs : List Char}

theorem toNat_lt_of_isAlpha (h : c.isAlpha = true) : c.toNat < 0x80 := by
  rw [isAlpha_eq, Bool.or_eq_true, isUpper_iff, isLower_iff] at h
  omega

/-- What says the same of all letters does not look at their case. -/
theorem apply_toUpper {α : Type} {f : Char → α} {a : α}
    (hf : ∀ c : Char, c.isAlpha = true → f c = a) (c : Char) : f c.toUpper = f c := by
  by_cases hlow : c.isLower = true
  · have halpha : c.isAlpha = true := by simp [isAlpha_eq, hlow]
    have halpha' : c.toUpper.isAlpha = true := by simp [isAlpha_eq, isUpper_toUpper hlow]
    rw [hf c halpha, hf c.toUpper halpha']
  · rw [toUpper_of_not_isLower hlow]

theorem toUpper_toUpper (c : Char) : c.toUpper.toUpper = c.toUpper := by
  by_cases hlow : c.isLower = true
  · apply toUpper_of_not_isLower
    have hup := isUpper_iff.mp (isUpper_toUpper hlow)
    rw [isLower_iff]
    omega
  · rw [toUpper_of_not_isLower hlow, toUpper_of_not_isLower hlow]

/-- Only a character itself turns into one that is no letter. -/
theorem toUpper_eq_iff {d : Char} (hd : isWordChar d = false) : c.toUpper = d ↔ c = d := by
  constructor
  · rintro rfl
    rw [isWordChar_toUpper] at hd
    exact (toUpper_eq_self hd).symm
  · rintro rfl
    exact toUpper_eq_self hd

theorem isBlank_toUpper (c : Char) : isBlank c.toUpper = isBlank c := by
  refine apply_toUpper (a := false) (fun d hd => ?_) c
  rw [isAlpha_eq, Bool.or_eq_true, isUpper_iff, isLower_iff] at hd
  simp only [isBlank, Bool.or_eq_false_iff, Bool.and_eq_false_iff, decide_eq_false_iff_not,
    beq_eq_false_iff_ne]
  omega

theorem isSpace_toUpper (c : Char) : isSpace c.toUpper = isSpace c := by
  refine apply_toUpper (a := false) (fun d hd => Bool.eq_false_iff.mpr fun hspace => ?_) c
  have hword := isWordChar_of_isSpace hspace
  simp [isWordChar, Char.isAlphanum, hd] at hword

theorem utf8Size_toUpper (c : Char) : c.toUpper.utf8Size = c.utf8Size := by
  refine apply_toUpper (f := Char.utf8Size) (a := 1) (fun d hd => ?_) c
  rw [Char.utf8Size_eq_one_iff, UInt32.le_iff_toNat_le]
  exact Nat.le_of_lt_succ (toNat_lt_of_isAlpha hd)

theorem upper_nil : upper [] = [] := rfl

theorem upper_cons (c : Char) (cs : List Char) : upper (c :: cs) = c.toUpper :: upper cs := rfl

theorem upper_append (before after : List Char) :
    upper (before ++ after) = upper before ++ upper after := List.map_append

theorem length_upper (cs : List Char) : (upper cs).length = cs.length := List.length_map _

theorem isEmpty_upper (cs : List Char) : (upper cs).isEmpty = cs.isEmpty := List.isEmpty_map

theorem byteLength_upper (cs : List Char) : byteLength (upper cs) = byteLength cs := by
  induction cs with
  | nil => rfl
  | cons c cs ih => rw [upper_cons, byteLength_cons, byteLength_cons, utf8Size_toUpper, ih]

theorem toUpper_comp {p : Char → Bool} (hp : ∀ c : Char, p c.toUpper = p c) :
    p ∘ Char.toUpper = p := funext hp

theorem takeWhile_upper {p : Char → Bool} (hp : ∀ c : Char, p c.toUpper = p c) (cs : List Char) :
    (upper cs).takeWhile p = upper (cs.takeWhile p) := by
  rw [upper, List.takeWhile_map, toUpper_comp hp, upper]

theorem dropWhile_upper {p : Char → Bool} (hp : ∀ c : Char, p c.toUpper = p c) (cs : List Char) :
    (upper cs).dropWhile p = upper (cs.dropWhile p) := by
  rw [upper, List.dropWhile_map, toUpper_comp hp, upper]

theorem trimEnd_upper (cs : List Char) : trimEnd (upper cs) = upper (trimEnd cs) := by
  have hreverse : (upper cs).reverse = upper cs.reverse := List.map_reverse.symm
  rw [trimEnd, hreverse, dropWhile_upper isBlank_toUpper, trimEnd, upper, upper, List.map_reverse]

theorem toList_upperString (s : String) : (upperString s).toList = upper s.toList :=
  String.toList_ofList

theorem upperString_ofList (cs : List Char) :
    upperString (String.ofList cs) = String.ofList (upper cs) := by
  rw [upperString, String.toList_ofList]

end Letters

end Text

/-! ## The vocabulary -/

section Vocabulary

def upperParts (parts : List Char × List Char) : List Char × List Char :=
  (upper parts.1, upper parts.2)

theorem splitWord_upper (w cs : List Char) :
    splitWord w (upper cs) = (splitWord w cs).map upperParts := by
  induction w generalizing cs with
  | nil => rfl
  | cons a w ih =>
      cases cs with
      | nil => rfl
      | cons c cs =>
          have hsame : sameLetter a c.toUpper = sameLetter a c := by
            rw [sameLetter, toUpper_toUpper, sameLetter]
          rw [upper_cons, splitWord, hsame, splitWord, ih]
          split
          · cases splitWord w cs <;> rfl
          · rfl

theorem splitPhrase_upper (ws : List (List Char)) (cs : List Char) :
    splitPhrase ws (upper cs) = (splitPhrase ws cs).map upperParts := by
  induction ws generalizing cs with
  | nil => rfl
  | cons w ws ih =>
      cases ws with
      | nil => exact splitWord_upper w cs
      | cons v ws =>
          simp only [splitPhrase, splitWord_upper]
          cases splitWord w cs with
          | none => rfl
          | some parts =>
              obtain ⟨taken, rest⟩ := parts
              simp only [Option.map_some, upperParts, takeWhile_upper isSpace_toUpper,
                dropWhile_upper isSpace_toUpper, isEmpty_upper, ih]
              split
              · rfl
              · cases splitPhrase (v :: ws) (rest.dropWhile isSpace) with
                | none => rfl
                | some p => simp only [Option.map_some, upperParts, upper_append]

namespace Match

def raised (m : Match) : Match := ⟨m.keyword, Text.upper m.text, Text.upper m.rest⟩

theorem length_upper (m : Match) : m.raised.length = m.length := Text.length_upper m.text

end Match

theorem Entry.match?_upper (e : Entry) (cs : List Char) :
    e.match? (upper cs) = (e.match? cs).map Match.raised := by
  rw [Entry.match?, splitPhrase_upper, Entry.match?]
  cases splitPhrase (e.words.map String.toList) cs with
  | none => rfl
  | some parts =>
      obtain ⟨taken, rest⟩ := parts
      have hhead : (upper rest).head?.any isWordChar = rest.head?.any isWordChar := by
        cases rest with
        | nil => rfl
        | cons c rest => exact isWordChar_toUpper c
      simp only [Option.map_some, upperParts, hhead]
      split <;> rfl

theorem longer_upper (best : Option Match) (m : Match) :
    longer (best.map Match.raised) m.raised = (longer best m).map Match.raised := by
  cases best with
  | none => rfl
  | some b =>
      simp only [longer, Option.map_some, Match.length_upper]
      split <;> rfl

theorem foldl_longer_upper (best : Option Match) (ms : List Match) :
    (ms.map Match.raised).foldl longer (best.map Match.raised) =
      (ms.foldl longer best).map Match.raised := by
  induction ms generalizing best with
  | nil => rfl
  | cons m ms ih => rw [List.map_cons, List.foldl_cons, longer_upper, ih, List.foldl_cons]

theorem longestMatch_upper (cs : List Char) :
    longestMatch (upper cs) = (longestMatch cs).map Match.raised := by
  have hmatches : vocabulary.filterMap (·.match? (upper cs)) =
      (vocabulary.filterMap (·.match? cs)).map Match.raised := by
    rw [List.map_filterMap]
    exact congrArg (vocabulary.filterMap ·) (funext fun e => e.match?_upper cs)
  rw [longestMatch, longestIn, hmatches]
  exact foldl_longer_upper none _

end Vocabulary

/-! ## Tokens -/

namespace Token

def raised : Token → Token
  | keyword k => keyword k
  | literal s => literal (upperString s)
  | word s => word (upperString s)
  | unterminated s => unterminated (upperString s)
  | endOfText => endOfText

/-- Tokens of one kind, the same reserved word or with contents that differ in the
case of letters only. -/
inductive Recased : Token → Token → Prop
  | keyword (k : Keyword) : Recased (keyword k) (keyword k)
  | literal {s t : String} (h : upperString s = upperString t) : Recased (literal s) (literal t)
  | word {s t : String} (h : upperString s = upperString t) : Recased (word s) (word t)
  | unterminated {s t : String} (h : upperString s = upperString t) :
      Recased (unterminated s) (unterminated t)
  | endOfText : Recased endOfText endOfText

theorem recased_of_raised_eq {t u : Token} (h : t.raised = u.raised) : t.Recased u := by
  match t, u with
  | keyword k, keyword _ => exact keyword.inj h ▸ .keyword k
  | literal _, literal _ => exact .literal (literal.inj h)
  | word _, word _ => exact .word (word.inj h)
  | unterminated _, unterminated _ => exact .unterminated (unterminated.inj h)
  | endOfText, endOfText => exact .endOfText

end Token

def Lexeme.raised (l : Lexeme) : Lexeme := ⟨l.token.raised, Text.upper l.text, Text.upper l.rest⟩

section Scan

theorem splitQuoted_upper (cs : List Char) :
    splitQuoted (upper cs) = (splitQuoted cs).map upperParts := by
  fun_induction splitQuoted cs with
  | case1 => rfl
  | case2 cs => rfl
  | case3 cs ih =>
      have hslash : upper ('\\' :: '\'' :: cs) = '\\' :: '\'' :: upper cs := rfl
      rw [hslash, splitQuoted, ih]
      cases splitQuoted cs <;> rfl
  | case4 c cs hquote hescape ih =>
      rw [upper_cons, splitQuoted, ih]
      · cases splitQuoted cs <;> rfl
      · exact fun h => hquote ((toUpper_eq_iff rfl).mp h)
      · intro tail hc htail
        cases cs with
        | nil => cases htail
        | cons d cs =>
            obtain ⟨hd, -⟩ := List.cons.inj htail
            obtain rfl := (toUpper_eq_iff rfl).mp hd
            exact hescape cs ((toUpper_eq_iff rfl).mp hc) rfl

theorem scanQuoted_upper (cs : List Char) : scanQuoted (upper cs) = (scanQuoted cs).raised := by
  rw [scanQuoted, splitQuoted_upper, scanQuoted]
  cases splitQuoted cs with
  | none => simp only [Option.map_none, Lexeme.raised, Token.raised, upperString_ofList]; rfl
  | some parts =>
      simp only [Option.map_some, upperParts, Lexeme.raised, Token.raised, upperString_ofList,
        upper_cons, upper_append]
      rfl

theorem scanWord_upper (c : Char) (cs : List Char) :
    scanWord c.toUpper (upper cs) = (scanWord c cs).raised := by
  rw [scanWord, isWordChar_toUpper, scanWord, takeWhile_upper isWordChar_toUpper,
    dropWhile_upper isWordChar_toUpper]
  split
  · simp only [Lexeme.raised, Token.raised, upperString_ofList, upper_cons]
  · simp only [Lexeme.raised, Token.raised, upperString_ofList, upper_cons, upper_nil]

/-- The token of a text in capitals is that of the text, in capitals. -/
theorem scan_upper (cs : List Char) : scan (upper cs) = (scan cs).raised := by
  cases cs with
  | nil => rfl
  | cons c cs =>
      have hquote : (c.toUpper == '\'') = (c == '\'') := by
        rw [Bool.eq_iff_iff, beq_iff_eq, beq_iff_eq]
        exact toUpper_eq_iff rfl
      have hlongest := longestMatch_upper (c :: cs)
      rw [upper_cons] at hlongest ⊢
      rw [scan, hlongest, hquote, scan]
      cases longestMatch (c :: cs) with
      | some m => rfl
      | none =>
          simp only [Option.map_none]
          split
          · exact scanQuoted_upper cs
          · exact scanWord_upper c cs

end Scan

/-! ## Cursors -/

namespace Cursor

def raised (c : Cursor) : Cursor := ⟨Text.upper c.input, c.offset, Text.upper c.rest⟩

theorem skipSpace_upper (c : Cursor) : c.raised.skipSpace = c.skipSpace.raised := by
  simp only [skipSpace, raised, takeWhile_upper isSpace_toUpper, dropWhile_upper isSpace_toUpper,
    length_upper]

theorem ofText_upper (text : List Char) : ofText (Text.upper text) = (ofText text).raised := by
  rw [ofText, trimEnd_upper, ofText]
  exact skipSpace_upper ⟨trimEnd text, 0, trimEnd text⟩

theorem atEnd_upper (c : Cursor) : c.raised.atEnd = c.atEnd := isEmpty_upper c.rest

theorem lexeme_upper (c : Cursor) : c.raised.lexeme = c.lexeme.raised := scan_upper c.rest

theorem pop_upper (c : Cursor) : c.raised.pop = c.pop.raised := by
  have hsize : c.lexeme.raised.size = c.lexeme.size := byteLength_upper c.lexeme.text
  rw [pop, lexeme_upper, hsize, pop, ← skipSpace_upper]
  rfl

theorem tokens_upper (c : Cursor) : c.raised.tokens = c.tokens.map (Prod.map id Token.raised) := by
  fun_induction tokens c with
  | case1 c hend =>
      have hend' : c.raised.atEnd = true := c.atEnd_upper.trans hend
      rw [tokens, dif_pos hend', List.map_nil]
  | case2 c hend ih =>
      have hend' : ¬ c.raised.atEnd = true := c.atEnd_upper.symm ▸ hend
      have hpeek : c.raised.peek = c.peek.raised := congrArg Lexeme.token c.lexeme_upper
      rw [tokens, dif_neg hend', hpeek, pop_upper, ih, List.map_cons]
      rfl

end Cursor

/-- Tokenizing a text in capitals gives the tokens of the text in capitals. -/
theorem tokenize_upper (text : String) :
    tokenize (upperString text) = (tokenize text).map (Prod.map id Token.raised) := by
  rw [tokenize, toList_upperString, Cursor.ofText_upper, Cursor.tokens_upper, tokenize]

/-- Texts that differ in the case of ASCII letters only have as many tokens, each at
the position of the other and the same up to that case. -/
theorem tokenize_recased {x y : String} (h : upperString x = upperString y) :
    List.Forall₂ (fun a b : Nat × Token => a.1 = b.1 ∧ a.2.Recased b.2)
      (tokenize x) (tokenize y) := by
  have hmap : (tokenize x).map (Prod.map id Token.raised) =
      (tokenize y).map (Prod.map id Token.raised) := by
    rw [← tokenize_upper, h, tokenize_upper]
  rw [← List.forall₂_eq_eq_eq, List.forall₂_map_left_iff, List.forall₂_map_right_iff] at hmap
  refine hmap.imp fun a b hab => ?_
  obtain ⟨hoffset, htoken⟩ := Prod.mk.inj hab
  exact ⟨hoffset, Token.recased_of_raised_eq htoken⟩

/-- A phrase over two lines, a letter outside of ASCII and a quotation left open. -/
theorem tokenize_recased_unterminated :
    upperString "create\nTable é 'oPen" = upperString "Create\ntABLE é 'Open" ∧
      List.Forall₂ (fun a b : Nat × Token => a.1 = b.1 ∧ a.2.Recased b.2)
        [(0, .keyword .createTable), (13, .word "é"), (16, .unterminated "oPen")]
        [(0, .keyword .createTable), (13, .word "é"), (16, .unterminated "Open")] := by
  have hcase : upperString "create\nTable é 'oPen" = upperString "Create\ntABLE é 'Open" := by
    decide +kernel
  have hx : tokenize "create\nTable é 'oPen" =
      [(0, .keyword .createTable), (13, .word "é"), (16, .unterminated "oPen")] := by
    decide +kernel
  have hy : tokenize "Create\ntABLE é 'Open" =
      [(0, .keyword .createTable), (13, .word "é"), (16, .unterminated "Open")] := by
    decide +kernel
  refine ⟨hcase, ?_⟩
  rw [← hx, ← hy]
  exact tokenize_recased hcase

end SqlReader
