import Mathlib.Data.List.Basic
import SqlReader.Lexicon.Cursor
import SqlReader.Proofs.Scanning

/-!
# Reading tokens off a text

`Reads cs ts rest` says that the tokens `ts` are read off `cs` one after the
other and leave `rest`.  The judgment keeps the whole remaining text, because
phrases look one word ahead; what is read stays the same when the remaining text
is replaced by one that stands apart from the last token.
-/

namespace SqlReader

open Text

inductive Reads : List Char → List Token → List Char → Prop
  | refl (cs : List Char) : Reads cs [] cs
  | head {cs rest : List Char} {ts : List Token} (hne : cs ≠ [])
      (hrest : Reads ((scan cs).rest.dropWhile isSpace) ts rest) :
      Reads cs ((scan cs).token :: ts) rest

namespace Reads

variable {cs middle rest : List Char} {ts us : List Token}

theorem append (h : Reads cs ts middle) (hrest : Reads middle us rest) :
    Reads cs (ts ++ us) rest := by
  induction h with
  | refl => exact hrest
  | head hne _ ih => exact .head hne (ih hrest)

theorem split (h : Reads cs (ts ++ us) rest) :
    ∃ middle, Reads cs ts middle ∧ Reads middle us rest := by
  induction ts generalizing cs with
  | nil => exact ⟨cs, .refl cs, h⟩
  | cons t ts ih =>
      cases h with
      | head hne hrest =>
          obtain ⟨middle, hts, hus⟩ := ih hrest
          exact ⟨middle, .head hne hts, hus⟩

/-- The tokens of a cursor are those that are read off its text. -/
theorem tokens_eq {c : Cursor} (h : Reads c.rest ts []) : c.tokens.map (·.2) = ts := by
  generalize hcs : c.rest = cs at h
  generalize hnil : ([] : List Char) = rest at h
  induction h generalizing c with
  | refl =>
      rw [Cursor.tokens.eq_def, dif_pos (by simp [Cursor.atEnd, hcs, ← hnil])]
      rfl
  | head hne _ ih =>
      subst hcs
      rw [Cursor.tokens.eq_def, dif_neg (by simpa [Cursor.atEnd] using hne), List.map_cons,
        ih rfl hnil]
      rfl

end Reads

theorem Cursor.reads_tokens (c : Cursor) : Reads c.rest (c.tokens.map (·.2)) [] := by
  fun_induction Cursor.tokens c with
  | case1 c hend =>
      have hrest : c.rest = [] := by simpa [Cursor.atEnd] using hend
      rw [hrest]
      exact .refl []
  | case2 c hend ih => exact .head (by simpa [Cursor.atEnd] using hend) ih

/-! ## The ends of tokens -/

/-- The text ends in a character that is never cut off at the end of a text. -/
def Firm (cs : List Char) : Prop := ∃ c, cs.getLast? = some c ∧ isBlank c = false ∧ c ≠ ';'

theorem Firm.append {cs : List Char} (h : Firm cs) (before : List Char) : Firm (before ++ cs) := by
  obtain ⟨c, hc, hblank, hmark⟩ := h
  refine ⟨c, ?_, hblank, hmark⟩
  rw [List.getLast?_append, hc]
  rfl

theorem Firm.ne_nil {cs : List Char} (h : Firm cs) : cs ≠ [] := by
  rintro rfl
  obtain ⟨c, hc, -⟩ := h
  cases hc

theorem isBlank_of_isWordChar {c : Char} (h : isWordChar c = true) : isBlank c = false := by
  simp only [isWordChar, Char.isAlphanum, isAlpha_eq, Bool.or_eq_true, isUpper_iff, isLower_iff,
    isDigit_iff, beq_iff_eq] at h
  have hrange : (33 ≤ c.toNat ∧ c.toNat < 0x85) := by
    rcases h with ((hletter | hdigit) | rfl) | rfl
    · omega
    · omega
    · decide
    · decide
  simp only [isBlank, Bool.or_eq_false_iff, Bool.and_eq_false_iff, decide_eq_false_iff_not,
    beq_eq_false_iff_ne]
  omega

theorem firm_of_isWord {w : List Char} (hw : IsWord w) : Firm w := by
  have hlast := List.getLast?_eq_some_getLast hw.1
  have hword : isWordChar (w.getLast hw.1) = true :=
    List.all_eq_true.mp hw.2 _ (List.getLast_mem hw.1)
  refine ⟨_, hlast, isBlank_of_isWordChar hword, ?_⟩
  intro hmark
  rw [hmark] at hword
  cases hword

theorem getLast?_of_mem : ∀ e ∈ vocabulary, ∀ w ∈ e.words.map String.toList,
    w.getLast?.any (fun c => !isBlank c && c != ';') = true := by
  decide +kernel

theorem firm_of_isSymbol {s : List Char} {k : Keyword} (hs : IsSymbol s)
    (h : reserved? [s] = some k) : Firm s := by
  obtain ⟨e, he, hwords, -⟩ := exists_mem_of_reserved? h
  have hlast := getLast?_of_mem e he s (by simp [hwords, hs.upper_eq])
  simpa [Firm, Option.any_eq_true] using hlast

/-- Nothing is cut off from a token at the end of a text. -/
theorem firm_scan_text {cs : List Char} (hread : (scan cs).token.Readable) :
    Firm (scan cs).text := by
  cases cs with
  | nil => cases hread
  | cons c cs =>
      cases hc : isWordChar c with
      | true =>
          obtain ⟨w, rest, hcs, hw, hrest⟩ := exists_run cs hc
          rw [hcs]
          rcases scan_run_cases hw hrest with ⟨k, hk, hscan⟩ | ⟨-, ⟨k, -, hscan⟩ | ⟨-, hscan⟩⟩
          · have hnext := ne_nil_of_reserved? hk (nextWord rest) (by simp)
            have hfirm := firm_of_isWord (w := nextWord rest) ⟨hnext, List.all_takeWhile⟩
            rw [hscan]
            exact hfirm.append _
          · rw [hscan]
            exact firm_of_isWord hw
          · rw [hscan]
            exact firm_of_isWord hw
      | false =>
          cases hm : longestMatch (c :: cs) with
          | some m =>
              obtain ⟨e, he, hme⟩ := exists_entry_of_longestIn hm
              obtain ⟨hs, -, hk⟩ := match?_symbol_cases he hc hme
              simp only [scan, hm]
              exact firm_of_isSymbol hs hk
          | none =>
              by_cases hquote : c = '\''
              · subst hquote
                cases hsplit : splitQuoted cs with
                | none => simp [scan, hm, scanQuoted, hsplit, Token.Readable] at hread
                | some p =>
                    refine ⟨'\'', ?_, by decide, by decide⟩
                    simp only [scan, hm, beq_self_eq_true, if_true, scanQuoted, hsplit]
                    rw [← List.cons_append, List.getLast?_concat]
              · simp [scan, hm, hquote, scanWord, hc, Token.Readable] at hread

/-- A token takes the whole word at the start of a text. -/
theorem takeWhile_scan_text (cs : List Char) :
    (scan cs).text.takeWhile isWordChar = cs.takeWhile isWordChar := by
  cases cs with
  | nil => rfl
  | cons c cs =>
      cases hc : isWordChar c with
      | true =>
          obtain ⟨w, rest, hcs, hw, hrest⟩ := exists_run cs hc
          rw [hcs, takeWhile_run hw.2 hrest]
          rcases scan_run_cases hw hrest with ⟨k, hk, hscan⟩ | ⟨-, ⟨k, -, hscan⟩ | ⟨-, hscan⟩⟩
          · have hnext := ne_nil_of_reserved? hk (nextWord rest) (by simp)
            have hgap := takeWhile_isSpace_ne_nil hrest hnext
            have hbreak : WordBreak (rest.takeWhile isSpace ++ nextWord rest) := by
              obtain ⟨a, as, has⟩ := List.exists_cons_of_ne_nil hgap
              have ha : isSpace a = true :=
                List.all_eq_true.mp List.all_takeWhile a (has ▸ List.mem_cons_self)
              rw [has]
              exact isWordChar_of_isSpace ha
            rw [hscan, List.append_assoc]
            exact takeWhile_run hw.2 hbreak
          · rw [hscan]
            simpa using takeWhile_run hw.2 (show WordBreak [] from rfl)
          · rw [hscan]
            simpa using takeWhile_run hw.2 (show WordBreak [] from rfl)
      | false =>
          obtain ⟨t, ht⟩ := exists_scan_text c cs
          rw [ht]
          simp [hc]

/-! ## What stands apart from the last token -/

def Spaced (cs : List Char) : Prop := ∀ c ∈ cs.head?, isSpace c = true

theorem Spaced.fits {cs : List Char} (h : Spaced cs) (before : List Char) : Fits before cs :=
  fun c hc => .inl (h c hc)

theorem spaced_blank (cs : List Char) : Spaced (' ' :: cs) := by
  intro c hc
  obtain rfl := Option.some.inj hc
  rfl

theorem Spaced.append {gap cs : List Char} (h : Spaced cs)
    (hgap : ∀ c ∈ gap, isSpace c = true) : Spaced (gap ++ cs) := by
  cases gap with
  | nil => exact h
  | cons b gap =>
      intro c hc
      obtain rfl := Option.some.inj hc
      exact hgap b List.mem_cons_self

theorem nextWord_append_gap {gap : List Char} (hgap : ∀ c ∈ gap, isSpace c = true)
    (cs : List Char) : nextWord (gap ++ cs) = nextWord cs := by
  rw [nextWord, List.dropWhile_append_of_pos hgap]
  rfl

theorem dropWhile_append_gap {gap cs : List Char} (hgap : ∀ c ∈ gap, isSpace c = true)
    (hcs : ∀ c ∈ cs.head?, isSpace c = false) : (gap ++ cs).dropWhile isSpace = cs := by
  rw [List.dropWhile_append_of_pos hgap]
  cases cs with
  | nil => rfl
  | cons c cs => simp [hcs c rfl]

theorem nextWord_append {gap cs : List Char} (hgap : ∀ c ∈ gap, isSpace c = true)
    (hcs : ∀ c ∈ cs.head?, isSpace c = false) : nextWord (gap ++ cs) = cs.takeWhile isWordChar := by
  rw [nextWord, dropWhile_append_gap hgap hcs]

theorem head_dropWhile_isSpace (cs : List Char) :
    ∀ c ∈ (cs.dropWhile isSpace).head?, isSpace c = false := by
  intro c hc
  have h := List.head?_dropWhile_not isSpace cs
  rw [hc] at h
  simpa using h

namespace Reads

variable {cs rest : List Char} {ts : List Token}

theorem head_of_scan {w after : List Char} {t : Token} (hw : w ≠ [])
    (hscan : scan (w ++ after) = ⟨t, w, after⟩)
    (hrest : Reads (after.dropWhile isSpace) ts rest) : Reads (w ++ after) (t :: ts) rest := by
  have hne : w ++ after ≠ [] := by simp [hw]
  have hrest' : Reads ((scan (w ++ after)).rest.dropWhile isSpace) ts rest := by rwa [hscan]
  have hreads := Reads.head hne hrest'
  rwa [hscan] at hreads

/-- The tokens that were read stand in a part of the text that ends with the
last of them.  With any other text behind that part, which may not make a phrase
of the last token, the same tokens are read again. -/
theorem transplant (h : Reads cs ts rest) (hne : ts ≠ []) (hread : ∀ t ∈ ts, t.Readable) :
    ∃ core gap last : List Char, cs = core ++ gap ++ rest ∧ (∀ c ∈ gap, isSpace c = true) ∧
      Firm core ∧ (∃ tail, last = (scan tail).text ∧ ts.getLast? = some (scan tail).token) ∧
      ∀ z, Spaced z → reserved? [last, nextWord z] = none →
        Reads (core ++ z) ts (z.dropWhile isSpace) ∧ (scan (core ++ z)).text = (scan cs).text := by
  induction h with
  | refl => exact absurd rfl hne
  | @head cs rest ts hcs hrest ih =>
      have hfirst : (scan cs).token.Readable := hread _ (by simp)
      have hfirm := firm_scan_text hfirst
      cases ts with
      | nil =>
          cases hrest
          refine ⟨(scan cs).text, (scan cs).rest.takeWhile isSpace, (scan cs).text, ?_,
            List.all_eq_true.mp List.all_takeWhile, hfirm, ⟨cs, rfl, rfl⟩, ?_⟩
          · rw [List.append_assoc, List.takeWhile_append_dropWhile, scan_append]
          · intro z hz hphrase
            have hscan := scan_fits hfirst (hz.fits _) hphrase
            refine ⟨?_, by rw [hscan]⟩
            exact head_of_scan hfirm.ne_nil hscan (.refl _)
      | cons u us =>
          obtain ⟨core, gap, last, hsplit, hgap, hcore, hlast, hz⟩ :=
            ih (by simp) (fun t ht => hread t (List.mem_cons_of_mem _ ht))
          generalize hbefore : (scan cs).rest.takeWhile isSpace = before
          have hbefore' : ∀ c ∈ before, isSpace c = true := by
            rw [← hbefore]
            exact List.all_eq_true.mp List.all_takeWhile
          have hcat : (scan cs).rest = before ++ (core ++ (gap ++ rest)) := by
            rw [← hbefore, ← List.append_assoc core, ← hsplit, List.takeWhile_append_dropWhile]
          have hhead : ∀ z, ∀ c ∈ (core ++ z).head?, isSpace c = false := by
            intro z c hc
            apply head_dropWhile_isSpace (scan cs).rest c
            rw [hsplit, List.append_assoc]
            rwa [List.head?_append_of_ne_nil _ hcore.ne_nil] at hc ⊢
          refine ⟨(scan cs).text ++ before ++ core, gap, last, ?_, hgap, hcore.append _, hlast, ?_⟩
          · rw [List.append_assoc, List.append_assoc, List.append_assoc, ← hcat, scan_append]
          · intro z hspaced hphrase
            obtain ⟨hreads, htext⟩ := hz z hspaced hphrase
            -- the second token still starts with the word that the first one looked at
            have hnext : nextWord (before ++ (core ++ z)) = nextWord (scan cs).rest := by
              rw [hcat, nextWord_append hbefore' (hhead z), nextWord_append hbefore' (hhead _),
                ← takeWhile_scan_text, htext, takeWhile_scan_text, hsplit, List.append_assoc]
            have hfits : Fits (scan cs).rest (before ++ (core ++ z)) := by
              intro c hc
              have hne : before ++ core ≠ [] := by simp [hcore.ne_nil]
              rw [← List.append_assoc, List.head?_append_of_ne_nil _ hne] at hc
              rw [hcat, ← List.append_assoc, List.head?_append_of_ne_nil _ hne]
              exact .inr hc
            have hscan := scan_fits hfirst hfits (hnext ▸ reserved?_scan_pair cs)
            rw [List.append_assoc, List.append_assoc]
            refine ⟨head_of_scan hfirm.ne_nil hscan ?_, by rw [hscan]⟩
            rwa [dropWhile_append_gap hbefore' (hhead z)]

end Reads

end SqlReader
