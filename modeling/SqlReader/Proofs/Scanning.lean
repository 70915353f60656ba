import SqlReader.Proofs.Matching

/-!
# How words and symbols are scanned

Says which token stands at the start of a word, and that the token at the start
of a text hardly depends on what comes after it.
-/

namespace SqlReader

open Text

section Scan

variable {w rest after : List Char} {k : Keyword}

theorem scan_phrase (hw : IsWord w) (hrest : WordBreak rest)
    (h : reserved? [w, nextWord rest] = some k) :
    scan (w ++ rest) =
      ⟨.keyword k, w ++ rest.takeWhile isSpace ++ nextWord rest, afterNextWord rest⟩ := by
  have hm := longestMatch_run hw hrest
  obtain ⟨a, as, rfl, ha⟩ := head_of_isWord hw
  rw [List.cons_append] at hm ⊢
  simp only [scan, hm, h]
  rfl

theorem scan_reserved (hw : IsWord w) (hrest : WordBreak rest)
    (hphrase : reserved? [w, nextWord rest] = none) (h : reserved? [w] = some k) :
    scan (w ++ rest) = ⟨.keyword k, w, rest⟩ := by
  have hm := longestMatch_run hw hrest
  obtain ⟨a, as, rfl, ha⟩ := head_of_isWord hw
  rw [List.cons_append] at hm ⊢
  simp only [scan, hm, hphrase, h]
  rfl

theorem scan_plain (hw : IsWord w) (hrest : WordBreak rest)
    (hphrase : reserved? [w, nextWord rest] = none) (h : reserved? [w] = none) :
    scan (w ++ rest) = ⟨.word (String.ofList w), w, rest⟩ := by
  have hm := longestMatch_run hw hrest
  obtain ⟨a, as, rfl, ha⟩ := head_of_isWord hw
  have has : as.all isWordChar = true := (Bool.and_eq_true _ _ ▸ hw.2).2
  have hquote : a ≠ '\'' := by
    rintro rfl
    cases ha
  rw [List.cons_append] at hm ⊢
  simp [scan, hm, hphrase, h, hquote, scanWord, ha, takeWhile_run has hrest,
    dropWhile_run has hrest]

/-- The three ways in which a text that begins with a word is read. -/
theorem scan_run_cases (hw : IsWord w) (hrest : WordBreak rest) :
    (∃ k, reserved? [w, nextWord rest] = some k ∧ scan (w ++ rest) =
        ⟨.keyword k, w ++ rest.takeWhile isSpace ++ nextWord rest, afterNextWord rest⟩) ∨
      reserved? [w, nextWord rest] = none ∧
        ((∃ k, reserved? [w] = some k ∧ scan (w ++ rest) = ⟨.keyword k, w, rest⟩) ∨
          reserved? [w] = none ∧ scan (w ++ rest) = ⟨.word (String.ofList w), w, rest⟩) := by
  cases hphrase : reserved? [w, nextWord rest] with
  | some k => exact .inl ⟨k, rfl, scan_phrase hw hrest hphrase⟩
  | none =>
      cases hword : reserved? [w] with
      | some k => exact .inr ⟨rfl, .inl ⟨k, rfl, scan_reserved hw hrest hphrase hword⟩⟩
      | none => exact .inr ⟨rfl, .inr ⟨rfl, scan_plain hw hrest hphrase hword⟩⟩

/-- A text begins with a word if it begins with a word character. -/
theorem exists_run {c : Char} (cs : List Char) (hc : isWordChar c = true) :
    ∃ w rest, c :: cs = w ++ rest ∧ IsWord w ∧ WordBreak rest := by
  refine ⟨(c :: cs).takeWhile isWordChar, (c :: cs).dropWhile isWordChar,
    List.takeWhile_append_dropWhile.symm, ⟨?_, List.all_takeWhile⟩, wordBreak_dropWhile _⟩
  simp [hc]

theorem longestMatch_quote (cs : List Char) : longestMatch ('\'' :: cs) = none := by
  apply Option.eq_none_iff_forall_ne_some.mpr
  intro m hm
  obtain ⟨e, he, hme⟩ := exists_entry_of_longestIn hm
  obtain ⟨hs, hcat, -⟩ := match?_symbol_cases he rfl hme
  obtain ⟨d, ds, hd⟩ := List.exists_cons_of_ne_nil hs.1
  rw [hd, List.cons_append] at hcat
  obtain ⟨rfl, -⟩ := List.cons.inj hcat
  exact (hs.2.2 '\'' (by simp [hd])).2.2 rfl

theorem splitQuoted_fits {cs content : List Char} (h : splitQuoted cs = some (content, rest)) :
    splitQuoted (content ++ '\'' :: after) = some (content, after) := by
  fun_induction splitQuoted cs generalizing content with
  | case1 => cases h
  | case2 cs =>
      obtain ⟨rfl, -⟩ : [] = content ∧ cs = rest := by simpa using h
      rfl
  | case3 cs ih =>
      obtain ⟨⟨v, r⟩, hp, he⟩ := Option.map_eq_some_iff.mp h
      obtain ⟨rfl, rfl⟩ : '\\' :: '\'' :: v = content ∧ r = rest := by simpa using he
      simp [splitQuoted, ih hp]
  | case4 c cs hquote hescape ih =>
      obtain ⟨⟨v, r⟩, hp, he⟩ := Option.map_eq_some_iff.mp h
      obtain ⟨rfl, rfl⟩ : c :: v = content ∧ r = rest := by simpa using he
      rw [List.cons_append, splitQuoted, ih hp]
      · rfl
      · exact hquote
      · -- a closing quote right after the backslash would have been escaped before too
        intro tail hc htail
        have hcs := splitQuoted_append hp
        cases v with
        | nil => exact hescape r hc hcs.symm
        | cons b v =>
            obtain ⟨rfl, -⟩ := List.cons.inj htail
            exact hescape _ hc hcs.symm

/-! ## What may come after a token -/

theorem Fits.wordBreak (hfits : Fits rest after) (hrest : WordBreak rest) : WordBreak after := by
  cases after with
  | nil => rfl
  | cons c after =>
      rcases hfits c rfl with hspace | hhead
      · exact isWordChar_of_isSpace hspace
      · simpa [WordBreak, hhead] using hrest

/-- Tokens that have a meaning of their own: everything but stray characters and
quotations that never close. -/
def Token.Readable : Token → Prop
  | .keyword _ | .literal _ => True
  | .word s => s.toList.all isWordChar = true
  | .unterminated _ | .endOfText => False

theorem reserved?_pair_eq_none {v : List Char} (hw : w.all isWordChar = false) :
    reserved? [w, v] = none := by
  apply Option.eq_none_iff_forall_ne_some.mpr
  intro k h
  obtain ⟨e, he, hwords, -⟩ := exists_mem_of_reserved? h
  cases form_of_mem he with
  | symbol hwords' _ => simp [hwords'] at hwords
  | word hwords' _ => simp [hwords'] at hwords
  | phrase hwords' hx _ =>
      rw [hwords'] at hwords
      obtain ⟨rfl, -⟩ : _ = upper w ∧ _ = upper v := by simpa using hwords
      rw [← all_isWordChar_upper, hx.2] at hw
      cases hw

theorem exists_scan_text (c : Char) (cs : List Char) : ∃ t, (scan (c :: cs)).text = c :: t := by
  obtain ⟨d, t, ht⟩ := List.exists_cons_of_length_pos (scan_text_length_pos (List.cons_ne_nil c cs))
  have hcat := scan_append (c :: cs)
  rw [ht, List.cons_append] at hcat
  obtain ⟨rfl, -⟩ := List.cons.inj hcat
  exact ⟨t, ht⟩

theorem all_isWordChar_phrase {gap v : List Char} (hgap : gap ≠ [])
    (hspace : ∀ c ∈ gap, isSpace c = true) : (w ++ gap ++ v).all isWordChar = false := by
  obtain ⟨a, as, rfl⟩ := List.exists_cons_of_ne_nil hgap
  simp [isWordChar_of_isSpace (hspace a (by simp))]

/-- A phrase is read to its end. -/
theorem reserved?_scan_pair (cs : List Char) :
    reserved? [(scan cs).text, nextWord (scan cs).rest] = none := by
  cases cs with
  | nil => decide +kernel
  | cons c cs =>
      cases hc : isWordChar c with
      | true =>
          obtain ⟨w, rest, hcs, hw, hrest⟩ := exists_run cs hc
          rw [hcs]
          rcases scan_run_cases hw hrest with ⟨k, hk, hscan⟩ | ⟨hnone, ⟨k, hk, hscan⟩ | ⟨hk, hscan⟩⟩
          · have hnext := ne_nil_of_reserved? hk (nextWord rest) (by simp)
            have hgap := takeWhile_isSpace_ne_nil hrest hnext
            rw [hscan]
            exact reserved?_pair_eq_none
              (all_isWordChar_phrase hgap (List.all_eq_true.mp List.all_takeWhile))
          · rwa [hscan]
          · rwa [hscan]
      | false =>
          obtain ⟨t, ht⟩ := exists_scan_text c cs
          rw [ht]
          exact reserved?_pair_eq_none (by simp [hc])

theorem scan_spaced {gap v : List Char} (hw : IsWord w) (hgap : gap ≠ [])
    (hspace : ∀ c ∈ gap, isSpace c = true) (hv : IsWord v) (hafter : WordBreak after)
    (h : reserved? [w, v] = some k) :
    scan (w ++ gap ++ v ++ after) = ⟨.keyword k, w ++ gap ++ v, after⟩ := by
  obtain ⟨a, as, rfl, ha⟩ := head_of_isWord hv
  have haspace : isSpace a = false := by
    cases hs : isSpace a with
    | false => rfl
    | true =>
        rw [isWordChar_of_isSpace hs] at ha
        cases ha
  have htake : (gap ++ (a :: as ++ after)).takeWhile isSpace = gap := by
    rw [List.takeWhile_append_of_pos hspace]
    simp [haspace]
  have hdrop : (gap ++ (a :: as ++ after)).dropWhile isSpace = a :: as ++ after := by
    rw [List.dropWhile_append_of_pos hspace]
    simp [haspace]
  have hnext : nextWord (gap ++ (a :: as ++ after)) = a :: as := by
    rw [nextWord, hdrop, takeWhile_run hv.2 hafter]
  have hbreak : WordBreak (gap ++ (a :: as ++ after)) := wordBreak_of_space (by rwa [htake])
  have hscan := scan_phrase hw hbreak (hnext.symm ▸ h)
  rw [htake, hnext, afterNextWord, hdrop, dropWhile_run hv.2 hafter] at hscan
  rw [List.append_assoc, List.append_assoc, hscan, List.append_assoc]

theorem scan_literal {content : List Char}
    (h : splitQuoted (content ++ '\'' :: after) = some (content, after)) :
    scan ('\'' :: (content ++ ['\'']) ++ after) =
      ⟨.literal (String.ofList content), '\'' :: (content ++ ['\'']), after⟩ := by
  rw [List.cons_append, List.append_assoc, List.singleton_append]
  simp [scan, longestMatch_quote, scanQuoted, h]

/-- The token at the start of a text stays the same when a fitting text follows
it whose first word does not make a phrase of it. -/
theorem scan_fits {cs : List Char} (hread : (scan cs).token.Readable)
    (hfits : Fits (scan cs).rest after)
    (hphrase : reserved? [(scan cs).text, nextWord after] = none) :
    scan ((scan cs).text ++ after) = ⟨(scan cs).token, (scan cs).text, after⟩ := by
  cases cs with
  | nil => cases hread
  | cons c cs =>
      cases hc : isWordChar c with
      | true =>
          obtain ⟨w, rest, hcs, hw, hrest⟩ := exists_run cs hc
          rw [hcs] at hfits hphrase ⊢
          rcases scan_run_cases hw hrest with ⟨k, hk, hscan⟩ | ⟨hnone, ⟨k, hk, hscan⟩ | ⟨hk, hscan⟩⟩
          · have hnext := ne_nil_of_reserved? hk (nextWord rest) (by simp)
            rw [hscan] at hfits ⊢
            exact scan_spaced hw (takeWhile_isSpace_ne_nil hrest hnext)
              ((List.all_eq_true.mp List.all_takeWhile)) ⟨hnext, List.all_takeWhile⟩
              (hfits.wordBreak (wordBreak_dropWhile _)) hk
          · rw [hscan] at hfits hphrase ⊢
            exact scan_reserved hw (hfits.wordBreak hrest) hphrase hk
          · rw [hscan] at hfits hphrase ⊢
            exact scan_plain hw (hfits.wordBreak hrest) hphrase hk
      | false =>
          cases hm : longestMatch (c :: cs) with
          | some m =>
              have hscan : scan (c :: cs) = ⟨.keyword m.keyword, m.text, m.rest⟩ := by
                simp only [scan, hm]
              rw [hscan] at hfits ⊢
              have hm' := longestMatch_symbol hc hm hfits
              obtain ⟨d, ds, hd⟩ := List.exists_cons_of_length_pos (longestMatch_append hm).2
              simp only [hd, List.cons_append] at hm' ⊢
              simp only [scan, hm']
          | none =>
              by_cases hquote : c = '\''
              · subst hquote
                cases hsplit : splitQuoted cs with
                | none => simp [scan, hm, scanQuoted, hsplit, Token.Readable] at hread
                | some p =>
                    have hscan : scan ('\'' :: cs) =
                        ⟨.literal (String.ofList p.1), '\'' :: (p.1 ++ ['\'']), p.2⟩ := by
                      simp [scan, hm, scanQuoted, hsplit]
                    rw [hscan]
                    exact scan_literal (splitQuoted_fits hsplit)
              · simp [scan, hm, hquote, scanWord, hc, Token.Readable] at hread

end Scan

/-! ## Names and values -/

/-- A name that cannot be taken for a reserved word. -/
structure PlainName (s : String) : Prop where
  identifier : isIdentifier s = true
  unreserved : reserved? [s.toList] = none

/-- Text that reads as one literal when it stands between quotes: every quote in
it is escaped, and nothing escapes the closing one. -/
structure Quotable (cs : List Char) : Prop where
  escaped : ∀ before after, cs = before ++ '\'' :: after → before.getLast? = some '\\'
  closed : cs.getLast? ≠ some '\\'

theorem Quotable.nil : Quotable [] := by
  constructor
  · intro before after h
    simp at h
  · simp

theorem Quotable.of_all_isWordChar {cs : List Char} (h : cs.all isWordChar = true) :
    Quotable cs := by
  rw [List.all_eq_true] at h
  constructor
  · rintro before after rfl
    have hquote := h '\'' (by simp)
    cases hquote
  · intro hlast
    have hslash := h '\\' (List.mem_of_getLast? hlast)
    cases hslash

/-- A further character in front keeps a text quotable if it is no quote and
escapes nothing that was not escaped before. -/
theorem Quotable.cons {c : Char} {cs : List Char} (h : Quotable cs) (hquote : c ≠ '\'')
    (hlast : cs = [] → c ≠ '\\') : Quotable (c :: cs) := by
  constructor
  · intro before after hcs
    cases before with
    | nil => exact absurd (List.cons.inj hcs).1 hquote
    | cons b before =>
        obtain ⟨rfl, htail⟩ := List.cons.inj hcs
        have hescape := h.escaped before after htail
        rw [List.getLast?_cons, hescape]
        rfl
  · cases cs with
    | nil => simpa using hlast rfl
    | cons d cs => simpa using h.closed

theorem Quotable.escape {cs : List Char} (h : Quotable cs) :
    Quotable ('\\' :: '\'' :: cs) := by
  constructor
  · intro before after hcs
    match before with
    | [] => simp at hcs
    | [b] =>
        obtain ⟨rfl, -⟩ := List.cons.inj hcs
        rfl
    | b :: d :: before =>
        simp only [List.cons_append, List.cons.injEq] at hcs
        obtain ⟨-, -, hcs⟩ := hcs
        have hescape := h.escaped before after hcs
        rw [List.getLast?_cons, List.getLast?_cons, hescape]
        rfl
  · cases cs with
    | nil => simp
    | cons d cs => simpa using h.closed

theorem quotable_of_splitQuoted {cs content rest : List Char}
    (h : splitQuoted cs = some (content, rest)) : Quotable content := by
  fun_induction splitQuoted cs generalizing content with
  | case1 => cases h
  | case2 cs =>
      obtain ⟨rfl, -⟩ : [] = content ∧ cs = rest := by simpa using h
      exact .nil
  | case3 cs ih =>
      obtain ⟨⟨v, r⟩, hp, he⟩ := Option.map_eq_some_iff.mp h
      obtain ⟨rfl, rfl⟩ : '\\' :: '\'' :: v = content ∧ r = rest := by simpa using he
      exact (ih hp).escape
  | case4 c cs hquote hescape ih =>
      obtain ⟨⟨v, r⟩, hp, he⟩ := Option.map_eq_some_iff.mp h
      obtain ⟨rfl, rfl⟩ : c :: v = content ∧ r = rest := by simpa using he
      refine (ih hp).cons hquote ?_
      rintro rfl rfl
      exact hescape r rfl (splitQuoted_append hp).symm

theorem isIdentifier_singleton {c : Char} (hc : isWordChar c = false) :
    isIdentifier (String.singleton c) = false := by
  simp only [isWordChar, Char.isAlphanum, Bool.or_eq_false_iff] at hc
  simp [isIdentifier, hc]

/-- A name is the first word of its text, and it is not reserved. -/
theorem scan_of_identifier {cs : List Char} {name : String}
    (h : (scan cs).token.identifier? = some name) :
    PlainName name ∧ (scan cs).text = name.toList ∧ cs.takeWhile isWordChar = name.toList := by
  cases cs with
  | nil => cases h
  | cons c cs =>
      cases hc : isWordChar c with
      | true =>
          obtain ⟨w, rest, hcs, hw, hrest⟩ := exists_run cs hc
          rw [hcs] at h ⊢
          rcases scan_run_cases hw hrest with ⟨k, hk, hscan⟩ | ⟨_, ⟨k, hk, hscan⟩ | ⟨hk, hscan⟩⟩
          · rw [hscan] at h
            cases h
          · rw [hscan] at h
            cases h
          · rw [hscan] at h ⊢
            simp only [Token.identifier?] at h
            split at h
            next hidentifier =>
              obtain rfl := Option.some.inj h
              refine ⟨⟨hidentifier, by simpa using hk⟩, by simp, ?_⟩
              simpa using takeWhile_run hw.2 hrest
            · cases h
      | false =>
          simp only [scan] at h
          split at h
          · cases h
          · split at h
            · rw [scanQuoted] at h
              split at h <;> cases h
            · simp [scanWord, hc, Token.identifier?, isIdentifier_singleton hc] at h

/-- A name that a text spells is not reserved. -/
theorem plainName_of_scan {cs : List Char} {name : String}
    (h : (scan cs).token.identifier? = some name) : PlainName name := (scan_of_identifier h).1

/-- A value that a text spells can be put between quotes. -/
theorem quotable_of_scan {cs : List Char} {value : String}
    (h : (scan cs).token.value? = some value) : Quotable value.toList := by
  cases htoken : (scan cs).token with
  | word s =>
      rw [htoken] at h
      simp only [Token.value?] at h
      split at h
      next hall =>
        obtain rfl := Option.some.inj h
        exact .of_all_isWordChar hall
      · cases h
  | literal s =>
      rw [htoken] at h
      obtain rfl := Option.some.inj h
      cases cs with
      | nil => cases htoken
      | cons c cs =>
          simp only [scan] at htoken
          split at htoken
          · cases htoken
          · split at htoken
            · rw [scanQuoted] at htoken
              split at htoken
              next content rest hsplit =>
                obtain rfl := Token.literal.inj htoken
                simpa using quotable_of_splitQuoted hsplit
              · cases htoken
            · rw [scanWord] at htoken
              split at htoken <;> cases htoken
  | _ =>
      rw [htoken] at h
      cases h

end SqlReader
