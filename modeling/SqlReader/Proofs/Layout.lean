import SqlReader.Proofs.Verdict

/-!
# Layout

The same tokens can be laid out in many ways: reserved words in any case, with
any white space in and between them, and `!=` or `<>` for the same operator.  A
text that is laid out anew has the tokens that it had, and texts with the same
tokens have the same outcome.
-/

namespace SqlReader

open Text

/-! ## Symbols and stray characters -/

section Symbols

variable {c : Char} {cs s after : List Char} {k : Keyword}

/-- A reserved word that does not begin with a word character is a symbol. -/
theorem isSymbol_of_reserved? (h : reserved? [c :: cs] = some k) (hc : isWordChar c = false) :
    IsSymbol (c :: cs) := by
  obtain ⟨e, he, hwords, -⟩ := exists_mem_of_reserved? h
  have hupper : (upper (c :: cs)).all isWordChar = false := by
    rw [all_isWordChar_upper]
    simp [hc]
  cases form_of_mem he with
  | symbol hsymbol hs =>
      obtain rfl : _ = upper (c :: cs) := by simpa using hsymbol.symm.trans hwords
      have hchars : ∀ d ∈ upper (c :: cs), isWordChar d = false := fun d hd => (hs.2.2 d hd).1
      have hself : c :: cs = upper (c :: cs) :=
        eq_of_upper_eq hchars (upper_of_mem e he _ (by simp [hwords])).symm
      rwa [hself]
  | word hword hw =>
      obtain rfl : _ = upper (c :: cs) := by simpa using hword.symm.trans hwords
      rw [hw.2] at hupper
      cases hupper
  | phrase hphrase _ _ => simp [hphrase] at hwords

theorem IsSymbol.cases (hs : IsSymbol s) : (∃ a, s = [a]) ∨ ∃ a b, s = [a, b] := by
  obtain ⟨hne, hlength, -⟩ := hs
  match s with
  | [] => exact absurd rfl hne
  | [a] => exact .inl ⟨a, rfl⟩
  | [a, b] => exact .inr ⟨a, b, rfl⟩
  | a :: b :: d :: tail =>
      simp only [List.length_cons] at hlength
      omega

/-- No longer symbol begins with `s` when the text after it does not make one. -/
theorem symbol_text_eq {m : Match} (hs : IsSymbol s)
    (hafter : ∀ d ∈ after.head?, reserved? [s ++ [d]] = none)
    (hm : IsSymbol m.text) (hk : reserved? [m.text] = some m.keyword)
    (hcat : m.text ++ m.rest = s ++ after) : m.text.length ≤ s.length := by
  rcases hm.cases with ⟨b, htext⟩ | ⟨b, d, htext⟩
  · rw [htext]
    exact List.length_pos_iff.mpr hs.1
  · rcases hs.cases with ⟨a, rfl⟩ | ⟨a, a', rfl⟩
    · rw [htext] at hcat hk
      simp only [List.cons_append, List.nil_append, List.cons.injEq] at hcat
      obtain ⟨rfl, hcat⟩ := hcat
      have hnone := hafter d (by simp [← hcat])
      rw [List.singleton_append, hk] at hnone
      cases hnone
    · simp [htext]

theorem scan_symbol (hs : IsSymbol s) (hk : reserved? [s] = some k)
    (hafter : ∀ d ∈ after.head?, reserved? [s ++ [d]] = none) :
    scan (s ++ after) = ⟨.keyword k, s, after⟩ := by
  obtain ⟨a, as, rfl⟩ := List.exists_cons_of_ne_nil hs.1
  have ha : isWordChar a = false := (hs.2.2 a (by simp)).1
  obtain ⟨e, he, hme⟩ := exists_match?_symbol hs hk after
  obtain ⟨best, hbest, hle⟩ := exists_longestMatch he hme
  obtain ⟨e', he', hme'⟩ := exists_entry_of_longestIn hbest
  obtain ⟨hs', hcat, hk'⟩ := match?_symbol_cases he' ha hme'
  have hge := symbol_text_eq hs hafter hs' hk' hcat
  obtain ⟨htext, hrest⟩ := List.append_inj hcat (Nat.le_antisymm hge hle)
  rw [htext, hk] at hk'
  rw [List.cons_append] at hbest ⊢
  simp only [scan, hbest, htext, hrest, Option.some.inj hk']

theorem scan_stray (hc : isWordChar c = false) (hquote : c ≠ '\'') (hnone : reserved? [[c]] = none)
    (hafter : ∀ d ∈ after.head?, reserved? [[c] ++ [d]] = none) :
    scan (c :: after) = ⟨.word (String.ofList [c]), [c], after⟩ := by
  have hm : longestMatch (c :: after) = none := by
    apply Option.eq_none_iff_forall_ne_some.mpr
    intro m hm
    obtain ⟨e, he, hme⟩ := exists_entry_of_longestIn hm
    obtain ⟨hs, hcat, hk⟩ := match?_symbol_cases he hc hme
    rcases hs.cases with ⟨b, htext⟩ | ⟨b, d, htext⟩
    · rw [htext] at hcat hk
      obtain ⟨rfl, -⟩ := List.cons.inj hcat
      simp [hk] at hnone
    · rw [htext] at hcat hk
      simp only [List.cons_append, List.nil_append, List.cons.injEq] at hcat
      obtain ⟨rfl, hcat⟩ := hcat
      have hnone' := hafter d (by simp [← hcat])
      rw [List.singleton_append, hk] at hnone'
      cases hnone'
  simp [scan, hm, hquote, scanWord, hc]

/-- The two ways in which a text is read that begins with neither a word nor a quote. -/
theorem scan_symbol_cases (cs : List Char) (hc : isWordChar c = false) (hquote : c ≠ '\'') :
    (∃ s k rest, IsSymbol s ∧ reserved? [s] = some k ∧ c :: cs = s ++ rest ∧
        (∀ d ∈ rest.head?, reserved? [s ++ [d]] = none) ∧
        scan (c :: cs) = ⟨.keyword k, s, rest⟩) ∨
      reserved? [[c]] = none ∧ (∀ d ∈ cs.head?, reserved? [[c] ++ [d]] = none) ∧
        scan (c :: cs) = ⟨.word (String.ofList [c]), [c], cs⟩ := by
  have hlongest : ∀ s k rest, c :: cs = s ++ rest → IsSymbol s → reserved? [s] = some k →
      ∃ best, longestMatch (c :: cs) = some best ∧ s.length ≤ best.text.length := by
    intro s k rest hcat hs hk
    obtain ⟨e, he, hme⟩ := exists_match?_symbol hs hk rest
    rw [hcat]
    exact exists_longestMatch he hme
  cases hm : longestMatch (c :: cs) with
  | some m =>
      obtain ⟨e, he, hme⟩ := exists_entry_of_longestIn hm
      obtain ⟨hs, hcat, hk⟩ := match?_symbol_cases he hc hme
      refine .inl ⟨m.text, m.keyword, m.rest, hs, hk, hcat.symm, ?_, by simp only [scan, hm]⟩
      intro d hd
      apply Option.eq_none_iff_forall_ne_some.mpr
      intro k' hk'
      obtain ⟨rest, hrest⟩ := List.head?_eq_some_iff.mp hd
      obtain ⟨a, as, htext⟩ := List.exists_cons_of_ne_nil hs.1
      have ha : isWordChar a = false := (hs.2.2 a (by simp [htext])).1
      have hs' : IsSymbol (m.text ++ [d]) := by
        rw [htext, List.cons_append] at hk' ⊢
        exact isSymbol_of_reserved? hk' ha
      obtain ⟨best, hbest, hle⟩ :=
        hlongest (m.text ++ [d]) k' rest (by simp [← hcat, hrest]) hs' hk'
      obtain rfl := Option.some.inj (hm.symm.trans hbest)
      rw [List.length_append, List.length_singleton] at hle
      omega
  | none =>
      have hno : ∀ s k rest, c :: cs = s ++ rest → IsSymbol s → reserved? [s] ≠ some k := by
        intro s k rest hcat hs hk
        obtain ⟨best, hbest, -⟩ := hlongest s k rest hcat hs hk
        simp [hm] at hbest
      refine .inr ⟨?_, ?_, by simp [scan, hm, hquote, scanWord, hc]⟩
      · apply Option.eq_none_iff_forall_ne_some.mpr
        intro k hk
        exact hno [c] k cs rfl (isSymbol_of_reserved? hk hc) hk
      · intro d hd
        apply Option.eq_none_iff_forall_ne_some.mpr
        intro k hk
        obtain ⟨rest, rfl⟩ := List.head?_eq_some_iff.mp hd
        exact hno [c, d] k rest rfl (isSymbol_of_reserved? hk hc) hk

end Symbols

/-! ## Spellings -/

/-- The ways to spell a token: a reserved word in any case and with any white
space inside, all other tokens in one way. -/
inductive Token.SpelledBy : Token → List Char → Prop
  | reserved {k : Keyword} {w : List Char} (h : reserved? [w] = some k) : SpelledBy (.keyword k) w
  | phrase {k : Keyword} {w gap v : List Char} (h : reserved? [w, v] = some k) (hgap : gap ≠ [])
      (hspace : ∀ c ∈ gap, isSpace c = true) : SpelledBy (.keyword k) (w ++ gap ++ v)
  | word (s : String) : SpelledBy (.word s) s.toList
  | literal (s : String) : SpelledBy (.literal s) ('\'' :: (s.toList ++ ['\'']))
  | unterminated (s : String) : SpelledBy (.unterminated s) ('\'' :: s.toList)

section Spellings

variable {cs f after : List Char} {k : Keyword}

theorem keyword_spelled_once : ∀ e ∈ vocabulary, ∀ e' ∈ vocabulary, e.keyword = e'.keyword →
    e = e' ∨ e.keyword = .notEqual := by
  decide +kernel

theorem words_of_notEqual : ∀ e ∈ vocabulary, e.keyword = .notEqual →
    e.words.map String.toList = [['!', '=']] ∨ e.words.map String.toList = [['<', '>']] := by
  decide +kernel

/-- The spellings of a reserved word differ in nothing but case, those of `!=` apart. -/
theorem reserved?_unique {ws vs : List (List Char)} (h : reserved? ws = some k)
    (h' : reserved? vs = some k) : ws.map upper = vs.map upper ∨ k = .notEqual := by
  obtain ⟨e, he, hws, rfl⟩ := exists_mem_of_reserved? h
  obtain ⟨e', he', hvs, hk⟩ := exists_mem_of_reserved? h'
  rcases keyword_spelled_once e he e' he' hk.symm with rfl | hk
  · exact .inl (hws.symm.trans hvs)
  · exact .inr hk

theorem isWordChar_sign {c : Char} (h : c ∈ ['!', '=', '<', '>']) : isWordChar c = false := by
  simp only [List.mem_cons, List.not_mem_nil, or_false] at h
  rcases h with rfl | rfl | rfl | rfl <;> rfl

theorem reserved?_notEqual {ws : List (List Char)} (h : reserved? ws = some .notEqual) :
    ws = [['!', '=']] ∨ ws = [['<', '>']] := by
  obtain ⟨e, he, hws, hk⟩ := exists_mem_of_reserved? h
  have hsymbols : ∀ s ∈ [['!', '='], ['<', '>']], [s] = ws.map upper → ws = [s] := by
    intro s hs heq
    obtain ⟨w, rfl⟩ : ∃ w, ws = [w] :=
      List.length_eq_one_iff.mp (by simpa using (congrArg List.length heq).symm)
    have hchars : ∀ s ∈ [['!', '='], ['<', '>']], ∀ c ∈ s, isWordChar c = false := by
      simp [isWordChar_sign]
    have hupper : ∀ s ∈ [['!', '='], ['<', '>']], upper s = s := by decide
    have heq : s = upper w := by simpa using heq
    rw [eq_of_upper_eq (hchars s hs) (heq.symm.trans (hupper s hs).symm)]
  rcases words_of_notEqual e he hk with hwords | hwords
  · exact .inl (hsymbols _ (by simp) (hwords.symm.trans hws))
  · exact .inr (hsymbols _ (by simp) (hwords.symm.trans hws))

inductive Respelled : List Char → List Char → Prop
  | phrase {w rest w' gap v' : List Char} {k : Keyword} (hw : IsWord w) (hrest : WordBreak rest)
      (hk : reserved? [w, nextWord rest] = some k) (hw' : upper w' = upper w)
      (hv' : upper v' = upper (nextWord rest)) (hgap : gap ≠ [])
      (hspace : ∀ c ∈ gap, isSpace c = true) : Respelled (w ++ rest) (w' ++ gap ++ v')
  | reserved {w rest w' : List Char} {k : Keyword} (hw : IsWord w) (hrest : WordBreak rest)
      (hphrase : reserved? [w, nextWord rest] = none) (hk : reserved? [w] = some k)
      (hw' : upper w' = upper w) : Respelled (w ++ rest) w'
  | plain {w rest : List Char} (hw : IsWord w) (hrest : WordBreak rest)
      (hphrase : reserved? [w, nextWord rest] = none) (hplain : reserved? [w] = none) :
      Respelled (w ++ rest) w
  | quote (cs : List Char) : Respelled ('\'' :: cs) (scan ('\'' :: cs)).text
  | symbol {s rest : List Char} {k : Keyword} (hs : IsSymbol s) (hk : reserved? [s] = some k)
      (hrest : ∀ d ∈ rest.head?, reserved? [s ++ [d]] = none) : Respelled (s ++ rest) s
  | notEqual {s rest s' : List Char} (hs : s = ['!', '='] ∨ s = ['<', '>'])
      (hs' : s' = ['!', '='] ∨ s' = ['<', '>']) : Respelled (s ++ rest) s'
  | stray {c : Char} {cs : List Char} (hc : isWordChar c = false) (hquote : c ≠ '\'')
      (hnone : reserved? [[c]] = none) (hrest : ∀ d ∈ cs.head?, reserved? [[c] ++ [d]] = none) :
      Respelled (c :: cs) [c]

theorem respelled_of_phrase {w rest : List Char} (hw : IsWord w) (hrest : WordBreak rest)
    (hk : reserved? [w, nextWord rest] = some k) (h : (Token.keyword k).SpelledBy f) :
    Respelled (w ++ rest) f := by
  have hne : k ≠ .notEqual := by
    rintro rfl
    rcases reserved?_notEqual hk with hws | hws <;> simp at hws
  cases h with
  | reserved h =>
      have hwords := (reserved?_unique h hk).resolve_right hne
      simp at hwords
  | phrase h hgap hspace =>
      have hwords := (reserved?_unique h hk).resolve_right hne
      simp only [List.map_cons, List.map_nil, List.cons.injEq, and_true] at hwords
      exact .phrase hw hrest hk hwords.1 hwords.2 hgap hspace

theorem respelled_of_reserved {w rest : List Char} (hw : IsWord w) (hrest : WordBreak rest)
    (hphrase : reserved? [w, nextWord rest] = none) (hk : reserved? [w] = some k)
    (h : (Token.keyword k).SpelledBy f) : Respelled (w ++ rest) f := by
  have hne : k ≠ .notEqual := by
    rintro rfl
    rcases reserved?_notEqual hk with hws | hws
    · obtain rfl : w = ['!', '='] := by simpa using hws
      exact absurd hw (by decide)
    · obtain rfl : w = ['<', '>'] := by simpa using hws
      exact absurd hw (by decide)
  cases h with
  | reserved h =>
      have hwords := (reserved?_unique h hk).resolve_right hne
      exact .reserved hw hrest hphrase hk (by simpa using hwords)
  | phrase h hgap hspace =>
      have hwords := (reserved?_unique h hk).resolve_right hne
      simp at hwords

theorem respelled_of_symbol {s rest : List Char} (hs : IsSymbol s) (hk : reserved? [s] = some k)
    (hrest : ∀ d ∈ rest.head?, reserved? [s ++ [d]] = none) (h : (Token.keyword k).SpelledBy f) :
    Respelled (s ++ rest) f := by
  by_cases hne : k = .notEqual
  · subst hne
    have hs : s = ['!', '='] ∨ s = ['<', '>'] := by simpa using reserved?_notEqual hk
    cases h with
    | reserved h => exact .notEqual hs (by simpa using reserved?_notEqual h)
    | phrase h hgap hspace => rcases reserved?_notEqual h with hws | hws <;> simp at hws
  · cases h with
    | reserved h =>
        have hwords := (reserved?_unique h hk).resolve_right hne
        obtain rfl := eq_of_upper_eq (fun c hc => (hs.2.2 c hc).1) (by simpa using hwords)
        exact .symbol hs hk hrest
    | phrase h hgap hspace =>
        have hwords := (reserved?_unique h hk).resolve_right hne
        simp at hwords

theorem respelled_of_spelledBy (hne : cs ≠ []) (h : (scan cs).token.SpelledBy f) :
    Respelled cs f := by
  obtain ⟨c, cs, rfl⟩ := List.exists_cons_of_ne_nil hne
  cases hc : isWordChar c with
  | true =>
      obtain ⟨w, rest, hcs, hw, hrest⟩ := exists_run cs hc
      rw [hcs] at h ⊢
      rcases scan_run_cases hw hrest with ⟨k, hk, hscan⟩ | ⟨hnone, ⟨k, hk, hscan⟩ | ⟨hk, hscan⟩⟩
      · rw [hscan] at h
        exact respelled_of_phrase hw hrest hk h
      · rw [hscan] at h
        exact respelled_of_reserved hw hrest hnone hk h
      · rw [hscan] at h
        cases h with
        | word => simpa using Respelled.plain hw hrest hnone hk
  | false =>
      by_cases hquote : c = '\''
      · subst hquote
        have hf : f = (scan ('\'' :: cs)).text := by
          simp only [scan, longestMatch_quote, beq_self_eq_true, if_true, scanQuoted] at h ⊢
          cases hsplit : splitQuoted cs with
          | none =>
              rw [hsplit] at h
              cases h with
              | unterminated => simp
          | some p =>
              rw [hsplit] at h
              cases h with
              | literal => simp
        rw [hf]
        exact .quote cs
      · rcases scan_symbol_cases cs hc hquote with
          ⟨s, k, rest, hs, hk, hcat, hrest, hscan⟩ | ⟨hnone, hrest, hscan⟩
        · rw [hscan] at h
          rw [hcat]
          exact respelled_of_symbol hs hk hrest h
        · rw [hscan] at h
          cases h with
          | word => simpa using Respelled.stray hc hquote hnone hrest

end Spellings

/-! ## What follows a token that is spelled anew -/

/-- Characters that begin the same tokens. -/
def Alike (c d : Char) : Prop :=
  d = c ∨ isWordChar c = true ∧ isWordChar d = true ∨ c ∈ ['!', '<'] ∧ d ∈ ['!', '<']

theorem Alike.isWordChar_eq {c d : Char} (h : Alike c d) : isWordChar d = isWordChar c := by
  rcases h with rfl | ⟨hc, hd⟩ | ⟨hc, hd⟩
  · rfl
  · rw [hc, hd]
  · have hsigns : ∀ e ∈ ['!', '<'], isWordChar e = false := by simp [isWordChar_sign]
    rw [hsigns c hc, hsigns d hd]

theorem Alike.isSpace_eq_false {c d : Char} (h : Alike c d) (hc : isSpace c = false) :
    isSpace d = false := by
  rcases h with rfl | ⟨-, hd⟩ | ⟨-, hd⟩
  · exact hc
  · cases hspace : isSpace d with
    | false => rfl
    | true => simp [isWordChar_of_isSpace hspace] at hd
  · have hsigns : ∀ e ∈ ['!', '<'], isSpace e = false := by simp [isSpace]
    exact hsigns d hd

theorem getLast?_of_mem_vocabulary : ∀ e ∈ vocabulary, ∀ w ∈ e.words.map String.toList,
    w.length = 1 ∨ w.getLast?.any (fun d => d ∉ ['!', '<']) = true := by
  decide +kernel

/-- Where one character does not go on with a symbol, a character like it does not either. -/
theorem Alike.reserved?_eq_none {s : List Char} {c d : Char} (h : Alike c d) (hs : s ≠ [])
    (hhead : ∀ a ∈ s.head?, isWordChar a = false) (hc : reserved? [s ++ [c]] = none) :
    reserved? [s ++ [d]] = none := by
  obtain ⟨a, as, rfl⟩ := List.exists_cons_of_ne_nil hs
  apply Option.eq_none_iff_forall_ne_some.mpr
  intro k hk
  have hsymbol : IsSymbol (a :: as ++ [d]) := isSymbol_of_reserved? hk (hhead a rfl)
  rcases h with rfl | ⟨-, hd⟩ | ⟨-, hd⟩
  · rw [hk] at hc
    cases hc
  · simp [(hsymbol.2.2 d (by simp)).1] at hd
  · obtain ⟨e, he, hwords, -⟩ := exists_mem_of_reserved? hk
    rw [List.map_singleton, hsymbol.upper_eq] at hwords
    rcases getLast?_of_mem_vocabulary e he (a :: as ++ [d]) (by simp [hwords]) with
      hlength | hlast
    · simp at hlength
    · simp only [List.getLast?_append, List.getLast?_singleton, Option.some_or, Option.any_some,
        decide_eq_true_eq] at hlast
      exact hlast hd

/-- A character that does not go on with the token in front of it. -/
def Parted (f : List Char) (d : Char) : Prop :=
  (f.getLast?.any isWordChar && isWordChar d) = false ∧ reserved? [f ++ [d]] = none

/-- `after` may take the place of `rest` behind a token that is spelled `f`. -/
structure Continues (f rest after : List Char) : Prop where
  head : ∀ d ∈ after.head?, isSpace d = true ∨ (∃ c ∈ rest.head?, Alike c d) ∨ Parted f d
  nextWord : upper (nextWord after) = upper (nextWord rest)
  nil : rest = [] → after = []

namespace Continues

variable {f rest after : List Char}

theorem wordBreak (h : Continues f rest after) (hword : f.getLast?.any isWordChar = true)
    (hrest : WordBreak rest) : WordBreak after := by
  cases after with
  | nil => rfl
  | cons d after =>
      rcases h.head d rfl with hspace | ⟨c, hc, halike⟩ | hparted
      · exact isWordChar_of_isSpace hspace
      · have hword : isWordChar c = false := by
          rw [WordBreak, hc] at hrest
          exact hrest
        exact halike.isWordChar_eq.trans hword
      · have hd : isWordChar d = false := by simpa [hword] using hparted.1
        exact hd

theorem reserved?_eq_none (h : Continues f rest after) (hf : f ≠ [])
    (hhead : ∀ a ∈ f.head?, isWordChar a = false)
    (hrest : ∀ c ∈ rest.head?, reserved? [f ++ [c]] = none) :
    ∀ d ∈ after.head?, reserved? [f ++ [d]] = none := by
  intro d hd
  rcases h.head d hd with hspace | ⟨c, hc, halike⟩ | hparted
  · obtain ⟨a, as, rfl⟩ := List.exists_cons_of_ne_nil hf
    apply Option.eq_none_iff_forall_ne_some.mpr
    intro k hk
    have hsymbol : IsSymbol (a :: as ++ [d]) := isSymbol_of_reserved? hk (hhead a rfl)
    simp [(hsymbol.2.2 d (by simp)).2.1] at hspace
  · exact halike.reserved?_eq_none hf hhead (hrest c hc)
  · exact hparted.2

end Continues

theorem IsWord.getLast?_any {w : List Char} (hw : IsWord w) (before : List Char) :
    (before ++ w).getLast?.any isWordChar = true := by
  have hlast := List.getLast?_eq_some_getLast hw.1
  rw [List.getLast?_append, hlast]
  exact List.all_eq_true.mp hw.2 _ (List.getLast_mem hw.1)

theorem isWord_of_upper_eq {w w' : List Char} (hw : IsWord w) (h : upper w' = upper w) :
    IsWord w' := by
  refine ⟨?_, ?_⟩
  · rintro rfl
    exact hw.1 (by simpa [upper] using h.symm)
  · rw [← all_isWordChar_upper, h, all_isWordChar_upper, hw.2]

theorem reserved?_append_notEqual {s : List Char} (hs : s = ['!', '='] ∨ s = ['<', '>'])
    (d : Char) : reserved? [s ++ [d]] = none := by
  apply Option.eq_none_iff_forall_ne_some.mpr
  intro k hk
  rcases hs with rfl | rfl
  · exact absurd (isSymbol_of_reserved? hk rfl).2.1 (by simp)
  · exact absurd (isSymbol_of_reserved? hk rfl).2.1 (by simp)

theorem scan_notEqual {s : List Char} (hs : s = ['!', '='] ∨ s = ['<', '>']) (after : List Char) :
    scan (s ++ after) = ⟨.keyword .notEqual, s, after⟩ := by
  apply scan_symbol
  · rcases hs with rfl | rfl <;> decide
  · rcases hs with rfl | rfl <;> decide +kernel
  · intro d _
    exact reserved?_append_notEqual hs d

/-- A token that is spelled anew is read as before. -/
theorem Respelled.scan_eq {cs f after : List Char} (h : Respelled cs f)
    (hafter : Continues f (scan cs).rest after) :
    scan (f ++ after) = ⟨(scan cs).token, f, after⟩ := by
  cases h with
  | @phrase w rest w' gap v' k hw hrest hk hw' hv' hgap hspace =>
      rw [scan_phrase hw hrest hk] at hafter ⊢
      have hnext : IsWord (nextWord rest) :=
        ⟨ne_nil_of_reserved? hk (nextWord rest) (by simp), List.all_takeWhile⟩
      have hlast : (w' ++ gap ++ v').getLast?.any isWordChar = true :=
        (isWord_of_upper_eq hnext hv').getLast?_any (w' ++ gap)
      exact scan_spaced (isWord_of_upper_eq hw hw') hgap hspace (isWord_of_upper_eq hnext hv')
        (hafter.wordBreak hlast (wordBreak_dropWhile _))
        ((reserved?_congr (by simp [hw', hv'])).trans hk)
  | @reserved w rest _ k hw hrest hphrase hk hw' =>
      rw [scan_reserved hw hrest hphrase hk] at hafter ⊢
      exact scan_reserved (isWord_of_upper_eq hw hw')
        (hafter.wordBreak ((isWord_of_upper_eq hw hw').getLast?_any []) hrest)
        ((reserved?_congr (by simp [hw', hafter.nextWord])).trans hphrase)
        ((reserved?_congr (by simp [hw'])).trans hk)
  | plain hw hrest hphrase hplain =>
      rw [scan_plain hw hrest hphrase hplain] at hafter ⊢
      exact scan_plain hw (hafter.wordBreak (hw.getLast?_any []) hrest)
        ((reserved?_congr (by simp [hafter.nextWord])).trans hphrase) hplain
  | quote cs =>
      cases hsplit : splitQuoted cs with
      | none =>
          -- without its second quote the literal takes all text, so nothing follows
          have hscan : scan ('\'' :: cs) = ⟨.unterminated (String.ofList cs), '\'' :: cs, []⟩ := by
            simp [scan, longestMatch_quote, scanQuoted, hsplit]
          rw [hscan] at hafter ⊢
          rw [hafter.nil rfl, List.append_nil, hscan]
      | some p =>
          have hscan : scan ('\'' :: cs) =
              ⟨.literal (String.ofList p.1), '\'' :: (p.1 ++ ['\'']), p.2⟩ := by
            simp [scan, longestMatch_quote, scanQuoted, hsplit]
          rw [hscan]
          exact scan_literal (splitQuoted_fits hsplit)
  | symbol hs hk hrest =>
      rw [scan_symbol hs hk hrest] at hafter ⊢
      have hhead : ∀ a ∈ f.head?, isWordChar a = false :=
        fun a ha => (hs.2.2 a (List.mem_of_mem_head? ha)).1
      exact scan_symbol hs hk (hafter.reserved?_eq_none hs.1 hhead hrest)
  | @notEqual s rest _ hs hs' =>
      rw [scan_notEqual hs, scan_notEqual hs']
  | @stray c cs hc hquote hnone hrest =>
      rw [scan_stray hc hquote hnone hrest] at hafter ⊢
      exact scan_stray hc hquote hnone
        (hafter.reserved?_eq_none (by simp) (by simpa using hc) hrest)

theorem Respelled.head {cs f : List Char} (h : Respelled cs f) :
    ∃ c ∈ cs.head?, ∃ d ∈ f.head?, Alike c d := by
  have hwords : ∀ {w w' : List Char}, IsWord w → upper w' = upper w →
      ∃ c ∈ w.head?, ∃ d ∈ w'.head?, Alike c d := by
    intro w w' hw hw'
    obtain ⟨c, cs, rfl, hc⟩ := head_of_isWord hw
    obtain ⟨d, ds, rfl, hd⟩ := head_of_isWord (isWord_of_upper_eq hw hw')
    exact ⟨c, rfl, d, rfl, .inr (.inl ⟨hc, hd⟩)⟩
  cases h with
  | @phrase w rest w' gap v' k hw hrest hk hw' hv' hgap hspace =>
      obtain ⟨c, hc, d, hd, halike⟩ := hwords hw hw'
      exact ⟨c, by simp [Option.mem_def.mp hc], d, by simp [Option.mem_def.mp hd], halike⟩
  | reserved hw hrest hphrase hk hw' =>
      obtain ⟨c, hc, d, hd, halike⟩ := hwords hw hw'
      exact ⟨c, by simp [Option.mem_def.mp hc], d, hd, halike⟩
  | plain hw hrest hphrase hplain =>
      obtain ⟨c, hc, d, hd, halike⟩ := hwords hw rfl
      exact ⟨c, by simp [Option.mem_def.mp hc], d, hd, halike⟩
  | quote cs =>
      obtain ⟨t, ht⟩ := exists_scan_text '\'' cs
      exact ⟨'\'', rfl, '\'', by simp [ht], .inl rfl⟩
  | symbol hs hk hrest =>
      obtain ⟨a, as, rfl⟩ := List.exists_cons_of_ne_nil hs.1
      exact ⟨a, rfl, a, rfl, .inl rfl⟩
  | @notEqual s rest _ hs hs' =>
      have hsign : ∀ {u : List Char}, u = ['!', '='] ∨ u = ['<', '>'] →
          ∃ c ∈ ['!', '<'], u.head? = some c := by
        rintro u (rfl | rfl) <;> simp
      obtain ⟨c, hc, hhead⟩ := hsign hs
      obtain ⟨d, hd, hhead'⟩ := hsign hs'
      exact ⟨c, by simp [hhead], d, hhead', .inr (.inr ⟨hc, hd⟩)⟩
  | @stray c cs hc hquote hnone hrest => exact ⟨c, rfl, c, rfl, .inl rfl⟩

/-- The first word stays the same but for its case. -/
theorem Respelled.takeWhile_eq {cs f after : List Char} (h : Respelled cs f)
    (hafter : Continues f (scan cs).rest after) :
    upper ((f ++ after).takeWhile isWordChar) = upper (cs.takeWhile isWordChar) := by
  have hsame : ∀ {a b : List Char}, (∃ c ∈ a.head?, ∃ d ∈ b.head?, Alike c d) →
      a.head?.any isWordChar = false →
      upper ((b ++ after).takeWhile isWordChar) = upper (a.takeWhile isWordChar) := by
    rintro a b ⟨c, hc, d, hd, halike⟩ hword
    obtain ⟨as, rfl⟩ := List.head?_eq_some_iff.mp hc
    obtain ⟨bs, rfl⟩ := List.head?_eq_some_iff.mp hd
    have hc : isWordChar c = false := by simpa using hword
    simp [hc, halike.isWordChar_eq]
  have hhead := h.head
  cases h with
  | @phrase w rest w' gap v' k hw hrest hk hw' hv' hgap hspace =>
      have hbreak : WordBreak (gap ++ (v' ++ after)) := by
        obtain ⟨a, as, rfl⟩ := List.exists_cons_of_ne_nil hgap
        exact isWordChar_of_isSpace (hspace a (by simp))
      rw [List.append_assoc, List.append_assoc, takeWhile_run (isWord_of_upper_eq hw hw').2 hbreak,
        takeWhile_run hw.2 hrest, hw']
  | reserved hw hrest hphrase hk hw' =>
      rw [scan_reserved hw hrest hphrase hk] at hafter
      have hword := isWord_of_upper_eq hw hw'
      rw [takeWhile_run hword.2 (hafter.wordBreak (hword.getLast?_any []) hrest),
        takeWhile_run hw.2 hrest, hw']
  | plain hw hrest hphrase hplain =>
      rw [scan_plain hw hrest hphrase hplain] at hafter
      rw [takeWhile_run hw.2 (hafter.wordBreak (hw.getLast?_any []) hrest),
        takeWhile_run hw.2 hrest]
  | quote cs => exact hsame hhead rfl
  | symbol hs hk hrest =>
      obtain ⟨a, as, rfl⟩ := List.exists_cons_of_ne_nil hs.1
      exact hsame hhead (hs.2.2 a (by simp)).1
  | notEqual hs hs' =>
      apply hsame hhead
      rcases hs with rfl | rfl <;> rfl
  | stray hc hquote hnone hrest => exact hsame hhead hc

/-! ## Texts that are laid out anew -/

/-- The second text says the same as the first, token by token: each token in a
spelling of its own, with other white space between the tokens, or none where
the tokens stay apart without. -/
inductive Relaid : List Char → List Char → Prop
  | nil : Relaid [] []
  | cons {cs f gap rest : List Char} (hne : cs ≠ []) (hspelled : (scan cs).token.SpelledBy f)
      (hspace : ∀ c ∈ gap, isSpace c = true)
      (hkeep : (scan cs).rest.takeWhile isSpace ≠ [] → gap ≠ [] ∨ ∀ d ∈ rest.head?, Parted f d)
      (hlast : (scan cs).rest.dropWhile isSpace = [] → gap = [])
      (hrest : Relaid ((scan cs).rest.dropWhile isSpace) rest) : Relaid cs (f ++ gap ++ rest)

structure Resembles (cs cs' : List Char) : Prop where
  head : ∀ d ∈ cs'.head?, ∃ c ∈ cs.head?, Alike c d
  firstWord : upper (cs'.takeWhile isWordChar) = upper (cs.takeWhile isWordChar)
  nil : cs = [] → cs' = []

theorem Resembles.isSpace_eq_false {cs cs' : List Char} (h : Resembles cs cs')
    (hcs : ∀ c ∈ cs.head?, isSpace c = false) : ∀ d ∈ cs'.head?, isSpace d = false := by
  intro d hd
  obtain ⟨c, hc, halike⟩ := h.head d hd
  exact halike.isSpace_eq_false (hcs c hc)

theorem Resembles.continues {f rest after gap : List Char}
    (h : Resembles (rest.dropWhile isSpace) after) (hspace : ∀ c ∈ gap, isSpace c = true)
    (hkeep : rest.takeWhile isSpace ≠ [] → gap ≠ [] ∨ ∀ d ∈ after.head?, Parted f d)
    (hlast : rest.dropWhile isSpace = [] → gap = []) : Continues f rest (gap ++ after) := by
  constructor
  · intro d hd
    cases gap with
    | cons a gap =>
        obtain rfl : a = d := by simpa using hd
        exact .inl (hspace a (by simp))
    | nil =>
        by_cases hnone : rest.takeWhile isSpace = []
        · have hrest : rest.dropWhile isSpace = rest := by
            simpa [hnone] using List.takeWhile_append_dropWhile (p := isSpace) (l := rest)
          rw [hrest] at h
          exact .inr (.inl (h.head d hd))
        · exact .inr (.inr ((hkeep hnone).resolve_left (by simp) d hd))
  · have hafter := h.isSpace_eq_false (head_dropWhile_isSpace rest)
    rw [nextWord_append hspace hafter]
    exact h.firstWord
  · rintro rfl
    rw [hlast rfl, h.nil rfl, List.append_nil]

namespace Relaid

variable {cs cs' : List Char}

theorem resembles (h : Relaid cs cs') : Resembles cs cs' := by
  induction h with
  | nil => exact ⟨by simp, rfl, fun _ => rfl⟩
  | @cons cs f gap rest hne hspelled hspace hkeep hlast hrest ih =>
      have hrespelled := respelled_of_spelledBy hne hspelled
      refine ⟨?_, ?_, fun hnil => absurd hnil hne⟩
      · intro b hb
        obtain ⟨c, hc, d, hd, halike⟩ := hrespelled.head
        obtain rfl : d = b := by simpa [Option.mem_def.mp hd] using hb
        exact ⟨c, hc, halike⟩
      · rw [List.append_assoc]
        exact hrespelled.takeWhile_eq (ih.continues hspace hkeep hlast)

theorem exists_reads (h : Relaid cs cs') : ∃ ts, Reads cs ts [] ∧ Reads cs' ts [] := by
  induction h with
  | nil => exact ⟨[], .refl [], .refl []⟩
  | @cons cs f gap rest hne hspelled hspace hkeep hlast hrest ih =>
      obtain ⟨ts, hreads, hreads'⟩ := ih
      have hresembles := hrest.resembles
      have hrespelled := respelled_of_spelledBy hne hspelled
      have hscan := hrespelled.scan_eq (hresembles.continues hspace hkeep hlast)
      obtain ⟨-, -, d, hd, -⟩ := hrespelled.head
      have hf : f ≠ [] := by
        rintro rfl
        cases hd
      refine ⟨(scan cs).token :: ts, .head hne hreads, ?_⟩
      rw [List.append_assoc]
      apply Reads.head_of_scan hf hscan
      rwa [dropWhile_append_gap hspace
        (hresembles.isSpace_eq_false (head_dropWhile_isSpace _))]

end Relaid

/-- A text that is laid out anew has the tokens that it had. -/
theorem tokens_of_relaid {settings : Settings} {x y : String}
    (h : Relaid ((cursorText settings x).dropWhile isSpace)
      ((cursorText settings y).dropWhile isSpace)) :
    (Parser.ofText settings x).tokensLeft = (Parser.ofText settings y).tokensLeft := by
  obtain ⟨ts, hreads, hreads'⟩ := h.exists_reads
  have hx : (Parser.ofText settings x).tokensLeft = ts := Reads.tokens_eq hreads
  have hy : (Parser.ofText settings y).tokensLeft = ts := Reads.tokens_eq hreads'
  rw [hx, hy]

/-! ## Texts with the same tokens -/

/-- The outcomes for two texts, with their tokens and their lengths, say the same. -/
inductive SameOutcome (tokens tokens' : List (Nat × Token)) (length length' : Nat) :
    Except Error Statement → Except Error Statement → Prop
  | statement (s : Statement) : SameOutcome tokens tokens' length length' (.ok s) (.ok s)
  | view {s s' : Statement} (hkind : s.kind = .createView)
      (hs : s' = { s with viewSelect := s'.viewSelect }) :
      SameOutcome tokens tokens' length length' (.ok s) (.ok s')
  | unexpected {index offset offset' : Nat} {t : Token}
      (htoken : tokens[index]? = some (offset, t)) (htoken' : tokens'[index]? = some (offset', t))
      (wanted : String) (found found' : String) :
      SameOutcome tokens tokens' length length'
        (.error (.syntactic offset (.expected wanted (some found))))
        (.error (.syntactic offset' (.expected wanted (some found'))))
  | unfinished (wanted : String) :
      SameOutcome tokens tokens' length length'
        (.error (.syntactic length (.expected wanted none)))
        (.error (.syntactic length' (.expected wanted none)))
  | breaks {index offset offset' : Nat} {t : Token}
      (htoken : tokens[index]? = some (offset, t)) (htoken' : tokens'[index]? = some (offset', t))
      (reason : Reason) :
      SameOutcome tokens tokens' length length' (.error (.semantic offset reason))
        (.error (.semantic offset' reason))
  | invalid (reason : Reason) :
      SameOutcome tokens tokens' length length' (.error (.semantic length reason))
        (.error (.semantic length' reason))

theorem token_eq_of_map_eq {tokens tokens' : List (Nat × Token)}
    (h : tokens.map (·.2) = tokens'.map (·.2)) {index offset offset' : Nat} {t t' : Token}
    (htoken : tokens[index]? = some (offset, t)) (htoken' : tokens'[index]? = some (offset', t')) :
    t' = t := by
  have hindex := congrArg (·[index]?) h
  simpa [htoken, htoken'] using hindex.symm

/-- Two outcomes that tell one verdict say the same. -/
theorem Verdict.Told.sameOutcome {tokens tokens' : List (Nat × Token)} {length length' : Nat}
    {verdict : Verdict} {outcome outcome' : Except Error Statement}
    (htokens : tokens.map (·.2) = tokens'.map (·.2)) (h : verdict.Told tokens length outcome)
    (h' : verdict.Told tokens' length' outcome') :
    SameOutcome tokens tokens' length length' outcome outcome' := by
  cases h with
  | statement s =>
      cases h' with
      | statement => exact .statement s
      | view hkind query => exact .view hkind rfl
  | view hkind query =>
      cases h' with
      | statement s => exact .view hkind rfl
      | view hkind' query' => exact .view hkind rfl
  | invalid reason =>
      cases h' with
      | invalid => exact .invalid reason
  | unfinished state =>
      cases h' with
      | unfinished => exact .unfinished state.expectation
  | unexpected htoken state found =>
      cases h' with
      | unexpected htoken' _ found' =>
          obtain rfl := token_eq_of_map_eq htokens htoken htoken'
          exact .unexpected htoken htoken' state.expectation found found'
  | breaks htoken state reason =>
      cases h' with
      | breaks htoken' =>
          obtain rfl := token_eq_of_map_eq htokens htoken htoken'
          exact .breaks htoken htoken' reason

theorem parseOne_told {settings : Settings} (hlimit : settings.maxInputLength = 0) (x : String) :
    ((Parser.ofText settings x).draft.judge (Parser.ofText settings x).tokensLeft).Told
      (Parser.ofText settings x).cursor.tokens (byteLength (cursorText settings x))
      (parseOne settings x) := by
  have htold := Parser.judge_told (p := Parser.ofText settings x) rfl (Cursor.placed_ofText _)
  rwa [← parseOne_eq_answer (.inl hlimit)] at htold

def ReadAlike (settings : Settings) (x y : String) : Prop :=
  SameOutcome (tokenize (String.ofList (cursorText settings x)))
    (tokenize (String.ofList (cursorText settings y))) (byteLength (cursorText settings x))
    (byteLength (cursorText settings y)) (parseOne settings x) (parseOne settings y)

theorem readAlike_of_tokensLeft {settings : Settings} (hlimit : settings.maxInputLength = 0)
    {x y : String}
    (h : (Parser.ofText settings x).tokensLeft = (Parser.ofText settings y).tokensLeft) :
    ReadAlike settings x y := by
  have hx := parseOne_told hlimit x
  have hy := parseOne_told hlimit y
  rw [← h] at hy
  rw [ReadAlike, ← tokens_ofText, ← tokens_ofText]
  exact hx.sameOutcome h hy

/-- Nothing but its tokens decides what a text is read as.  So nothing changes
when the text is laid out anew: reserved words in another case, other white
space between the tokens and inside of phrases, `!=` for `<>`. -/
theorem outcome_decided_by_tokens {settings : Settings} (hlimit : settings.maxInputLength = 0) :
    (∀ x y, (tokenize (String.ofList (cursorText settings x))).map (·.2) =
        (tokenize (String.ofList (cursorText settings y))).map (·.2) → ReadAlike settings x y) ∧
      ∀ x y, Relaid ((cursorText settings x).dropWhile isSpace)
        ((cursorText settings y).dropWhile isSpace) → ReadAlike settings x y := by
  constructor
  · intro x y htokens
    apply readAlike_of_tokensLeft hlimit
    rwa [tokensLeft_ofText, tokensLeft_ofText]
  · intro x y hrelaid
    exact readAlike_of_tokensLeft hlimit (tokens_of_relaid hrelaid)

/-- Two texts with the same tokens, and one that is laid out anew. -/
theorem outcome_decided_by_tokens_notEqual :
    ReadAlike { maxInputLength := 0 } "delete from t where a!='1'or b not\tin('2');"
        "DELETE  FROM t\nWHERE a <> '1' OR b NOT IN ( '2' )" ∧
      ReadAlike { maxInputLength := 0 } "delete!=" " Delete\n<>" := by
  refine ⟨(outcome_decided_by_tokens rfl).1 _ _ (by decide +kernel),
    (outcome_decided_by_tokens rfl).2 _ _ ?_⟩
  have hx : (cursorText { maxInputLength := 0 } "delete!=").dropWhile isSpace =
      "delete".toList ++ "!=".toList := by decide +kernel
  have hy : (cursorText { maxInputLength := 0 } " Delete\n<>").dropWhile isSpace =
      "Delete".toList ++ ['\n'] ++ ("<>".toList ++ [] ++ []) := by decide +kernel
  have hdelete : scan ("delete".toList ++ "!=".toList) =
      ⟨.keyword .delete, "delete".toList, "!=".toList⟩ :=
    scan_reserved (by decide) (by rfl) (by decide +kernel) (by decide +kernel)
  have hsign : scan "!=".toList = ⟨.keyword .notEqual, "!=".toList, []⟩ :=
    scan_notEqual (.inl rfl) []
  have hlast : Relaid "!=".toList ("<>".toList ++ [] ++ []) := by
    apply Relaid.cons
    · decide
    · rw [hsign]
      exact .reserved (by decide +kernel)
    · simp
    · rw [hsign]
      simp
    · simp
    · rw [hsign]
      exact .nil
  rw [hx, hy]
  apply Relaid.cons
  · decide
  · rw [hdelete]
    exact .reserved (by decide +kernel)
  · simp [isSpace]
  · simp
  · rw [hdelete]
    decide
  · rwa [hdelete]

end SqlReader
