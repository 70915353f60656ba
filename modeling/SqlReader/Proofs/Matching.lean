import SqlReader.Lexicon.Cursor

/-!
# Matches of the vocabulary

The longest entry at the start of a word is found by looking at that word and
the next one, the longest at the start of a symbol by looking at two characters.
-/

namespace SqlReader

open Text

/-! ## Letters -/

theorem isUpper_iff {c : Char} : c.isUpper = true ↔ 65 ≤ c.toNat ∧ c.toNat ≤ 90 := by
  change decide (65 ≤ c.val ∧ c.val ≤ 90) = true ↔ _
  rw [decide_eq_true_iff, UInt32.le_iff_toNat_le, UInt32.le_iff_toNat_le]
  rfl

theorem isLower_iff {c : Char} : c.isLower = true ↔ 97 ≤ c.toNat ∧ c.toNat ≤ 122 := by
  change (decide (97 ≤ c.val) && decide (c.val ≤ 122)) = true ↔ _
  rw [Bool.and_eq_true, decide_eq_true_iff, decide_eq_true_iff, UInt32.le_iff_toNat_le,
    UInt32.le_iff_toNat_le]
  rfl

theorem isDigit_iff {c : Char} : c.isDigit = true ↔ 48 ≤ c.toNat ∧ c.toNat ≤ 57 := by
  change (decide (48 ≤ c.val) && decide (c.val ≤ 57)) = true ↔ _
  rw [Bool.and_eq_true, decide_eq_true_iff, decide_eq_true_iff, UInt32.le_iff_toNat_le,
    UInt32.le_iff_toNat_le]
  rfl

theorem toUpper_of_not_isLower {c : Char} (h : ¬ c.isLower = true) : c.toUpper = c := by
  refine dif_neg fun hrange => h (isLower_iff.mpr ?_)
  exact ⟨UInt32.le_iff_toNat_le.mp hrange.1, UInt32.le_iff_toNat_le.mp hrange.2⟩

theorem toNat_toUpper {c : Char} (h : c.isLower = true) : c.toUpper.toNat = c.toNat - 32 := by
  obtain ⟨hlow, hhigh⟩ := isLower_iff.mp h
  have hrange : 'a'.val ≤ c.val ∧ c.val ≤ 'z'.val :=
    ⟨UInt32.le_iff_toNat_le.mpr hlow, UInt32.le_iff_toNat_le.mpr hhigh⟩
  have hval : c.toUpper.val = c.val + ('A'.val - 'a'.val) := by
    delta Char.toUpper
    rw [dif_pos hrange]
  have hshift : ('A'.val - 'a'.val).toNat = 4294967264 := by decide
  have htoNat : c.toUpper.toNat = (c.toNat + 4294967264) % 2 ^ 32 := by
    rw [← hshift]
    exact (congrArg UInt32.toNat hval).trans (UInt32.toNat_add _ _)
  omega

theorem isUpper_toUpper {c : Char} (h : c.isLower = true) : c.toUpper.isUpper = true := by
  have hrange := isLower_iff.mp h
  rw [isUpper_iff, toNat_toUpper h]
  omega

theorem isAlpha_eq (c : Char) : c.isAlpha = (c.isUpper || c.isLower) := rfl

/-- Whether a character belongs to a word does not depend on its case. -/
theorem isWordChar_toUpper (c : Char) : isWordChar c.toUpper = isWordChar c := by
  by_cases hlow : c.isLower = true
  · simp [isWordChar, Char.isAlphanum, isAlpha_eq, hlow, isUpper_toUpper hlow]
  · rw [toUpper_of_not_isLower hlow]

theorem all_isWordChar_upper (cs : List Char) :
    (upper cs).all isWordChar = cs.all isWordChar := by
  simp [upper, List.all_map, Function.comp_def, isWordChar_toUpper]

theorem isWordChar_of_isSpace {c : Char} (h : isSpace c = true) : isWordChar c = false := by
  simp only [isSpace, Bool.or_eq_true, beq_iff_eq] at h
  rcases h with (((rfl | rfl) | rfl) | rfl) | rfl <;> rfl

/-! ## Words -/

def IsWord (w : List Char) : Prop := w ≠ [] ∧ w.all isWordChar = true

def IsSymbol (s : List Char) : Prop :=
  s ≠ [] ∧ s.length ≤ 2 ∧
    ∀ c ∈ s, isWordChar c = false ∧ isSpace c = false ∧ c ≠ '\''

instance : DecidablePred IsWord := fun w =>
  inferInstanceAs (Decidable (w ≠ [] ∧ w.all isWordChar = true))

-- over the characters of the text, not over all characters
instance : DecidablePred IsSymbol := fun s =>
  decidable_of_iff
    (s ≠ [] ∧ s.length ≤ 2 ∧ s.all (fun c => !isWordChar c && !isSpace c && c != '\'') = true)
    (by simp [IsSymbol, and_assoc])

/-- No word goes on at the start of the text. -/
def WordBreak (cs : List Char) : Prop := cs.head?.any isWordChar = false

def nextWord (cs : List Char) : List Char := (cs.dropWhile isSpace).takeWhile isWordChar

def afterNextWord (cs : List Char) : List Char := (cs.dropWhile isSpace).dropWhile isWordChar

theorem wordBreak_dropWhile (cs : List Char) : WordBreak (cs.dropWhile isWordChar) := by
  have h := List.head?_dropWhile_not isWordChar cs
  unfold WordBreak
  cases hhead : (cs.dropWhile isWordChar).head? with
  | none => rfl
  | some c => simpa [hhead] using h

theorem takeWhile_run {w rest : List Char} (hw : w.all isWordChar = true)
    (hrest : WordBreak rest) : (w ++ rest).takeWhile isWordChar = w := by
  rw [List.takeWhile_append_of_pos (by simpa using hw)]
  cases rest with
  | nil => simp
  | cons c rest => simp_all [WordBreak]

theorem dropWhile_run {w rest : List Char} (hw : w.all isWordChar = true)
    (hrest : WordBreak rest) : (w ++ rest).dropWhile isWordChar = rest := by
  rw [List.dropWhile_append_of_pos (by simpa using hw)]
  cases rest with
  | nil => rfl
  | cons c rest => simp_all [WordBreak]

/-- A text is split into the run of word characters at its start and the rest in one way. -/
theorem run_unique {w v rest tail : List Char} (h : w ++ rest = v ++ tail)
    (hw : w.all isWordChar = true) (hv : v.all isWordChar = true) (hrest : WordBreak rest)
    (htail : WordBreak tail) : w = v ∧ rest = tail := by
  have hwv : w = v := by rw [← takeWhile_run hw hrest, h, takeWhile_run hv htail]
  subst hwv
  exact ⟨rfl, List.append_cancel_left h⟩

/-- Without white space before it there is no next word. -/
theorem takeWhile_isSpace_ne_nil {rest : List Char} (hrest : WordBreak rest)
    (hnext : nextWord rest ≠ []) : rest.takeWhile isSpace ≠ [] := by
  intro hgap
  apply hnext
  cases rest with
  | nil => rfl
  | cons c rest =>
      cases hspace : isSpace c with
      | true => simp [hspace] at hgap
      | false => simp_all [nextWord, WordBreak]

/-! ## The vocabulary -/

theorem splitWord_eq_some_iff {w cs taken rest : List Char} :
    splitWord w cs = some (taken, rest) ↔ cs = taken ++ rest ∧ upper taken = upper w := by
  induction w generalizing cs taken with
  | nil =>
      simp only [splitWord, Option.some.injEq, Prod.mk.injEq, upper, List.map_nil,
        List.map_eq_nil_iff]
      constructor
      · rintro ⟨rfl, rfl⟩
        exact ⟨rfl, rfl⟩
      · rintro ⟨rfl, rfl⟩
        exact ⟨rfl, rfl⟩
  | cons a w ih =>
      cases cs with
      | nil =>
          simp only [splitWord, reduceCtorEq, false_iff, not_and]
          intro h
          obtain ⟨rfl, rfl⟩ := List.append_eq_nil_iff.mp h.symm
          simp [upper]
      | cons c cs =>
          simp only [splitWord]
          constructor
          · intro h
            split at h
            next hletter =>
              obtain ⟨⟨t, r⟩, hp, he⟩ := Option.map_eq_some_iff.mp h
              obtain ⟨rfl, rfl⟩ : c :: t = taken ∧ r = rest := by simpa using he
              obtain ⟨rfl, hupper⟩ := ih.mp hp
              have hsame : a.toUpper = c.toUpper := by simpa [sameLetter] using hletter
              exact ⟨rfl, by simp_all [upper]⟩
            · cases h
          · rintro ⟨hcat, hupper⟩
            cases taken with
            | nil => simp [upper] at hupper
            | cons b taken =>
                simp only [List.cons_append, List.cons.injEq] at hcat
                obtain ⟨rfl, rfl⟩ := hcat
                simp only [upper, List.map_cons, List.cons.injEq] at hupper
                rw [if_pos (by simp [sameLetter, hupper.1]), ih.mpr ⟨rfl, hupper.2⟩]
                rfl

/-- The keyword that some words spell together, in any case. -/
def reserved? (ws : List (List Char)) : Option Keyword :=
  (vocabulary.find? fun e => e.words.map String.toList == ws.map upper).map (·.keyword)

theorem reserved?_congr {ws vs : List (List Char)} (h : ws.map upper = vs.map upper) :
    reserved? ws = reserved? vs := by
  rw [reserved?, reserved?, h]

/-- Every entry of the vocabulary is the only one that is spelled as it is. -/
theorem reserved?_of_mem : ∀ e ∈ vocabulary,
    reserved? (e.words.map String.toList) = some e.keyword := by
  decide

theorem exists_mem_of_reserved? {ws : List (List Char)} {k : Keyword}
    (h : reserved? ws = some k) :
    ∃ e ∈ vocabulary, e.words.map String.toList = ws.map upper ∧ e.keyword = k := by
  obtain ⟨e, he, hk⟩ := Option.map_eq_some_iff.mp h
  exact ⟨e, List.mem_of_find?_eq_some he, by simpa using List.find?_some he, hk⟩

theorem nil_notMem_of_mem : ∀ e ∈ vocabulary, [] ∉ e.words.map String.toList := by
  decide

theorem ne_nil_of_reserved? {ws : List (List Char)} {k : Keyword} (h : reserved? ws = some k) :
    ∀ w ∈ ws, w ≠ [] := by
  rintro w hw rfl
  obtain ⟨e, he, hwords, -⟩ := exists_mem_of_reserved? h
  apply nil_notMem_of_mem e he
  rw [hwords]
  exact List.mem_map.mpr ⟨[], hw, rfl⟩

/-- An entry is a symbol, a word or two words. -/
inductive Entry.Form (e : Entry) : Prop
  | symbol {s : List Char} (hwords : e.words.map String.toList = [s]) (hs : IsSymbol s)
  | word {w : List Char} (hwords : e.words.map String.toList = [w]) (hw : IsWord w)
  | phrase {w v : List Char} (hwords : e.words.map String.toList = [w, v]) (hw : IsWord w)
      (hv : IsWord v)

def Entry.hasForm (e : Entry) : Bool :=
  match e.words.map String.toList with
  | [w] => decide (IsSymbol w) || decide (IsWord w)
  | [w, v] => decide (IsWord w) && decide (IsWord v)
  | _ => false

theorem hasForm_of_mem : ∀ e ∈ vocabulary, e.hasForm = true := by
  decide

theorem form_of_mem {e : Entry} (he : e ∈ vocabulary) : e.Form := by
  have h := hasForm_of_mem e he
  unfold Entry.hasForm at h
  split at h
  next w hwords =>
    rcases Bool.or_eq_true _ _ ▸ h with hs | hw
    · exact .symbol hwords (of_decide_eq_true hs)
    · exact .word hwords (of_decide_eq_true hw)
  next w v hwords =>
    obtain ⟨hw, hv⟩ := Bool.and_eq_true _ _ ▸ h
    exact .phrase hwords (of_decide_eq_true hw) (of_decide_eq_true hv)
  · cases h

theorem endsInWord_of_mem : ∀ e ∈ vocabulary,
    e.endsInWord = (e.words.map String.toList).all (·.all isWordChar) := by
  decide

/-! ## Matches at the start of a word -/

section Run

variable {w rest : List Char} {e : Entry} {m : Match}

def wordMatch (w rest : List Char) (k : Keyword) : Match := ⟨k, w, rest⟩

def phraseMatch (w rest : List Char) (k : Keyword) : Match :=
  ⟨k, w ++ rest.takeWhile isSpace ++ nextWord rest, afterNextWord rest⟩

theorem match?_eq_some_iff :
    e.match? w = some m ↔
      splitPhrase (e.words.map String.toList) w = some (m.text, m.rest) ∧
        m.keyword = e.keyword ∧ (e.endsInWord = true → WordBreak m.rest) := by
  unfold Entry.match? WordBreak
  constructor
  · intro h
    split at h
    · cases h
    next taken rest hsplit =>
      split at h
      · cases h
      next hbreak =>
        obtain rfl := Option.some.inj h
        exact ⟨hsplit, rfl, by simpa using hbreak⟩
  · rintro ⟨hsplit, hkeyword, hbreak⟩
    rw [hsplit]
    simp only
    rw [if_neg (by simpa using hbreak), ← hkeyword]

theorem all_isWordChar_of_upper_eq {v : List Char} (h : upper v = upper w)
    (hw : w.all isWordChar = true) : v.all isWordChar = true := by
  rw [← all_isWordChar_upper, h, all_isWordChar_upper, hw]

theorem splitWord_run_iff {v taken tail : List Char} (hw : w.all isWordChar = true)
    (hrest : WordBreak rest) (hv : v.all isWordChar = true) (htail : WordBreak tail) :
    splitWord v (w ++ rest) = some (taken, tail) ↔ upper w = upper v ∧ w = taken ∧ rest = tail := by
  rw [splitWord_eq_some_iff]
  constructor
  · rintro ⟨hcat, hupper⟩
    have htaken := all_isWordChar_of_upper_eq hupper hv
    obtain ⟨rfl, rfl⟩ := run_unique hcat hw htaken hrest htail
    exact ⟨hupper, rfl, rfl⟩
  · rintro ⟨hupper, rfl, rfl⟩
    exact ⟨rfl, hupper⟩

theorem splitPhrase_pair_iff {x y cs taken tail : List Char} :
    splitPhrase [x, y] cs = some (taken, tail) ↔
      ∃ t r u, splitWord x cs = some (t, r) ∧ r.takeWhile isSpace ≠ [] ∧
        splitWord y (r.dropWhile isSpace) = some (u, tail) ∧
        taken = t ++ r.takeWhile isSpace ++ u := by
  simp only [splitPhrase]
  constructor
  · intro h
    split at h
    · cases h
    next t r hx =>
      split at h
      · cases h
      next hgap =>
        obtain ⟨⟨u, s⟩, hy, he⟩ := Option.map_eq_some_iff.mp h
        obtain ⟨rfl, rfl⟩ := Prod.mk.inj he
        exact ⟨t, r, u, hx, by simpa using hgap, hy, rfl⟩
  · rintro ⟨t, r, u, hx, hgap, hy, rfl⟩
    rw [hx]
    simp only
    rw [if_neg (by simpa using hgap), hy]
    rfl

theorem wordBreak_of_space {r : List Char} (h : r.takeWhile isSpace ≠ []) : WordBreak r := by
  cases r with
  | nil => rfl
  | cons c r =>
      cases hspace : isSpace c with
      | true => exact isWordChar_of_isSpace hspace
      | false => simp [hspace] at h

theorem toUpper_eq_self {c : Char} (hc : isWordChar c = false) : c.toUpper = c := by
  apply toUpper_of_not_isLower
  intro hlow
  simp [isWordChar, Char.isAlphanum, isAlpha_eq, hlow] at hc

/-- Only word characters have a case. -/
theorem upper_eq_self {s : List Char} (hs : ∀ c ∈ s, isWordChar c = false) : upper s = s :=
  (List.map_congr_left fun c hc => toUpper_eq_self (hs c hc)).trans (List.map_id s)

theorem IsSymbol.upper_eq {s : List Char} (hs : IsSymbol s) : upper s = s :=
  upper_eq_self fun c hc => (hs.2.2 c hc).1

theorem eq_of_upper_eq {s t : List Char} (hs : ∀ c ∈ s, isWordChar c = false)
    (h : upper t = upper s) : t = s := by
  have ht : ∀ c ∈ t, isWordChar c = false := by
    intro c hc
    have hmem : c.toUpper ∈ upper s := h ▸ List.mem_map_of_mem hc
    rw [upper_eq_self hs] at hmem
    rw [← isWordChar_toUpper]
    exact hs _ hmem
  rw [← upper_eq_self ht, h, upper_eq_self hs]

theorem match?_symbol_iff (he : e ∈ vocabulary) {s : List Char}
    (hwords : e.words.map String.toList = [s]) (hs : IsSymbol s) :
    e.match? w = some m ↔ w = s ++ m.rest ∧ m = ⟨e.keyword, s, m.rest⟩ := by
  have hends : e.endsInWord = false := by
    obtain ⟨c, cs, rfl⟩ := List.exists_cons_of_ne_nil hs.1
    rw [endsInWord_of_mem e he, hwords]
    simp [(hs.2.2 c (by simp)).1]
  rw [match?_eq_some_iff, hwords, splitPhrase, splitWord_eq_some_iff, hends]
  constructor
  · rintro ⟨⟨rfl, hupper⟩, hkeyword, -⟩
    have htext := eq_of_upper_eq (fun c hc => (hs.2.2 c hc).1) hupper
    refine ⟨by rw [htext], ?_⟩
    cases m
    simp_all
  · rintro ⟨rfl, hm⟩
    rw [hm]
    exact ⟨⟨rfl, rfl⟩, rfl, by simp⟩

theorem head_of_isWord (hw : IsWord w) : ∃ a as, w = a :: as ∧ isWordChar a = true := by
  obtain ⟨a, as, rfl⟩ := List.exists_cons_of_ne_nil hw.1
  exact ⟨a, as, rfl, (Bool.and_eq_true _ _ ▸ hw.2).1⟩

theorem splitWord_eq_none {c : Char} {cs : List Char} (hw : IsWord w)
    (hc : isWordChar c = false) : splitWord w (c :: cs) = none := by
  obtain ⟨a, as, rfl, ha⟩ := head_of_isWord hw
  rw [splitWord, if_neg]
  intro h
  have hsame : a.toUpper = c.toUpper := by simpa [sameLetter] using h
  rw [← isWordChar_toUpper, hsame, isWordChar_toUpper, hc] at ha
  cases ha

theorem match?_word_iff (he : e ∈ vocabulary) {v : List Char}
    (hwords : e.words.map String.toList = [v]) (hv : IsWord v) (hw : IsWord w)
    (hrest : WordBreak rest) :
    e.match? (w ++ rest) = some m ↔ upper w = upper v ∧ m = wordMatch w rest e.keyword := by
  have hends : e.endsInWord = true := by
    rw [endsInWord_of_mem e he, hwords]
    simpa using hv.2
  rw [match?_eq_some_iff, hwords, splitPhrase]
  constructor
  · rintro ⟨hsplit, hkeyword, hbreak⟩
    obtain ⟨hupper, htext, hrest'⟩ :=
      (splitWord_run_iff hw.2 hrest hv.2 (hbreak hends)).mp hsplit
    refine ⟨hupper, ?_⟩
    cases m
    simp_all [wordMatch]
  · rintro ⟨hupper, rfl⟩
    exact ⟨(splitWord_run_iff hw.2 hrest hv.2 hrest).mpr ⟨hupper, rfl, rfl⟩, rfl, fun _ => hrest⟩

theorem match?_phrase_iff (he : e ∈ vocabulary) {x y : List Char}
    (hwords : e.words.map String.toList = [x, y]) (hx : IsWord x) (hy : IsWord y)
    (hw : IsWord w) (hrest : WordBreak rest) :
    e.match? (w ++ rest) = some m ↔
      upper w = upper x ∧ upper (nextWord rest) = upper y ∧
        m = phraseMatch w rest e.keyword := by
  have hends : e.endsInWord = true := by
    rw [endsInWord_of_mem e he, hwords]
    simpa using ⟨by simpa using hx.2, by simpa using hy.2⟩
  have hcut : rest.dropWhile isSpace = nextWord rest ++ afterNextWord rest :=
    List.takeWhile_append_dropWhile.symm
  have hnext : (nextWord rest).all isWordChar = true := List.all_takeWhile
  have hafter : WordBreak (afterNextWord rest) := wordBreak_dropWhile _
  rw [match?_eq_some_iff, hwords, splitPhrase_pair_iff]
  constructor
  · rintro ⟨⟨t, r, u, hsplit, hgap, hsplit', htext⟩, hkeyword, hbreak⟩
    obtain ⟨hupper, rfl, rfl⟩ :=
      (splitWord_run_iff hw.2 hrest hx.2 (wordBreak_of_space hgap)).mp hsplit
    rw [hcut] at hsplit'
    obtain ⟨hupper', rfl, htail⟩ :=
      (splitWord_run_iff hnext hafter hy.2 (hbreak hends)).mp hsplit'
    refine ⟨hupper, hupper', ?_⟩
    cases m
    simp_all [phraseMatch]
  · rintro ⟨hupper, hupper', rfl⟩
    have hne : nextWord rest ≠ [] := by
      intro hnil
      rw [hnil] at hupper'
      exact hy.1 (by simpa [upper] using hupper'.symm)
    have hgap := takeWhile_isSpace_ne_nil hrest hne
    refine ⟨⟨w, rest, nextWord rest, ?_, hgap, ?_, rfl⟩, rfl, fun _ => hafter⟩
    · exact (splitWord_run_iff hw.2 hrest hx.2 hrest).mpr ⟨hupper, rfl, rfl⟩
    · rw [hcut]
      exact (splitWord_run_iff hnext hafter hy.2 hafter).mpr ⟨hupper', rfl, rfl⟩

/-- An entry matches the word or the word and the next one. -/
theorem match?_run_cases (he : e ∈ vocabulary) (hw : IsWord w) (hrest : WordBreak rest)
    (hm : e.match? (w ++ rest) = some m) :
    (∃ k, reserved? [w] = some k ∧ m = wordMatch w rest k) ∨
      ∃ k, reserved? [w, nextWord rest] = some k ∧ m = phraseMatch w rest k := by
  have hkeyword := reserved?_of_mem e he
  cases form_of_mem he with
  | symbol hwords hs =>
      obtain ⟨hcat, -⟩ := (match?_symbol_iff he hwords hs).mp hm
      obtain ⟨a, as, rfl, ha⟩ := head_of_isWord hw
      obtain ⟨b, bs, rfl⟩ := List.exists_cons_of_ne_nil hs.1
      obtain ⟨rfl, -⟩ := List.cons.inj hcat
      rw [(hs.2.2 a (by simp)).1] at ha
      cases ha
  | word hwords hv =>
      obtain ⟨hupper, rfl⟩ := (match?_word_iff he hwords hv hw hrest).mp hm
      rw [hwords] at hkeyword
      exact .inl ⟨_, by rw [← hkeyword]; exact reserved?_congr (by simp [hupper]), rfl⟩
  | phrase hwords hx hy =>
      obtain ⟨hupper, hupper', rfl⟩ := (match?_phrase_iff he hwords hx hy hw hrest).mp hm
      rw [hwords] at hkeyword
      exact .inr ⟨_, by rw [← hkeyword]; exact reserved?_congr (by simp [hupper, hupper']), rfl⟩

theorem upper_of_mem : ∀ e ∈ vocabulary, ∀ v ∈ e.words.map String.toList, upper v = v := by
  decide

theorem exists_match?_word (hw : IsWord w) (hrest : WordBreak rest) {k : Keyword}
    (h : reserved? [w] = some k) :
    ∃ e ∈ vocabulary, e.match? (w ++ rest) = some (wordMatch w rest k) := by
  obtain ⟨e, he, hwords, rfl⟩ := exists_mem_of_reserved? h
  have hidem := upper_of_mem e he (upper w) (by simp [hwords])
  have hupper : IsWord (upper w) :=
    ⟨by simpa [upper] using hw.1, by rw [all_isWordChar_upper, hw.2]⟩
  exact ⟨e, he, (match?_word_iff he hwords hupper hw hrest).mpr ⟨hidem.symm, rfl⟩⟩

theorem exists_match?_phrase (hw : IsWord w) (hrest : WordBreak rest) {k : Keyword}
    (h : reserved? [w, nextWord rest] = some k) :
    ∃ e ∈ vocabulary, e.match? (w ++ rest) = some (phraseMatch w rest k) := by
  obtain ⟨e, he, hwords, rfl⟩ := exists_mem_of_reserved? h
  have hidem := upper_of_mem e he (upper w) (by simp [hwords])
  have hidem' := upper_of_mem e he (upper (nextWord rest)) (by simp [hwords])
  cases form_of_mem he with
  | symbol hwords' _ => simp [hwords'] at hwords
  | word hwords' _ => simp [hwords'] at hwords
  | phrase hwords' hx hy =>
      have hiff := match?_phrase_iff (m := phraseMatch w rest e.keyword) he hwords' hx hy hw hrest
      rw [hwords'] at hwords
      obtain ⟨rfl, rfl⟩ : _ = upper w ∧ _ = upper (nextWord rest) := by simpa using hwords
      exact ⟨e, he, hiff.mpr ⟨hidem.symm, hidem'.symm, rfl⟩⟩

theorem length_le_of_foldl_longer {ms : List Match} {best : Option Match}
    (h : ms.foldl longer best = some m) :
    (∀ b ∈ best, b.length ≤ m.length) ∧ ∀ a ∈ ms, a.length ≤ m.length := by
  induction ms generalizing best with
  | nil => simp_all
  | cons a ms ih =>
      obtain ⟨hbest, hms⟩ := ih h
      cases best with
      | none => simpa using ⟨hbest a rfl, hms⟩
      | some b =>
          by_cases hlt : b.length ≤ a.length
          · have ha : a.length ≤ m.length := hbest a (by simp [longer, hlt])
            simpa using ⟨Nat.le_trans hlt ha, ha, hms⟩
          · have hb : b.length ≤ m.length := hbest b (by simp [longer, hlt])
            simpa using ⟨hb, by omega, hms⟩

theorem foldl_longer_isSome (ms : List Match) (b : Match) :
    (ms.foldl longer (some b)).isSome = true := by
  induction ms generalizing b with
  | nil => rfl
  | cons a ms ih =>
      rw [List.foldl_cons, longer]
      split <;> exact ih _

/-- Nothing that an entry matches is longer than the longest match. -/
theorem exists_longestMatch {cs : List Char} (he : e ∈ vocabulary) (hm : e.match? cs = some m) :
    ∃ best, longestMatch cs = some best ∧ m.length ≤ best.length := by
  have hmem : m ∈ vocabulary.filterMap (·.match? cs) := List.mem_filterMap.mpr ⟨e, he, hm⟩
  have hsome : (longestMatch cs).isSome = true := by
    rw [longestMatch, longestIn]
    generalize vocabulary.filterMap (·.match? cs) = ms at hmem
    cases ms with
    | nil => cases hmem
    | cons a ms => exact foldl_longer_isSome ms a
  obtain ⟨best, hbest⟩ := Option.isSome_iff_exists.mp hsome
  exact ⟨best, hbest, (length_le_of_foldl_longer hbest).2 m hmem⟩

/-- A phrase wins over the word that it begins with. -/
theorem longestMatch_run (hw : IsWord w) (hrest : WordBreak rest) :
    longestMatch (w ++ rest) =
      ((reserved? [w, nextWord rest]).map (phraseMatch w rest)).or
        ((reserved? [w]).map (wordMatch w rest)) := by
  cases hphrase : reserved? [w, nextWord rest] with
  | some k =>
      obtain ⟨e, he, hm⟩ := exists_match?_phrase hw hrest hphrase
      obtain ⟨best, hbest, hle⟩ := exists_longestMatch he hm
      obtain ⟨e', he', hm'⟩ := exists_entry_of_longestIn hbest
      rcases match?_run_cases he' hw hrest hm' with ⟨k', _, rfl⟩ | ⟨k', hk', rfl⟩
      · -- the phrase is longer by the white space between its words
        have hnext := ne_nil_of_reserved? hphrase (nextWord rest) (by simp)
        have hgap := List.length_pos_iff.mpr (takeWhile_isSpace_ne_nil hrest hnext)
        simp only [Match.length, phraseMatch, wordMatch, List.length_append] at hle
        omega
      · rw [hphrase] at hk'
        rw [hbest, ← Option.some.inj hk']
        rfl
  | none =>
      cases hword : reserved? [w] with
      | some k =>
          obtain ⟨e, he, hm⟩ := exists_match?_word hw hrest hword
          obtain ⟨best, hbest, -⟩ := exists_longestMatch he hm
          obtain ⟨e', he', hm'⟩ := exists_entry_of_longestIn hbest
          rcases match?_run_cases he' hw hrest hm' with ⟨k', hk', rfl⟩ | ⟨k', hk', rfl⟩
          · rw [hword] at hk'
            rw [hbest, ← Option.some.inj hk']
            rfl
          · simp [hphrase] at hk'
      | none =>
          apply Option.eq_none_iff_forall_ne_some.mpr
          intro m hm
          obtain ⟨e, he, hm⟩ := exists_entry_of_longestIn hm
          rcases match?_run_cases he hw hrest hm with ⟨k, hk, -⟩ | ⟨k, hk, -⟩
          · simp [hword] at hk
          · simp [hphrase] at hk

/-! ## Matches at the start of a symbol -/

theorem match?_symbol_cases {c : Char} {cs : List Char} (he : e ∈ vocabulary)
    (hc : isWordChar c = false) (hm : e.match? (c :: cs) = some m) :
    IsSymbol m.text ∧ m.text ++ m.rest = c :: cs ∧ reserved? [m.text] = some m.keyword := by
  have hkeyword := reserved?_of_mem e he
  cases form_of_mem he with
  | symbol hwords hs =>
      obtain ⟨hcat, hm⟩ := (match?_symbol_iff he hwords hs).mp hm
      rw [hwords] at hkeyword
      rw [hm]
      exact ⟨hs, hcat.symm, hkeyword⟩
  | word hwords hw =>
      obtain ⟨hsplit, -⟩ := match?_eq_some_iff.mp hm
      rw [hwords, splitPhrase, splitWord_eq_none hw hc] at hsplit
      cases hsplit
  | phrase hwords hx hy =>
      obtain ⟨hsplit, -⟩ := match?_eq_some_iff.mp hm
      obtain ⟨t, r, u, hsplit, -⟩ := splitPhrase_pair_iff.mp (hwords ▸ hsplit)
      rw [splitWord_eq_none hx hc] at hsplit
      cases hsplit

theorem exists_match?_symbol {s : List Char} (hs : IsSymbol s) {k : Keyword}
    (h : reserved? [s] = some k) (rest : List Char) :
    ∃ e ∈ vocabulary, e.match? (s ++ rest) = some ⟨k, s, rest⟩ := by
  obtain ⟨e, he, hwords, rfl⟩ := exists_mem_of_reserved? h
  rw [List.map_singleton, hs.upper_eq] at hwords
  exact ⟨e, he, (match?_symbol_iff he hwords hs).mpr ⟨rfl, rfl⟩⟩

end Run

/-- The text `after` may stand where `before` does without joining what stands
before it: it is empty, or begins with white space or as `before` does. -/
def Fits (before after : List Char) : Prop :=
  ∀ c ∈ after.head?, isSpace c = true ∨ before.head? = some c

/-- No symbol that is longer than the longest match begins with it. -/
theorem symbol_length_le {c : Char} {cs after s tail : List Char} {m : Match} {k : Keyword}
    (hc : isWordChar c = false) (hm : longestMatch (c :: cs) = some m)
    (hfits : Fits m.rest after) (hs : IsSymbol s) (hk : reserved? [s] = some k)
    (hcat : s ++ tail = m.text ++ after) : s.length ≤ m.text.length := by
  obtain ⟨e, he, hme⟩ := exists_entry_of_longestIn hm
  obtain ⟨hm₁, hm₂, -⟩ := match?_symbol_cases he hc hme
  obtain ⟨d, ds, hd⟩ := List.exists_cons_of_ne_nil hm₁.1
  match s, hs with
  | [], _ => simp
  | [a], _ => simp [hd]
  | a :: b :: rest, hs =>
      obtain rfl : rest = [] := List.length_eq_zero_iff.mp (by
        have := hs.2.1
        simp only [List.length_cons] at this
        omega)
      cases hds : ds with
      | cons f fs => simp [hd, hds]
      | nil =>
          -- the longer symbol would match the text with which we began
          simp only [hd, hds, List.cons_append, List.nil_append, List.cons.injEq] at hcat
          obtain ⟨rfl, rfl⟩ := hcat
          have hnext : m.rest.head? = some b :=
            (hfits b rfl).resolve_left (by simp [(hs.2.2 b (by simp)).2.1])
          obtain ⟨r, hr⟩ := List.head?_eq_some_iff.mp hnext
          obtain ⟨e', he', hme'⟩ := exists_match?_symbol hs hk r
          rw [hd, hds, hr] at hm₂
          obtain ⟨best, hbest, hle⟩ := exists_longestMatch he' hme'
          rw [show [a, b] ++ r = c :: cs from hm₂, hm] at hbest
          obtain rfl := Option.some.inj hbest
          simpa [Match.length] using hle

/-- A symbol stays the longest match when a fitting text comes after it. -/
theorem longestMatch_symbol {c : Char} {cs after : List Char} {m : Match}
    (hc : isWordChar c = false) (hm : longestMatch (c :: cs) = some m)
    (hfits : Fits m.rest after) :
    longestMatch (m.text ++ after) = some ⟨m.keyword, m.text, after⟩ := by
  obtain ⟨e, he, hme⟩ := exists_entry_of_longestIn hm
  obtain ⟨hs, hcat, hk⟩ := match?_symbol_cases he hc hme
  obtain ⟨e', he', hme'⟩ := exists_match?_symbol hs hk after
  obtain ⟨best, hbest, hle⟩ := exists_longestMatch he' hme'
  obtain ⟨e'', he'', hme''⟩ := exists_entry_of_longestIn hbest
  obtain ⟨hs'', hcat'', hk''⟩ : IsSymbol best.text ∧ best.text ++ best.rest = m.text ++ after ∧
      reserved? [best.text] = some best.keyword := by
    obtain ⟨d, ds, hd⟩ := List.exists_cons_of_ne_nil hs.1
    have hdword : isWordChar d = false := (hs.2.2 d (by simp [hd])).1
    rw [hd, List.cons_append] at hme'' ⊢
    exact match?_symbol_cases he'' hdword hme''
  have hge := symbol_length_le hc hm hfits hs'' hk'' hcat''
  obtain ⟨htext, hrest⟩ := List.append_inj hcat'' (Nat.le_antisymm hge hle)
  rw [htext, hk] at hk''
  rw [hbest]
  cases best
  simp_all

end SqlReader
