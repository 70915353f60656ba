import Mathlib.Data.List.Basic
import Mathlib.Data.List.TakeWhile
import SqlReader.Toml.Writer

/-!
# Written strings

A written string is read back from any text that does not go on with a quote, in
whichever of the four styles it is written.  Between double quotes each character
is undone by itself; between three of them no more than two quotes stand side by
side, so that only the last three can close the string.
-/

namespace SqlReader.Toml

/-! ## Characters -/

def escaped (long : Bool) (c : Char) : List Char :=
  if c == '\x08' then ['\\', 'b']
  else if c == '\t' then ['\\', 't']
  else if c == '\n' then (if long then ['\n'] else ['\\', 'n'])
  else if c == '\x0c' then ['\\', 'f']
  else if c == '\r' then ['\\', 'r']
  else if c == '\\' then ['\\', '\\']
  else if isControl c then '\\' :: 'u' :: hex4 c.toNat
  else [c]

section Escapes

variable {long : Bool} {run : Nat} {c : Char} (cs : List Char)

/-- What follows a backslash and stands for the character, whatever comes next. -/
structure Encodes (code : List Char) (c : Char) : Prop where
  escape : ∀ rest, escape? (code ++ rest) = some (c, rest)
  /-- The backslash does not join two lines. -/
  separate : ∀ rest, joinLines? (code ++ rest) = none

theorem encodes_letter {letter : Char} (hc : ∀ rest, escape? (letter :: rest) = some (c, rest))
    (hblank : isBlank letter = false) (hbreak : letter ≠ '\n' ∧ letter ≠ '\r') :
    Encodes [letter] c where
  escape := hc
  separate rest := by simp [joinLines?, skipBlank, hblank, lineBreak?, hbreak]

theorem hex?_hex4 : ∀ n < 0x80, hex? (hex4 n) = some n := by
  decide

theorem encodes_number (hc : c.toNat < 0x80) : Encodes ('u' :: hex4 c.toNat) c where
  escape rest := by
    have hlength : (hex4 c.toNat).length = 4 := rfl
    have hscalar : scalar? c.toNat = some c := by
      simp [scalar?, Nat.isValidChar, show c.toNat < 0xD800 by omega, Char.ofNat_toNat]
    rw [List.cons_append, escape?, escape?.hexEscape, if_pos (by simp [hlength]), ← hlength,
      List.take_left, List.drop_left, hex?_hex4 c.toNat hc]
    simp [hscalar]
  separate rest := rfl

theorem isControl_iff : isControl c = true ↔ (c.toNat < 0x20 ∧ c ≠ '\t') ∨ c.toNat = 0x7F := by
  simp [isControl]

/-- A character is written with an escape that stands for it, or by itself. -/
theorem escaped_cases (long : Bool) (c : Char) :
    (∃ code, escaped long c = '\\' :: code ∧ Encodes code c) ∨
      (escaped long c = [c] ∧ c ≠ '\\' ∧ c ≠ '\r' ∧
        (isControl c = true → long = true ∧ c = '\n')) := by
  have hletter (letter : Char) (hc : ∀ rest, escape? (letter :: rest) = some (c, rest))
      (hblank : isBlank letter = false) (hbreak : letter ≠ '\n' ∧ letter ≠ '\r') :
      ∃ code, ['\\', letter] = '\\' :: code ∧ Encodes code c :=
    ⟨[letter], rfl, encodes_letter hc hblank hbreak⟩
  simp only [escaped, beq_iff_eq]
  split_ifs with hb ht hn hlong hf hr hslash hcontrol
  · exact .inl (hletter 'b' (by simp [escape?, hb]) rfl (by decide))
  · exact .inl (hletter 't' (by simp [escape?, ht]) rfl (by decide))
  · subst hn
    exact .inr ⟨rfl, by decide, by decide, fun _ => ⟨hlong, rfl⟩⟩
  · exact .inl (hletter 'n' (by simp [escape?, hn]) rfl (by decide))
  · exact .inl (hletter 'f' (by simp [escape?, hf]) rfl (by decide))
  · exact .inl (hletter 'r' (by simp [escape?, hr]) rfl (by decide))
  · exact .inl (hletter '\\' (by simp [escape?, hslash]) rfl (by decide))
  · have hsmall : c.toNat < 0x80 := by
      rcases isControl_iff.mp hcontrol with h | h <;> omega
    exact .inl ⟨_, rfl, encodes_number hsmall⟩
  · exact .inr ⟨rfl, hslash, hr, fun h => absurd h hcontrol⟩

/-- What is written for the first character of a text: a quote, an escape that stands
for the character, or the character. -/
theorem escapeAll_cases (long : Bool) (run : Nat) (c : Char) (cs : List Char) :
    (c = '"' ∧ long = true ∧ run < 2 ∧
        escapeAll long run (c :: cs) = c :: escapeAll long (run + 1) cs) ∨
      (∃ code, Encodes code c ∧
        escapeAll long run (c :: cs) = '\\' :: (code ++ escapeAll long 0 cs)) ∨
      (c ≠ '"' ∧ c ≠ '\\' ∧ c ≠ '\r' ∧ (isControl c = true → long = true ∧ c = '\n') ∧
        escapeAll long run (c :: cs) = c :: escapeAll long 0 cs) := by
  by_cases hquote : c = '"'
  · subst hquote
    by_cases hrun : run < if long then 2 else 0
    · have hlong : long = true := by
        by_contra h
        simp [h] at hrun
      exact .inl ⟨rfl, hlong, by simpa [hlong] using hrun, by simp [escapeAll, hrun]⟩
    · have hcode : Encodes ['"'] '"' := encodes_letter (fun _ => rfl) rfl (by decide)
      refine .inr (.inl ⟨_, hcode, ?_⟩)
      simp only [escapeAll, beq_self_eq_true, if_true, if_neg hrun, List.singleton_append]
  · have hall : escapeAll long run (c :: cs) = escaped long c ++ escapeAll long 0 cs := by
      simp [escapeAll, escaped, hquote]
    rcases escaped_cases long c with ⟨code, hc, hcode⟩ | ⟨hc, hslash, hreturn, hcontrol⟩
    · exact .inr (.inl ⟨code, hcode, by rw [hall, hc, List.cons_append]⟩)
    · exact .inr (.inr ⟨hquote, hslash, hreturn, hcontrol, by rw [hall, hc, List.singleton_append]⟩)

theorem length_le_escapeAll (long : Bool) (run : Nat) (cs : List Char) :
    cs.length ≤ (escapeAll long run cs).length := by
  induction cs generalizing run with
  | nil => exact Nat.zero_le _
  | cons c cs ih =>
      have hquote := ih (run + 1)
      have hcs := ih 0
      rcases escapeAll_cases long run c cs with
        ⟨-, -, -, hc⟩ | ⟨code, -, hc⟩ | ⟨-, -, -, -, hc⟩ <;>
        simp only [hc, List.length_cons, List.length_append] <;> omega

end Escapes

/-! ## One line in double quotes -/

section Basic

variable {c : Char} {code : List Char} (cs rest : List Char) {fuel : Nat}

theorem readBasic_code (hcode : Encodes code c) :
    readBasic (fuel + 1) ('\\' :: (code ++ cs)) =
      (readBasic fuel cs).map fun p => (c :: p.1, p.2) := by
  simp [readBasic, hcode.escape]

theorem readBasic_plain (hquote : c ≠ '"') (hslash : c ≠ '\\') (hcontrol : isControl c = false) :
    readBasic (fuel + 1) (c :: cs) = (readBasic fuel cs).map fun p => (c :: p.1, p.2) := by
  rw [readBasic, if_neg (by simp [hcontrol])]
  · exact fun heq => hquote heq
  · exact fun heq => hslash heq

theorem readBasic_escapeAll (hfuel : cs.length ≤ fuel) :
    readBasic (fuel + 1) (escapeAll false 0 cs ++ '"' :: rest) = some (cs, rest) := by
  induction cs generalizing fuel with
  | nil => rfl
  | cons c cs ih =>
      obtain ⟨fuel, rfl⟩ := Nat.exists_eq_add_one_of_ne_zero (Nat.ne_zero_of_lt hfuel)
      have hcs := ih (Nat.le_of_succ_le_succ hfuel)
      rcases escapeAll_cases false 0 c cs with
        ⟨-, hlong, -⟩ | ⟨code, hcode, hc⟩ | ⟨hquote, hslash, -, hcontrol, hc⟩
      · cases hlong
      · rw [hc, List.cons_append, List.append_assoc, readBasic_code _ hcode, hcs]
        rfl
      · have hplain : isControl c = false := by
          by_contra h
          exact absurd (hcontrol (Bool.of_not_eq_false h)).1 (by decide)
        rw [hc, List.cons_append, readBasic_plain _ hquote hslash hplain, hcs]
        rfl

end Basic

/-! ## Closing quotes -/

section Closing

variable (quote : Char) (cs : List Char) {rest : List Char}

theorem closing?_of_ne {c : Char} {cs : List Char} (hc : c ≠ quote) :
    closing? quote (c :: cs) = none := by
  simp [closing?, hc]

/-- Three quotes close a string, and what is left of its content belongs to them if it is
quotes and nothing else. -/
theorem closing?_append (hrun : (cs.takeWhile (· == quote)).length ≤ 2)
    (hrest : rest.head? ≠ some quote) :
    closing? quote (cs ++ quote :: quote :: quote :: rest) =
      if cs.all (· == quote) then some (cs, rest) else none := by
  have hend : (quote :: quote :: quote :: rest).takeWhile (· == quote) = [quote, quote, quote] := by
    cases rest with
    | nil => simp
    | cons d rest => simpa using hrest
  by_cases hall : cs.all (· == quote) = true
  · have heq := List.all_eq_true.mp hall
    rw [List.takeWhile_eq_self_iff.mpr heq] at hrun
    have hcs : cs = List.replicate cs.length quote :=
      List.eq_replicate_of_mem fun c hc => beq_iff_eq.mp (heq c hc)
    have hinner : min cs.length 2 = cs.length := by omega
    rw [closing?, List.takeWhile_append_of_pos heq, hend, if_pos hall]
    simp [hinner, ← hcs]
  · have hpart : ¬ (cs.takeWhile (· == quote)).length = cs.length := by
      intro hlength
      have hself := (List.takeWhile_prefix (· == quote)).eq_of_length hlength
      exact hall (List.all_eq_true.mpr (List.takeWhile_eq_self_iff.mp hself))
    rw [closing?, List.takeWhile_append, if_neg hpart, if_pos (by omega), if_neg hall]

end Closing

/-! ## Several lines in double quotes -/

section LongBasic

variable {c : Char} {code : List Char} (cs : List Char) {rest : List Char} {fuel : Nat}

theorem readLongBasic_code (hcode : Encodes code c) :
    readLongBasic (fuel + 1) ('\\' :: (code ++ cs)) =
      (readLongBasic fuel cs).map fun p => (c :: p.1, p.2) := by
  have hclosing : closing? '"' ('\\' :: (code ++ cs)) = none := closing?_of_ne _ (by decide)
  simp [readLongBasic, hclosing, hcode.separate, hcode.escape]

theorem readLongBasic_plain (hclosing : closing? '"' (c :: cs) = none) (hslash : c ≠ '\\')
    (hreturn : c ≠ '\r') (hcontrol : isControl c = true → c = '\n') :
    readLongBasic (fuel + 1) (c :: cs) = (readLongBasic fuel cs).map fun p => (c :: p.1, p.2) := by
  have hallowed : ¬ (isControl c && c != '\n') = true := by simpa using hcontrol
  simp only [readLongBasic, hclosing, beq_iff_eq, if_neg hslash, if_neg hreturn, if_neg hallowed]

/-- Written quotes do not stand in a row of three, with those before the text counted in. -/
theorem length_takeWhile_escapeAll {run : Nat} (hrun : run ≤ 2) :
    ((escapeAll true run cs).takeWhile (· == '"')).length + run ≤ 2 := by
  induction cs generalizing run with
  | nil => simpa [escapeAll] using hrun
  | cons c cs ih =>
      rcases escapeAll_cases true run c cs with
        ⟨rfl, -, hless, hc⟩ | ⟨code, -, hc⟩ | ⟨hquote, -, -, -, hc⟩
      · have hcs := @ih (run + 1) (by omega)
        rw [hc, List.takeWhile_cons_of_pos (by decide), List.length_cons]
        omega
      · rw [hc, List.takeWhile_cons_of_neg (by decide)]
        simpa using hrun
      · rw [hc, List.takeWhile_cons_of_neg (by simpa using hquote)]
        simpa using hrun

/-- A text that is written with quotes only is written as it is. -/
theorem escapeAll_of_all {run : Nat} (h : (escapeAll true run cs).all (· == '"') = true) :
    escapeAll true run cs = cs := by
  induction cs generalizing run with
  | nil => rfl
  | cons c cs ih =>
      rcases escapeAll_cases true run c cs with
        ⟨rfl, -, -, hc⟩ | ⟨code, -, hc⟩ | ⟨hquote, -, -, -, hc⟩
      · rw [hc] at h ⊢
        rw [ih (by simpa using h)]
      · simp [hc] at h
      · simp [hc, hquote] at h

theorem readLongBasic_escapeAll {run : Nat} (hrun : run ≤ 2) (hrest : rest.head? ≠ some '"')
    (hfuel : cs.length ≤ fuel) :
    readLongBasic (fuel + 1) (escapeAll true run cs ++ '"' :: '"' :: '"' :: rest) =
      some (cs, rest) := by
  -- `run` quotes stand before the text: with them it begins with two quotes at most, and
  -- three in a row are those at its end.
  induction cs generalizing fuel run with
  | nil =>
      have hclosing := closing?_append '"' [] (by simp) hrest
      rw [escapeAll, List.nil_append] at *
      simp only [readLongBasic, hclosing, List.all_nil, if_true]
  | cons c cs ih =>
      obtain ⟨fuel, rfl⟩ := Nat.exists_eq_add_one_of_ne_zero (Nat.ne_zero_of_lt hfuel)
      have hless : cs.length ≤ fuel := Nat.le_of_succ_le_succ hfuel
      have hquotes := length_takeWhile_escapeAll (c :: cs) hrun
      have hclosing := closing?_append '"' (escapeAll true run (c :: cs)) (by omega) hrest
      rcases escapeAll_cases true run c cs with
        ⟨rfl, -, hroom, hc⟩ | ⟨code, hcode, hc⟩ | ⟨hquote, hslash, hreturn, hcontrol, hc⟩
      · by_cases hall : (escapeAll true run ('"' :: cs)).all (· == '"') = true
        · rw [if_pos hall, escapeAll_of_all _ hall] at hclosing
          rw [escapeAll_of_all _ hall]
          simp only [List.cons_append] at hclosing ⊢
          simp only [readLongBasic, hclosing]
        · rw [if_neg hall, hc, List.cons_append] at hclosing
          rw [hc, List.cons_append,
            readLongBasic_plain _ hclosing (by decide) (by decide) (by decide),
            ih (Nat.succ_le_of_lt hroom) hless]
          rfl
      · rw [hc, List.cons_append, List.append_assoc, readLongBasic_code _ hcode,
          ih (by omega) hless]
        rfl
      · rw [hc, List.cons_append, readLongBasic_plain _ (closing?_of_ne _ hquote) hslash hreturn
          fun h => (hcontrol h).2, ih (by omega) hless]
        rfl

end LongBasic

/-! ## Runs of a character -/

section Runs

variable (mark : Char) (cs : List Char) {part : List Char}

def stepRun (mark : Char) (state : Nat × Nat) (c : Char) : Nat × Nat :=
  let run := if c == mark then state.1 + 1 else 0
  (run, max state.2 run)

theorem longestRun_eq : longestRun mark cs = (cs.foldl (stepRun mark) (0, 0)).2 := rfl

theorem snd_le_foldl_stepRun (state : Nat × Nat) :
    state.2 ≤ (cs.foldl (stepRun mark) state).2 := by
  induction cs generalizing state with
  | nil => exact Nat.le_refl _
  | cons c cs ih => exact Nat.le_trans (Nat.le_max_left _ _) (ih (stepRun mark state c))

theorem fst_le_snd_foldl_stepRun {state : Nat × Nat} (h : state.1 ≤ state.2) :
    (cs.foldl (stepRun mark) state).1 ≤ (cs.foldl (stepRun mark) state).2 := by
  induction cs generalizing state with
  | nil => exact h
  | cons c cs ih => exact ih (Nat.le_max_right _ _)

theorem length_takeWhile_add_le {state : Nat × Nat} (h : state.1 ≤ state.2) :
    (cs.takeWhile (· == mark)).length + state.1 ≤ (cs.foldl (stepRun mark) state).2 := by
  induction cs generalizing state with
  | nil => simpa using h
  | cons c cs ih =>
      by_cases hc : c = mark
      · have hcs := ih (Nat.le_max_right state.2 (stepRun mark state c).1)
        simp only [hc, stepRun, beq_self_eq_true, if_true, List.takeWhile_cons, List.length_cons,
          List.foldl_cons] at hcs ⊢
        omega
      · have hcs := snd_le_foldl_stepRun mark (c :: cs) state
        have hnone : (c :: cs).takeWhile (· == mark) = [] := by simp [hc]
        rw [hnone, List.length_nil]
        omega

/-- No run in a text is longer than its longest run. -/
theorem length_takeWhile_le_longestRun {cs : List Char} (h : part <:+ cs) :
    (part.takeWhile (· == mark)).length ≤ longestRun mark cs := by
  obtain ⟨before, rfl⟩ := h
  have hstate := fst_le_snd_foldl_stepRun mark before (Nat.le_refl (0, 0).1)
  have hpart := length_takeWhile_add_le mark part hstate
  rw [longestRun_eq, List.foldl_append]
  omega

theorem notMem_of_longestRun {cs : List Char} (h : longestRun mark cs = 0) : mark ∉ cs := by
  intro hmem
  obtain ⟨before, after, rfl⟩ := List.append_of_mem hmem
  have hrun := length_takeWhile_le_longestRun mark (List.suffix_append before (mark :: after))
  simp [h] at hrun

end Runs

/-! ## Single quotes -/

section Literal

variable {cs rest : List Char} {fuel : Nat}

theorem isControl_of_needsEscapes (h : needsEscapes cs = false) {c : Char} (hc : c ∈ cs)
    (hcontrol : isControl c = true) : c = '\n' := by
  by_contra hne
  have hneeds : needsEscapes cs = true := List.any_eq_true.mpr ⟨c, hc, by simp [hcontrol, hne]⟩
  simp [hneeds] at h

theorem readLiteral_append (hplain : ∀ c ∈ cs, c ≠ '\'' ∧ isControl c = false) :
    readLiteral (cs ++ '\'' :: rest) = some (cs, rest) := by
  have hall : ∀ c ∈ cs, (c != '\'' && !isControl c) = true := by simpa using hplain
  rw [readLiteral, List.dropWhile_append_of_pos hall, List.takeWhile_append_of_pos hall]
  simp

theorem readLongLiteral_append (hcontrol : ∀ c ∈ cs, isControl c = true → c = '\n')
    (hrun : ∀ part, part <:+ cs → (part.takeWhile (· == '\'')).length ≤ 2)
    (hrest : rest.head? ≠ some '\'') (hfuel : cs.length ≤ fuel) :
    readLongLiteral (fuel + 1) (cs ++ '\'' :: '\'' :: '\'' :: rest) = some (cs, rest) := by
  -- The bound on the runs is one for all ends of the text, so that it passes to the tail.
  induction cs generalizing fuel with
  | nil =>
      have hclosing := closing?_append '\'' [] (by simp) hrest
      rw [List.nil_append] at *
      simp only [readLongLiteral, hclosing, List.all_nil, if_true]
  | cons c cs ih =>
      obtain ⟨fuel, rfl⟩ := Nat.exists_eq_add_one_of_ne_zero (Nat.ne_zero_of_lt hfuel)
      have hcs := ih (fun d hd => hcontrol d (List.mem_cons_of_mem c hd))
        (fun part hpart => hrun part (hpart.trans (List.suffix_cons c cs)))
        (Nat.le_of_succ_le_succ hfuel)
      have hclosing := closing?_append '\'' (c :: cs) (hrun _ List.suffix_rfl) hrest
      rw [List.cons_append] at hclosing ⊢
      by_cases hall : (c :: cs).all (· == '\'') = true
      · rw [if_pos hall] at hclosing
        simp only [readLongLiteral, hclosing]
      · rw [if_neg hall] at hclosing
        have hc := hcontrol c List.mem_cons_self
        have hreturn : c ≠ '\r' := by
          rintro rfl
          exact absurd (hc rfl) (by decide)
        have hallowed : ¬ (isControl c && c != '\n') = true := by simpa using hc
        simp only [readLongLiteral, hclosing, beq_iff_eq, if_neg hreturn, if_neg hallowed, hcs]
        rfl

end Literal

/-! ## Styles -/

section Styles

variable {cs rest : List Char}

theorem styleOf_literal (h : styleOf cs = .literal) :
    needsEscapes cs = false ∧ longestRun '\'' cs = 0 ∧ '\n' ∉ cs := by
  simp only [styleOf] at h
  split_ifs at h with hbasic hliteral
  simpa [and_assoc] using hliteral

theorem styleOf_longLiteral (h : styleOf cs = .longLiteral) :
    needsEscapes cs = false ∧ longestRun '\'' cs ≤ 2 := by
  simp only [styleOf] at h
  split_ifs at h with hbasic hliteral hlongBasic hlongLiteral
  simpa using hlongLiteral

theorem dropFirstBreak_of_head (h : ∀ c ∈ cs.head?, c ≠ '\n' ∧ c ≠ '\r') :
    dropFirstBreak cs = cs := by
  cases cs with
  | nil => rfl
  | cons c cs => simp [dropFirstBreak, lineBreak?, h c rfl]

/-- The break that is put in front of a text with breaks. -/
def firstBreak (cs : List Char) : List Char := if cs.contains '\n' then ['\n'] else []

theorem dropFirstBreak_append (hhead : '\n' ∉ cs → ∀ c ∈ rest.head?, c ≠ '\n' ∧ c ≠ '\r') :
    dropFirstBreak (firstBreak cs ++ rest) = rest := by
  by_cases hbreak : '\n' ∈ cs
  · simp [firstBreak, hbreak, dropFirstBreak, lineBreak?]
  · simpa [firstBreak, hbreak] using dropFirstBreak_of_head (hhead hbreak)

theorem head_escapeAll (hbreak : '\n' ∉ cs) :
    ∀ c ∈ (escapeAll true 0 cs ++ '"' :: rest).head?, c ≠ '\n' ∧ c ≠ '\r' := by
  cases cs with
  | nil => simp [escapeAll]
  | cons c cs =>
      have hne : c ≠ '\n' := fun heq => hbreak (by simp [heq])
      rcases escapeAll_cases true 0 c cs with
        ⟨rfl, -, -, hc⟩ | ⟨code, -, hc⟩ | ⟨-, -, hreturn, -, hc⟩
      · simp [hc]
      · simp [hc]
      · simp [hc, hne, hreturn]

theorem head_of_controls (hcontrol : ∀ c ∈ cs, isControl c = true → c = '\n') (hbreak : '\n' ∉ cs) :
    ∀ c ∈ (cs ++ '\'' :: rest).head?, c ≠ '\n' ∧ c ≠ '\r' := by
  cases cs with
  | nil => simp
  | cons c cs =>
      have hne : c ≠ '\n' := fun heq => hbreak (by simp [heq])
      have hreturn : c ≠ '\r' := fun heq =>
        hne (hcontrol c List.mem_cons_self (by rw [heq]; rfl))
      simp [hne, hreturn]

end Styles

/-! ## Values -/

section Values

variable (cs : List Char) {rest : List Char} (fuel room : Nat)

theorem readValue_basic (h : ∀ rest', cs ≠ '"' :: '"' :: rest') :
    readValue (fuel + 1) room ('"' :: cs) =
      (readBasic (cs.length + 1) cs).map fun p => (.string (String.ofList p.1), p.2) := by
  rw [readValue]
  exact fun rest' heq => h rest' heq

theorem readValue_literal (h : ∀ rest', cs ≠ '\'' :: '\'' :: rest') :
    readValue (fuel + 1) room ('\'' :: cs) =
      (readLiteral cs).map fun p => (.string (String.ofList p.1), p.2) := by
  rw [readValue]
  exact fun rest' heq => h rest' heq

variable (hrest : rest.head? ≠ some '"' ∧ rest.head? ≠ some '\'')
include hrest

theorem readValue_escapeAll :
    readValue (fuel + 1) room ('"' :: (escapeAll false 0 cs ++ '"' :: rest)) =
      some (.string (String.ofList cs), rest) := by
  have hlength := length_le_escapeAll false 0 cs
  rw [readValue_basic, readBasic_escapeAll cs rest (by simp; omega)]
  · rfl
  · intro rest' heq
    cases cs with
    | nil => exact hrest.1 (by simp [(List.cons.inj heq).2])
    | cons c cs =>
        rcases escapeAll_cases false 0 c cs with
          ⟨-, hlong, -⟩ | ⟨code, -, hc⟩ | ⟨hquote, -, -, -, hc⟩
        · cases hlong
        · simp [hc] at heq
        · simp [hc, hquote] at heq

theorem readValue_literal_append (hplain : ∀ c ∈ cs, c ≠ '\'' ∧ isControl c = false) :
    readValue (fuel + 1) room ('\'' :: (cs ++ '\'' :: rest)) =
      some (.string (String.ofList cs), rest) := by
  rw [readValue_literal, readLiteral_append hplain]
  · rfl
  · intro rest' heq
    cases cs with
    | nil => exact hrest.2 (by simp [(List.cons.inj heq).2])
    | cons c cs => exact (hplain c List.mem_cons_self).1 (List.cons.inj heq).1

theorem readValue_longBasic :
    readValue (fuel + 1) room ('"' :: '"' :: '"' ::
        (firstBreak cs ++ (escapeAll true 0 cs ++ '"' :: '"' :: '"' :: rest))) =
      some (.string (String.ofList cs), rest) := by
  have hlength := length_le_escapeAll true 0 cs
  rw [readValue, dropFirstBreak_append head_escapeAll,
    readLongBasic_escapeAll cs (Nat.zero_le 2) hrest.1 (by simp; omega)]
  rfl

/-- A written string is read back whatever follows it, unless that is a quote. -/
theorem readValue_writeString :
    readValue (fuel + 1) room (writeString cs ++ rest) =
      some (.string (String.ofList cs), rest) := by
  have hbreak : (if cs.contains '\n' then ['\n'] else []) = firstBreak cs := rfl
  cases hstyle : styleOf cs with
  | basic => simpa [writeString, hstyle] using readValue_escapeAll cs fuel room hrest
  | literal =>
      obtain ⟨hneeds, hsingles, hone⟩ := styleOf_literal hstyle
      have hplain : ∀ c ∈ cs, c ≠ '\'' ∧ isControl c = false := by
        intro c hc
        refine ⟨fun heq => notMem_of_longestRun '\'' hsingles (heq ▸ hc), ?_⟩
        by_contra hcontrol
        exact hone (isControl_of_needsEscapes hneeds hc (Bool.of_not_eq_false hcontrol) ▸ hc)
      simpa [writeString, hstyle] using readValue_literal_append cs fuel room hrest hplain
  | longBasic =>
      simpa only [writeString, hstyle, hbreak, List.cons_append, List.nil_append,
        List.append_assoc] using readValue_longBasic cs fuel room hrest
  | longLiteral =>
      obtain ⟨hneeds, hsingles⟩ := styleOf_longLiteral hstyle
      have hcontrol (c : Char) (hc : c ∈ cs) := isControl_of_needsEscapes hneeds hc
      have hrun (part : List Char) (hpart : part <:+ cs) :=
        Nat.le_trans (length_takeWhile_le_longestRun '\'' hpart) hsingles
      simp only [writeString, hstyle, hbreak, List.cons_append, List.nil_append, List.append_assoc,
        readValue]
      rw [dropFirstBreak_append (head_of_controls hcontrol),
        readLongLiteral_append hcontrol hrun hrest.2 (by simp; omega)]
      rfl

end Values

end SqlReader.Toml
