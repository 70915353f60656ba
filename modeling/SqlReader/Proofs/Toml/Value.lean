import SqlReader.Proofs.Json.Text
import SqlReader.Proofs.Toml.Text

/-!
# Written values

Texts, whole numbers and truth values as they stand behind a key, up to the end of
the line.
-/

namespace SqlReader.Toml

open Json (hexValue? all_isDigit_toDigits toDigits_ne_zero_cons head_toDigits)

/-- A text that is read as a value at the end of a line. -/
structure Spells (text : List Char) (v : Value) : Prop where
  head : ∃ c cs, text = c :: cs ∧ isBlank c = false
  read : ∀ fuel room rest, readValue (fuel + 1) room (text ++ '\n' :: rest) = some (v, '\n' :: rest)

/-! ## Runs of characters -/

section Span

variable {p : Char → Bool} {run rest : List Char} (hrun : ∀ c ∈ run, p c = true)
  (hrest : ∀ c ∈ rest.head?, p c = false)
include hrun hrest

theorem takeWhile_append_of_head : (run ++ rest).takeWhile p = run := by
  rw [List.takeWhile_append_of_pos hrun]
  cases rest with
  | nil => simp
  | cons c rest => simp [hrest c rfl]

theorem dropWhile_append_of_head : (run ++ rest).dropWhile p = rest := by
  rw [List.dropWhile_append_of_pos hrun]
  cases rest with
  | nil => rfl
  | cons c rest => simp [hrest c rfl]

end Span

/-! ## Texts -/

theorem head_writeString (cs : List Char) :
    ∃ c cs', writeString cs = c :: cs' ∧ isBlank c = false := by
  cases hstyle : styleOf cs <;> simp [writeString, hstyle, isBlank]

theorem spells_writeString (cs : List Char) :
    Spells (writeString cs) (.string (String.ofList cs)) where
  head := head_writeString cs
  read fuel room rest := readValue_writeString cs fuel room (by simp)

/-! ## Bare words -/

section Words

variable {word : List Char} {v : Value}

theorem readBare_append {rest : List Char} (hword : ∀ c ∈ word, isBareChar c = true)
    (hdate : isDate word = false) (hrest : ∀ c ∈ rest.head?, isBareChar c = false) :
    readBare (word ++ rest) = (bareValue? word).map (·, rest) := by
  rw [readBare, takeWhile_append_of_head hword hrest, dropWhile_append_of_head hword hrest]
  simp [hdate]

/-- A character of a bare word opens neither a text nor a container. -/
theorem readValue_bare {c : Char} (hc : isBareChar c = true) (fuel room : Nat) (cs : List Char) :
    readValue (fuel + 1) room (c :: cs) = readBare (c :: cs) := by
  have hne (d : Char) (hd : isBareChar d = false) (ds : List Char) : c :: cs ≠ d :: ds := by
    intro heq
    obtain ⟨rfl, -⟩ := List.cons.inj heq
    simp [hc] at hd
  rw [readValue]
  · exact fun _ => hne '"' rfl _
  · exact fun _ => hne '\'' rfl _
  · exact fun _ => hne '"' rfl _
  · exact fun _ => hne '\'' rfl _
  · exact fun _ _ heq _ => hne '[' rfl _ heq
  · exact fun _ _ heq _ => hne '\x7b' rfl _ heq

theorem isBlank_of_isBareChar {c : Char} (hc : isBareChar c = true) : isBlank c = false := by
  have hspace : c ≠ ' ' := by
    rintro rfl
    cases hc
  have htab : c ≠ '\t' := by
    rintro rfl
    cases hc
  simp [isBlank, hspace, htab]

theorem spells_word (hall : word.all isBareChar = true) (hdate : isDate word = false)
    (hvalue : bareValue? word = some v) : Spells word v := by
  cases word with
  | nil => cases hvalue
  | cons c cs =>
      have hword := List.all_eq_true.mp hall
      have hc := hword c List.mem_cons_self
      refine ⟨⟨c, cs, rfl, isBlank_of_isBareChar hc⟩, fun fuel room rest => ?_⟩
      rw [List.cons_append, readValue_bare hc, ← List.cons_append,
        readBare_append hword hdate (by simp [isBareChar]), hvalue]
      rfl

theorem spells_boolean (b : Bool) :
    Spells (if b then ['t', 'r', 'u', 'e'] else ['f', 'a', 'l', 's', 'e']) (.boolean b) := by
  cases b with
  | true => exact spells_word rfl rfl rfl
  | false => exact spells_word rfl rfl rfl

end Words

/-! ## Whole numbers -/

section Numbers

variable (n : Nat)

theorem hexValue?_of_isDigit {c : Char} (hc : c.isDigit = true) :
    hexValue? c = some (c.toNat - '0'.toNat) := by
  obtain ⟨hlow, hhigh⟩ := Char.isDigit_iff_toNat.mp hc
  have hrange : 48 ≤ c.toNat ∧ c.toNat ≤ 57 := ⟨hlow, hhigh⟩
  simp [hexValue?, hrange]

section Digits

variable {ds : List Char} (hds : ∀ d ∈ ds, d.isDigit = true)
include hds

theorem digitsValue_eq : digitsValue 10 ds = Nat.ofDigitChars 10 ds 0 := by
  refine List.foldl_ext _ _ 0 fun n d hd => ?_
  rw [hexValue?_of_isDigit (hds d hd), Option.getD_some]

theorem isDate_of_isDigit : isDate ds = false := by
  unfold isDate
  split
  · have hdash := hds '-' (by simp)
    cases hdash
  · rfl

theorem digits?_eq_self (hne : ds ≠ []) : digits? Char.isDigit ds = some ds := by
  have hbar : '_' ∉ ds := fun hmem => by cases hds '_' hmem
  simp only [digits?, List.splitOn_eq_singleton hbar]
  simpa [hne] using hds

end Digits

theorem wholeDigits?_toDigits :
    wholeDigits? (Nat.toDigits 10 n) = some (Nat.toDigits 10 n) := by
  have hdigits := List.all_eq_true.mp (all_isDigit_toDigits n)
  rw [wholeDigits?, digits?_eq_self hdigits Nat.toDigits_ne_nil]
  split
  next hparts => exact absurd (Option.some.inj hparts) (toDigits_ne_zero_cons n _ _)
  · rfl

theorem splitSign_toDigits : splitSign (Nat.toDigits 10 n) = (false, Nat.toDigits 10 n) := by
  obtain ⟨c, cs, hcs, hc⟩ := head_toDigits n
  rw [hcs, splitSign.eq_def]
  split
  next heq =>
    obtain ⟨rfl, -⟩ := List.cons.inj heq
    cases hc
  next heq =>
    obtain ⟨rfl, -⟩ := List.cons.inj heq
    cases hc
  · rfl

theorem integer?_toDigits : integer? (Nat.toDigits 10 n) = some (Int.ofNat n) := by
  have hdigits := List.all_eq_true.mp (all_isDigit_toDigits n)
  have hvalue : digitsValue 10 (Nat.toDigits 10 n) = n := by
    rw [digitsValue_eq hdigits, Nat.ofDigitChars_ten_toDigits]
  have hbase (mark : Char) (hmark : mark.isDigit = false) (cs : List Char) :
      Nat.toDigits 10 n ≠ '0' :: mark :: cs := by
    intro heq
    have hdigit := hdigits mark (by simp [heq])
    simp [hmark] at hdigit
  rw [integer?.eq_def]
  split
  next heq => exact absurd heq (hbase 'x' rfl _)
  next heq => exact absurd heq (hbase 'o' rfl _)
  next heq => exact absurd heq (hbase 'b' rfl _)
  · simp [splitSign_toDigits, wholeDigits?_toDigits, hvalue]

theorem spells_integer : Spells (Nat.toDigits 10 n) (.integer (Int.ofNat n)) := by
  have hdigits := List.all_eq_true.mp (all_isDigit_toDigits n)
  refine spells_word (List.all_eq_true.mpr fun c hc => ?_) (isDate_of_isDigit hdigits) ?_
  · simp [isBareChar, Char.isAlphanum, hdigits c hc]
  · have hletter (c : Char) (cs : List Char) (hc : c.isDigit = false) :
        ¬ (Nat.toDigits 10 n == c :: cs) = true := by
      intro heq
      have hdigit := hdigits c (by simp [beq_iff_eq.mp heq])
      simp [hc] at hdigit
    rw [bareValue?, if_neg (hletter 't' _ rfl), if_neg (hletter 'f' _ rfl), integer?_toDigits]
    rfl

end Numbers

end SqlReader.Toml
