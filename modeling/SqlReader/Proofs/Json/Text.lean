import Mathlib.Data.List.Basic
import SqlReader.Json.Printer
import SqlReader.Json.Reader

/-!
# Written strings and numbers

The written form of a text is decoded to the text again, and it reaches up to the
closing quote.  A number is written in digits without a leading zero, and reaches
up to the next character that no number can have.
-/

namespace SqlReader.Json

/-! ## Characters -/

def lettered : List (Char × Char) :=
  [('"', '"'), ('\\', '\\'), ('\x08', 'b'), ('\x0c', 'f'), ('\n', 'n'), ('\r', 'r'), ('\t', 't')]

theorem escape_of_mem_lettered : ∀ p ∈ lettered,
    escape p.1 = ['\\', p.2] ∧ unescape? p.2 = some p.1 ∧ p.2 ≠ 'u' := by
  decide

/-- How a character is written: with a letter, with its number or by itself. -/
theorem escape_cases (c : Char) :
    (∃ letter, escape c = ['\\', letter] ∧ unescape? letter = some c ∧ letter ≠ 'u') ∨
      (c.toNat < 0x20 ∧
        escape c = ['\\', 'u', '0', '0', hexDigit (c.toNat / 16), hexDigit (c.toNat % 16)]) ∨
      (escape c = [c] ∧ c ≠ '"' ∧ c ≠ '\\' ∧ ¬ c.toNat < 0x20) := by
  by_cases hletter : c ∈ lettered.map (·.1)
  · obtain ⟨p, hp, rfl⟩ := List.mem_map.mp hletter
    exact .inl ⟨p.2, escape_of_mem_lettered p hp⟩
  · simp only [lettered, List.map_cons, List.map_nil, List.mem_cons, List.not_mem_nil, or_false,
      not_or] at hletter
    by_cases hsmall : c.toNat < 0x20
    · exact .inr (.inl ⟨hsmall, by simp [escape, hletter, hsmall]⟩)
    · exact .inr (.inr ⟨by simp [escape, hletter, hsmall], hletter.1, hletter.2.1, hsmall⟩)

/-- The four digits of a character below the blank. -/
theorem hex4?_hexDigit : ∀ n < 0x20,
    hex4? '0' '0' (hexDigit (n / 16)) (hexDigit (n % 16)) = some n := by
  decide

/-! ## Strings -/

section Strings

variable {c letter : Char} (cs rest : List Char)

theorem decode_letter (hletter : unescape? letter = some c) (hu : letter ≠ 'u') :
    decode ('\\' :: letter :: cs) = (decode cs).map (c :: ·) := by
  rw [decode.eq_def]
  split
  next heq => cases heq
  next heq => exact absurd (List.cons.inj (List.cons.inj heq).2).1 hu
  next heq =>
    simp only [List.cons.injEq, true_and] at heq
    obtain ⟨rfl, rfl⟩ := heq
    rw [hletter]
    cases decode cs <;> rfl
  next hother heq =>
    obtain ⟨rfl, rfl⟩ := List.cons.inj heq
    exact absurd rfl (hother _ _ rfl)

theorem decode_plain (hslash : c ≠ '\\') : decode (c :: cs) = (decode cs).map (c :: ·) := by
  rw [decode.eq_def]
  split <;> simp_all

theorem decode_escape_append (c : Char) : decode (escape c ++ cs) = (decode cs).map (c :: ·) := by
  rcases escape_cases c with ⟨letter, hc, hletter, hu⟩ | ⟨hsmall, hc⟩ | ⟨hc, -, hslash, -⟩
  · rw [hc]
    exact decode_letter cs hletter hu
  · have hcode : Char.ofNat c.toNat = c := Char.ofNat_toNat c
    have hhigh : ¬ (0xD800 ≤ c.toNat ∧ c.toNat < 0xDC00) := by omega
    have hlow : ¬ (0xDC00 ≤ c.toNat ∧ c.toNat < 0xE000) := by omega
    simp only [hc, List.cons_append, List.nil_append, decode, hex4?_hexDigit c.toNat hsmall,
      Option.bind_eq_bind, Option.bind_some, hhigh, hlow, hcode, Bool.and_eq_true,
      decide_eq_true_eq, if_false]
    cases decode cs <;> rfl
  · rw [hc]
    exact decode_plain cs hslash

theorem decode_encode : decode (encode cs) = some cs := by
  induction cs with
  | nil => rfl
  | cons c cs ih =>
      rw [encode] at ih
      rw [encode, List.flatMap_cons, decode_escape_append, ih]
      rfl

theorem splitString_letter (hletter : unescape? letter = some c) (hu : letter ≠ 'u') :
    splitString ('\\' :: letter :: cs) =
      (splitString cs).map fun p => ('\\' :: letter :: p.1, p.2) := by
  rw [splitString.eq_def]
  split
  next heq => cases heq
  next heq => cases heq
  next heq => exact absurd (List.cons.inj (List.cons.inj heq).2).1 hu
  next heq =>
    simp only [List.cons.injEq, true_and] at heq
    obtain ⟨rfl, rfl⟩ := heq
    rw [hletter]
    rfl
  next hother heq =>
    obtain ⟨rfl, rfl⟩ := List.cons.inj heq
    exact absurd rfl (hother _ _ rfl)

theorem splitString_plain (hquote : c ≠ '"') (hslash : c ≠ '\\') (hlarge : ¬ c.toNat < 0x20) :
    splitString (c :: cs) = (splitString cs).map fun p => (c :: p.1, p.2) := by
  rw [splitString.eq_def]
  split
  next heq => cases heq
  next heq => exact absurd (List.cons.inj heq).1 hquote
  next heq => exact absurd (List.cons.inj heq).1 hslash
  next heq => exact absurd (List.cons.inj heq).1 hslash
  next heq =>
    obtain ⟨rfl, rfl⟩ := List.cons.inj heq
    rw [if_neg (by simpa [hslash] using hlarge)]

theorem splitString_escape_append (c : Char) :
    splitString (escape c ++ cs) = (splitString cs).map fun p => (escape c ++ p.1, p.2) := by
  rcases escape_cases c with ⟨letter, hc, hletter, hu⟩ | ⟨hsmall, hc⟩ | ⟨hc, hquote, hslash, hlarge⟩
  · rw [hc]
    exact splitString_letter cs hletter hu
  · simp [hc, splitString, hex4?_hexDigit c.toNat hsmall]
  · rw [hc]
    exact splitString_plain cs hquote hslash hlarge

/-- A written text ends at the closing quote. -/
theorem splitString_encode : splitString (encode cs ++ '"' :: rest) = some (encode cs, rest) := by
  induction cs with
  | nil => rfl
  | cons c cs ih =>
      rw [encode] at ih
      rw [encode, List.flatMap_cons, List.append_assoc, splitString_escape_append, ih]
      rfl

end Strings

/-! ## Numbers -/

section Numbers

variable (n : Nat) {rest : List Char}

/-- No number goes on with this text. -/
def EndsNumber (rest : List Char) : Prop :=
  ∀ c ∈ rest.head?, c.isDigit = false ∧ c ≠ '.' ∧ c ≠ 'e' ∧ c ≠ 'E'

theorem all_isDigit_toDigits : (Nat.toDigits 10 n).all Char.isDigit = true :=
  List.all_eq_true.mpr fun _ hc => Nat.isDigit_of_mem_toDigits (by decide) (by decide) hc

/-- Only zero begins with a zero. -/
theorem eq_zero_of_toDigits {cs : List Char} (h : Nat.toDigits 10 n = '0' :: cs) : n = 0 := by
  induction n using Nat.strongRecOn generalizing cs with
  | ind n ih =>
      by_cases hsmall : n < 10
      · have hdigit : ∀ m < 10, Nat.digitChar m = '0' → m = 0 := by decide
        rw [Nat.toDigits_of_lt_base hsmall] at h
        exact hdigit n hsmall (List.cons.inj h).1
      · rw [Nat.toDigits_of_base_le (by decide) (by omega)] at h
        obtain ⟨c, rest, hrest⟩ :=
          List.exists_cons_of_ne_nil (Nat.toDigits_ne_nil : Nat.toDigits 10 (n / 10) ≠ [])
        rw [hrest, List.cons_append] at h
        obtain ⟨rfl, -⟩ := List.cons.inj h
        have hzero : n / 10 = 0 := ih (n / 10) (by omega) hrest
        omega

theorem toDigits_ne_zero_cons (c : Char) (cs : List Char) : Nat.toDigits 10 n ≠ '0' :: c :: cs := by
  intro hdigits
  rw [eq_zero_of_toDigits n hdigits, Nat.toDigits_zero] at hdigits
  cases hdigits

theorem splitDigits_toDigits (hrest : ∀ c ∈ rest.head?, c.isDigit = false) :
    splitDigits (Nat.toDigits 10 n ++ rest) = (Nat.toDigits 10 n, rest) := by
  have hall := List.all_eq_true.mp (all_isDigit_toDigits n)
  rw [splitDigits, List.takeWhile_append_of_pos hall, List.dropWhile_append_of_pos hall]
  cases rest with
  | nil => simp
  | cons c rest => simp [hrest c rfl]

theorem splitWhole_toDigits (hrest : ∀ c ∈ rest.head?, c.isDigit = false) :
    splitWhole (Nat.toDigits 10 n ++ rest) = some (Nat.toDigits 10 n, rest) := by
  rw [splitWhole, splitDigits_toDigits n hrest]
  split
  next hparts => exact absurd (Prod.mk.inj hparts).1 Nat.toDigits_ne_nil
  next hparts => exact absurd (Prod.mk.inj hparts).1 (toDigits_ne_zero_cons n _ _)
  · rfl

theorem head_toDigits : ∃ c cs, Nat.toDigits 10 n = c :: cs ∧ c.isDigit = true := by
  obtain ⟨c, cs, hdigits⟩ :=
    List.exists_cons_of_ne_nil (Nat.toDigits_ne_nil : Nat.toDigits 10 n ≠ [])
  exact ⟨c, cs, hdigits, List.all_eq_true.mp (all_isDigit_toDigits n) c (by simp [hdigits])⟩

theorem splitNumber_toDigits (hrest : EndsNumber rest) :
    splitNumber (Nat.toDigits 10 n ++ rest) = some (Nat.toDigits 10 n, rest) := by
  have hwhole := splitWhole_toDigits n fun c hc => (hrest c hc).1
  have hfraction : splitFraction rest = some ([], rest) := by
    cases rest with
    | nil => rfl
    | cons c rest =>
        rw [splitFraction.eq_def]
        split
        next heq => exact absurd (List.cons.inj heq).1 (hrest c rfl).2.1
        · rfl
  have hexponent : splitExponent rest = some ([], rest) := by
    cases rest with
    | nil => rfl
    | cons c rest => simp [splitExponent, (hrest c rfl).2.2]
  obtain ⟨c, cs, hdigits, hc⟩ := head_toDigits n
  rw [hdigits] at hwhole ⊢
  rw [splitNumber, hwhole]
  · simp [hfraction, hexponent]
  · intro rest' heq
    obtain ⟨rfl, -⟩ := List.cons.inj heq
    cases hc

theorem natural?_ofNat : (ofNat n).natural? = some n := by
  have hvalue : Nat.ofDigitChars 10 (Nat.toDigits 10 n) 0 = n := Nat.ofDigitChars_ten_toDigits
  rw [ofNat, natural?, if_pos (all_isDigit_toDigits n)]
  exact congrArg some hvalue

end Numbers

end SqlReader.Json
