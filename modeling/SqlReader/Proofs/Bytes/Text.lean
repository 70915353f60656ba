import SqlReader.Proofs.LetterCase
import SqlReader.Proofs.Quotation

/-!
# Texts as bytes

A position in a text is a number of bytes.  A part of a text can be cut out only
between positions at which a character begins or the text ends; there is no part
between other positions.  A run of ASCII characters is as long in bytes as in
characters, so that it can be counted byte by byte.
-/

namespace SqlReader.Text

/-! ## Parts of a text -/

/-- The text from byte `n` on, if a character begins there or the text ends there. -/
def dropBytes? : Nat → List Char → Option (List Char)
  | 0, cs => some cs
  | _ + 1, [] => none
  | n + 1, c :: cs => if c.utf8Size ≤ n + 1 then dropBytes? (n + 1 - c.utf8Size) cs else none

def slice? (first last : Nat) (cs : List Char) : Option (List Char) :=
  if first ≤ last then (dropBytes? first cs).bind (takeBytes? (last - first)) else none

/-- Position `n` is that of a character of the text or of its end. -/
def IsBoundary (cs : List Char) (n : Nat) : Prop :=
  ∃ before after, cs = before ++ after ∧ byteLength before = n

section Parts

variable {cs before after : List Char} {n : Nat}

theorem isBoundary_append (before after : List Char) :
    IsBoundary (before ++ after) (byteLength before) :=
  ⟨before, after, rfl, rfl⟩

theorem IsBoundary.le_byteLength (h : IsBoundary cs n) : n ≤ byteLength cs := by
  obtain ⟨before, after, rfl, rfl⟩ := h
  rw [byteLength_append]
  exact Nat.le_add_right _ _

theorem dropBytes?_append (before after : List Char) :
    dropBytes? (byteLength before) (before ++ after) = some after := by
  induction before with
  | nil => cases after <;> rfl
  | cons c before ih =>
      have hpos : 0 < c.utf8Size := c.utf8Size_pos
      obtain ⟨n, hn⟩ : ∃ n, c.utf8Size + byteLength before = n + 1 :=
        ⟨c.utf8Size + byteLength before - 1, by omega⟩
      have hle : c.utf8Size ≤ n + 1 := by omega
      have hsub : n + 1 - c.utf8Size = byteLength before := by omega
      rw [byteLength_cons, hn, List.cons_append, dropBytes?, if_pos hle, hsub, ih]

/-- A text can be cut at its boundaries only. -/
theorem isSome_dropBytes?_iff : (dropBytes? n cs).isSome = true ↔ IsBoundary cs n := by
  constructor
  · intro h
    fun_induction dropBytes? n cs with
    | case1 cs => exact ⟨[], cs, rfl, rfl⟩
    | case2 n => cases h
    | case3 n c cs hle ih =>
        obtain ⟨before, after, rfl, hbefore⟩ := ih h
        refine ⟨c :: before, after, rfl, ?_⟩
        rw [byteLength_cons, hbefore]
        omega
    | case4 n c cs hle => cases h
  · rintro ⟨before, after, rfl, rfl⟩
    rw [dropBytes?_append]
    rfl

theorem slice?_append (before part after : List Char) :
    slice? (byteLength before) (byteLength before + byteLength part) (before ++ (part ++ after)) =
      some part := by
  rw [slice?, if_pos (Nat.le_add_right _ _), dropBytes?_append, Option.bind_some,
    Nat.add_sub_cancel_left, takeBytes?_append]

end Parts

/-! ## Classes of bytes -/

def isWordByte (b : UInt8) : Bool :=
  (0x30 ≤ b && b ≤ 0x39) || (0x41 ≤ b && b ≤ 0x5A) || (0x61 ≤ b && b ≤ 0x7A) ||
    b == 0x5F || b == 0x2A

def isSpaceByte (b : UInt8) : Bool :=
  b == 0x20 || b == 0x09 || b == 0x0A || b == 0x0C || b == 0x0D

def upperByte (b : UInt8) : UInt8 := if 0x61 ≤ b && b ≤ 0x7A then b - 0x20 else b

/-- A class of characters and a class of bytes are the same class of ASCII. -/
structure SameClass (p : Char → Bool) (q : UInt8 → Bool) : Prop where
  ascii : ∀ n < 0x80, q (UInt8.ofNat n) = p (Char.ofNat n)
  char : ∀ c : Char, 0x80 ≤ c.toNat → p c = false
  byte : ∀ n < 0x80, q (UInt8.ofNat (0x80 + n)) = false

section Classes

variable {c : Char} {b : UInt8} {p : Char → Bool} {q : UInt8 → Bool}

theorem sameClass_word : SameClass isWordChar isWordByte where
  ascii := by decide
  char c hc := by
    apply Bool.eq_false_iff.mpr
    intro hword
    simp only [isWordChar, Char.isAlphanum, Bool.or_eq_true, beq_iff_eq] at hword
    rcases hword with ((halpha | hdigit) | rfl) | rfl
    · exact absurd (toNat_lt_of_isAlpha halpha) (Nat.not_lt_of_le hc)
    · have hrange := isDigit_iff.mp hdigit
      omega
    · exact absurd hc (by decide)
    · exact absurd hc (by decide)
  byte := by decide

theorem sameClass_space : SameClass isSpace isSpaceByte where
  ascii := by decide
  char c hc := by
    apply Bool.eq_false_iff.mpr
    intro hspace
    simp only [isSpace, Bool.or_eq_true, beq_iff_eq] at hspace
    rcases hspace with (((rfl | rfl) | rfl) | rfl) | rfl <;> exact absurd hc (by decide)
  byte := by decide

namespace SameClass

variable (h : SameClass p q)
include h

theorem apply_ascii (hc : c.toNat < 0x80) : q (UInt8.ofNat c.toNat) = p c := by
  rw [h.ascii c.toNat hc, Char.ofNat_toNat]

theorem apply_byte (hb : 0x80 ≤ b.toNat) : q b = false := by
  have hlt : b.toNat < 0x100 := b.toNat_lt
  have hbyte := h.byte (b.toNat - 0x80) (by omega)
  rwa [Nat.add_sub_cancel' hb, UInt8.ofNat_toNat] at hbyte

/-- The first byte of a character belongs to the class just if the character does. -/
theorem exists_utf8EncodeChar (c : Char) :
    ∃ b bs, String.utf8EncodeChar c = b :: bs ∧ q b = p c := by
  by_cases hc : c.toNat < 0x80
  · exact ⟨_, [], utf8EncodeChar_of_ascii hc, h.apply_ascii hc⟩
  · have hle : 0x80 ≤ c.toNat := Nat.le_of_not_lt hc
    have hpos : 0 < (String.utf8EncodeChar c).length := by
      rw [String.length_utf8EncodeChar]
      exact c.utf8Size_pos
    obtain ⟨b, bs, hbytes⟩ := List.exists_cons_of_length_pos hpos
    have hb : b ∈ String.utf8EncodeChar c := hbytes ▸ List.mem_cons_self ..
    refine ⟨b, bs, hbytes, ?_⟩
    rw [h.char c hle, h.apply_byte (le_toNat_of_mem_utf8EncodeChar hle hb)]

/-- A run of the class is found byte by byte. -/
theorem takeWhile_bytes (cs : List Char) : (bytes cs).takeWhile q = bytes (cs.takeWhile p) := by
  induction cs with
  | nil => rfl
  | cons c cs ih =>
      cases hc : p c with
      | true =>
          have hascii : c.toNat < 0x80 := by
            by_contra hle
            rw [h.char c (Nat.le_of_not_lt hle)] at hc
            cases hc
          rw [List.takeWhile_cons_of_pos hc, bytes_cons, bytes_cons,
            utf8EncodeChar_of_ascii hascii, List.singleton_append, List.singleton_append,
            List.takeWhile_cons_of_pos ((h.apply_ascii hascii).trans hc), ih]
      | false =>
          obtain ⟨b, bs, hbytes, hb⟩ := h.exists_utf8EncodeChar c
          have hstop : ¬ q b = true := by simp [hb, hc]
          rw [List.takeWhile_cons_of_neg (by simp [hc]), bytes_cons, hbytes, List.cons_append,
            List.takeWhile_cons_of_neg hstop]
          rfl

theorem length_takeWhile_bytes (cs : List Char) :
    ((bytes cs).takeWhile q).length = byteLength (cs.takeWhile p) := by
  rw [h.takeWhile_bytes, length_bytes]

/-- A class holds of the byte at the start of a text as it does of the character. -/
theorem head?_bytes (cs : List Char) : (bytes cs).head?.any q = cs.head?.any p := by
  cases cs with
  | nil => rfl
  | cons c cs =>
      obtain ⟨b, bs, hbytes, hb⟩ := h.exists_utf8EncodeChar c
      rw [bytes_cons, hbytes]
      exact hb

end SameClass

end Classes

end SqlReader.Text
