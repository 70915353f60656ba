import Mathlib.Order.Bounds.Basic
import SqlReader.Proofs.Position
import SqlReader.Proofs.Writing.Basic

/-!
# Quotations

A quotation ends at the first quote that no backslash stands right before.  Such
a quote can be found by looking at the bytes of the text one by one, because no
byte of a longer character is the byte of a quote or of a backslash.
-/

namespace SqlReader

/-! ## Bytes -/

namespace Text

def bytes (cs : List Char) : List UInt8 := cs.flatMap String.utf8EncodeChar

section Bytes

variable {c d : Char} {before after cs : List Char} {i : Nat}

@[simp] theorem bytes_cons (c : Char) (cs : List Char) :
    bytes (c :: cs) = String.utf8EncodeChar c ++ bytes cs := List.flatMap_cons

@[simp] theorem bytes_append (before after : List Char) :
    bytes (before ++ after) = bytes before ++ bytes after := List.flatMap_append

@[simp] theorem length_bytes (cs : List Char) : (bytes cs).length = byteLength cs := by
  induction cs with
  | nil => rfl
  | cons c cs ih =>
      rw [bytes_cons, List.length_append, ih, String.length_utf8EncodeChar, byteLength_cons]

theorem utf8EncodeChar_of_ascii (hd : d.toNat < 0x80) :
    String.utf8EncodeChar d = [UInt8.ofNat d.toNat] := by
  have hle : d.val.toNat ≤ 0x7f := Nat.le_of_lt_succ hd
  unfold String.utf8EncodeChar
  exact if_pos hle

/-- The bytes of a character outside of ASCII lie above those of ASCII. -/
theorem le_toNat_of_mem_utf8EncodeChar {b : UInt8} (hc : 0x80 ≤ c.toNat)
    (h : b ∈ String.utf8EncodeChar c) : 0x80 ≤ b.toNat := by
  have hbyte : ∀ n, n < 256 → 0x80 ≤ n → 0x80 ≤ (UInt8.ofNat n).toNat := by
    intro n hn hle
    rwa [UInt8.toNat_ofNat', Nat.mod_eq_of_lt hn]
  have hone : ¬ c.val.toNat ≤ 0x7f := Nat.not_le_of_lt hc
  unfold String.utf8EncodeChar at h
  simp only [hone, if_false] at h
  split at h
  · simp only [List.mem_cons, List.not_mem_nil, or_false] at h
    rcases h with rfl | rfl <;> exact hbyte _ (by omega) (by omega)
  · split at h
    · simp only [List.mem_cons, List.not_mem_nil, or_false] at h
      rcases h with rfl | rfl | rfl <;> exact hbyte _ (by omega) (by omega)
    · simp only [List.mem_cons, List.not_mem_nil, or_false] at h
      rcases h with rfl | rfl | rfl | rfl <;> exact hbyte _ (by omega) (by omega)

theorem toNat_ofNat_toNat (hd : d.toNat < 0x80) : (UInt8.ofNat d.toNat).toNat = d.toNat := by
  rw [UInt8.toNat_ofNat', Nat.mod_eq_of_lt (by omega)]

/-- No byte of another character is the byte of an ASCII character. -/
theorem eq_of_mem_utf8EncodeChar (hd : d.toNat < 0x80)
    (h : UInt8.ofNat d.toNat ∈ String.utf8EncodeChar c) : c = d := by
  by_cases hc : c.toNat < 0x80
  · rw [utf8EncodeChar_of_ascii hc, List.mem_singleton] at h
    have htoNat := congrArg UInt8.toNat h
    rw [toNat_ofNat_toNat hd, toNat_ofNat_toNat hc] at htoNat
    exact Char.toNat_inj.mp htoNat.symm
  · have hle := le_toNat_of_mem_utf8EncodeChar (Nat.le_of_not_lt hc) h
    rw [toNat_ofNat_toNat hd] at hle
    omega

/-- An ASCII character is found by its byte. -/
theorem getElem?_bytes_iff (hd : d.toNat < 0x80) :
    (bytes cs)[i]? = some (UInt8.ofNat d.toNat) ↔
      ∃ before after, cs = before ++ d :: after ∧ byteLength before = i := by
  constructor
  · intro h
    induction cs generalizing i with
    | nil => simp [bytes] at h
    | cons c cs ih =>
        rw [bytes_cons] at h
        by_cases hi : i < (String.utf8EncodeChar c).length
        · rw [List.getElem?_append_left hi] at h
          obtain rfl := eq_of_mem_utf8EncodeChar hd (List.mem_of_getElem? h)
          rw [utf8EncodeChar_of_ascii hd, List.length_singleton] at hi
          exact ⟨[], cs, rfl, (Nat.lt_one_iff.mp hi).symm⟩
        · have hle : (String.utf8EncodeChar c).length ≤ i := Nat.le_of_not_lt hi
          rw [List.getElem?_append_right hle] at h
          obtain ⟨before, after, rfl, hbefore⟩ := ih h
          rw [String.length_utf8EncodeChar] at hle hbefore
          refine ⟨c :: before, after, rfl, ?_⟩
          rw [byteLength_cons, hbefore]
          omega
  · rintro ⟨before, after, rfl, rfl⟩
    rw [bytes_append, bytes_cons, utf8EncodeChar_of_ascii hd]
    simp

/-- Two beginnings of a text with as many bytes are the same. -/
theorem eq_of_byteLength_eq {other tail : List Char} (h : before ++ after = other ++ tail)
    (hlength : byteLength before = byteLength other) : before = other := by
  have htake := takeBytes?_append before after
  rw [h, hlength, takeBytes?_append other tail] at htake
  exact (Option.some.inj htake).symm

/-- The byte right before a position is that of the last character in front of it. -/
theorem getElem?_bytes_pred_iff (hd : d.toNat < 0x80) (hsize : d.utf8Size = 1)
    (hne : before ≠ []) :
    (bytes (before ++ after))[byteLength before - 1]? = some (UInt8.ofNat d.toNat) ↔
      before.getLast? = some d := by
  have hpos := byteLength_pos hne
  rw [getElem?_bytes_iff hd]
  constructor
  · rintro ⟨front, tail, htext, hfront⟩
    have hcut : before ++ after = (front ++ [d]) ++ tail := by simpa using htext
    have hlength : byteLength before = byteLength (front ++ [d]) := by
      rw [byteLength_append, hfront, byteLength_cons, byteLength_nil, hsize]
      omega
    rw [eq_of_byteLength_eq hcut hlength, List.getLast?_concat]
  · intro hlast
    obtain ⟨front, rfl⟩ := List.getLast?_eq_some_iff.mp hlast
    refine ⟨front, after, by simp, ?_⟩
    rw [byteLength_append, byteLength_cons, byteLength_nil, hsize]
    omega

end Bytes

end Text

open Text

/-! ## The end of a quotation -/

/-- Byte `i` of a text closes the quotation that begins the text, if nothing before
it does: it is a quote, and the byte before it is no backslash. -/
def ClosesAt (text : List Char) (i : Nat) : Prop :=
  1 ≤ i ∧ (bytes text)[i]? = some 0x27 ∧ (bytes text)[i - 1]? ≠ some 0x5C

section Quotation

variable {cs content rest : List Char} {i : Nat}

theorem scan_quote (cs : List Char) : scan ('\'' :: cs) = scanQuoted cs := by
  simp [scan, longestMatch_quote]

theorem splitQuoted_eq_some_iff :
    splitQuoted cs = some (content, rest) ↔ cs = content ++ '\'' :: rest ∧ Quotable content := by
  constructor
  · intro h
    exact ⟨(splitQuoted_append h).symm, quotable_of_splitQuoted h⟩
  · rintro ⟨rfl, hcontent⟩
    exact splitQuoted_quotable hcontent

theorem closesAt_iff {text : List Char} :
    ClosesAt text i ↔
      ∃ before after, text = before ++ '\'' :: after ∧ byteLength before = i ∧ before ≠ [] ∧
        before.getLast? ≠ some '\\' := by
  have hquote : ('\'').toNat < 0x80 := by decide
  have hslash : ('\\').toNat < 0x80 := by decide
  constructor
  · rintro ⟨hpos, hbyte, hpred⟩
    obtain ⟨before, after, rfl, rfl⟩ := (getElem?_bytes_iff hquote).mp hbyte
    have hne : before ≠ [] := by
      rintro rfl
      exact absurd hpos (by decide)
    exact ⟨before, after, rfl, rfl, hne, fun hlast =>
      hpred ((getElem?_bytes_pred_iff hslash rfl hne).mpr hlast)⟩
  · rintro ⟨before, after, rfl, rfl, hne, hlast⟩
    refine ⟨byteLength_pos hne, (getElem?_bytes_iff hquote).mpr ⟨before, after, rfl, rfl⟩, ?_⟩
    intro hbyte
    exact hlast ((getElem?_bytes_pred_iff hslash rfl hne).mp hbyte)

theorem getLast?_quote_cons : ('\'' :: cs).getLast? = some '\\' ↔ cs.getLast? = some '\\' := by
  cases cs with
  | nil => simp
  | cons c cs => rw [List.getLast?_cons_cons]

/-- A quote closes the quotation if the content before it does not end in a backslash. -/
theorem closesAt_quote_iff :
    ClosesAt ('\'' :: cs) i ↔
      ∃ content rest, cs = content ++ '\'' :: rest ∧ byteLength content + 1 = i ∧
        content.getLast? ≠ some '\\' := by
  rw [closesAt_iff]
  constructor
  · rintro ⟨before, rest, htext, rfl, hne, hlast⟩
    obtain ⟨c, content, rfl⟩ := List.exists_cons_of_ne_nil hne
    obtain ⟨rfl, rfl⟩ := List.cons.inj htext
    refine ⟨content, rest, rfl, Nat.add_comm .., ?_⟩
    rwa [Ne, getLast?_quote_cons] at hlast
  · rintro ⟨content, rest, rfl, rfl, hlast⟩
    refine ⟨'\'' :: content, rest, rfl, Nat.add_comm .., by simp, ?_⟩
    rwa [Ne, getLast?_quote_cons]

/-- Up to the first quote that closes, every quote is escaped. -/
theorem quotable_of_isLeast (hcs : cs = content ++ '\'' :: rest)
    (hleast : IsLeast {i | ClosesAt ('\'' :: cs) i} (byteLength content + 1)) :
    Quotable content := by
  constructor
  · rintro before after rfl
    by_contra hlast
    have hcloses : ClosesAt ('\'' :: cs) (byteLength before + 1) :=
      closesAt_quote_iff.mpr ⟨before, after ++ '\'' :: rest, by simp [hcs], rfl, hlast⟩
    have hle := hleast.2 hcloses
    rw [byteLength_append, byteLength_cons] at hle
    have hpos := ('\'').utf8Size_pos
    omega
  · obtain ⟨other, tail, hother, hlength, hlast⟩ := closesAt_quote_iff.mp hleast.1
    have hcut : content ++ '\'' :: rest = other ++ '\'' :: tail := hcs.symm.trans hother
    rwa [eq_of_byteLength_eq hcut (Nat.succ_inj.mp hlength).symm]

/-- A closed quotation is the text up to the closing quote. -/
theorem scan_closed (h : splitQuoted cs = some (content, rest)) :
    (scan ('\'' :: cs)).token = .literal (String.ofList content) ∧
      (scan ('\'' :: cs)).size = byteLength content + 2 := by
  have hquote : ('\'').utf8Size = 1 := rfl
  rw [scan_quote, scanQuoted, h]
  refine ⟨rfl, ?_⟩
  simp only [Lexeme.size, byteLength_cons, byteLength_append, byteLength_nil, hquote]
  omega

/-- A quotation ends at the first quote that is not right behind a backslash, and
without such a quote it reaches to the end of the text.  A value between quotes is
therefore read as it stands just if each quote in it is right behind a backslash
and it does not end in one. -/
theorem scan_quotation (cs : List Char) :
    (∀ i, IsLeast {i | ClosesAt ('\'' :: cs) i} i →
      ∃ content rest, cs = content ++ '\'' :: rest ∧ byteLength content + 1 = i ∧
        (scan ('\'' :: cs)).token = .literal (String.ofList content) ∧
        (scan ('\'' :: cs)).size = i + 1) ∧
      ((∀ i, ¬ ClosesAt ('\'' :: cs) i) →
        (scan ('\'' :: cs)).token = .unterminated (String.ofList cs) ∧
          (scan ('\'' :: cs)).size = byteLength ('\'' :: cs)) ∧
      ∀ (value : String) (after : List Char),
        (scan ('\'' :: (value.toList ++ '\'' :: after))).token = .literal value ∧
          (scan ('\'' :: (value.toList ++ '\'' :: after))).size = byteLength value.toList + 2 ↔
        Quotable value.toList := by
  refine ⟨?closed, ?unclosed, ?value⟩
  case closed =>
    intro i hleast
    obtain ⟨content, rest, hcs, rfl, -⟩ := closesAt_quote_iff.mp hleast.1
    have hsplit := splitQuoted_eq_some_iff.mpr ⟨hcs, quotable_of_isLeast hcs hleast⟩
    obtain ⟨htoken, hsize⟩ := scan_closed hsplit
    exact ⟨content, rest, hcs, rfl, htoken, hsize⟩
  case unclosed =>
    intro hnone
    have hsplit : splitQuoted cs = none := by
      apply Option.eq_none_iff_forall_ne_some.mpr
      rintro ⟨content, rest⟩ h
      obtain ⟨hcs, hcontent⟩ := splitQuoted_eq_some_iff.mp h
      exact hnone _ (closesAt_quote_iff.mpr ⟨content, rest, hcs, rfl, hcontent.closed⟩)
    rw [scan_quote, scanQuoted, hsplit]
    exact ⟨rfl, rfl⟩
  case value =>
    intro value after
    constructor
    · rintro ⟨htoken, -⟩
      rw [scan_quote, scanQuoted] at htoken
      split at htoken
      next content rest hsplit =>
        obtain rfl := Token.literal.inj htoken
        rw [String.toList_ofList]
        exact quotable_of_splitQuoted hsplit
      · cases htoken
    · intro hvalue
      have hsplit : splitQuoted (value.toList ++ '\'' :: after) = some (value.toList, after) :=
        splitQuoted_quotable hvalue
      obtain ⟨htoken, hsize⟩ := scan_closed hsplit
      rw [String.ofList_toList] at htoken
      exact ⟨htoken, hsize⟩

/-- A backslash keeps a quote from closing even where a backslash stands before it. -/
example : (scan "'a\\\\'b', c".toList).token = .literal "a\\\\'b" := by decide +kernel

end Quotation

end SqlReader
