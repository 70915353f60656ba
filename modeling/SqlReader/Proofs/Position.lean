import SqlReader.Proofs.Acceptance
import SqlReader.Proofs.Reading

/-!
# Positions

The offset of a cursor is the number of bytes before it, and the part of a text
that is read is a beginning of the text.
-/

namespace SqlReader

open Text

/-! ## Beginnings of texts -/

theorem takeBytes?_append (before after : List Char) :
    takeBytes? (byteLength before) (before ++ after) = some before := by
  induction before with
  | nil => cases after <;> rfl
  | cons c before ih =>
      have hpos : 0 < c.utf8Size := c.utf8Size_pos
      obtain ⟨n, hn⟩ : ∃ n, c.utf8Size + byteLength before = n + 1 :=
        ⟨c.utf8Size + byteLength before - 1, by omega⟩
      have hle : c.utf8Size ≤ n + 1 := by omega
      have hsub : n + 1 - c.utf8Size = byteLength before := by omega
      rw [byteLength_cons, hn, List.cons_append, takeBytes?, if_pos hle, hsub, ih]
      rfl

theorem byteLength_pos {cs : List Char} (hne : cs ≠ []) : 0 < byteLength cs := by
  cases cs with
  | nil => exact absurd rfl hne
  | cons c cs => exact Nat.add_pos_left c.utf8Size_pos _

theorem isPrefix_trimEnd (cs : List Char) : trimEnd cs <+: cs := by
  rw [← List.reverse_suffix, trimEnd, List.reverse_reverse]
  exact List.dropWhile_suffix isBlank

theorem isPrefix_dropFinal (mark : Char) (cs : List Char) : dropFinal mark cs <+: cs := by
  unfold dropFinal
  split
  · exact List.dropLast_prefix cs
  · exact List.prefix_rfl

theorem isPrefix_cursorText (settings : Settings) (text : String) :
    cursorText settings text <+: text.toList := by
  unfold cursorText statementText
  split
  · exact (isPrefix_trimEnd _).trans ((isPrefix_dropFinal _ _).trans (isPrefix_trimEnd _))
  · exact (isPrefix_trimEnd _).trans (isPrefix_trimEnd _)

/-! ## Blanks at the end of a text -/

section TrimEnd

variable {cs before : List Char}

/-- Nothing is trimmed off a text that does not end in a blank. -/
theorem trimEnd_eq_self_iff :
    trimEnd cs = cs ↔ ∀ c ∈ cs.getLast?, isBlank c = false := by
  rw [trimEnd, ← List.reverse_inj, List.reverse_reverse, ← List.head?_reverse]
  cases cs.reverse with
  | nil => simp
  | cons c rest =>
      rw [List.dropWhile_cons]
      split
      next hblank =>
        have hlength := (List.dropWhile_suffix isBlank (l := rest)).length_le
        constructor
        · intro heq
          rw [heq, List.length_cons] at hlength
          omega
        · intro hlast
          rw [hlast c rfl] at hblank
          cases hblank
      next hblank => simpa using hblank

theorem trimEnd_eq_nil_iff : trimEnd cs = [] ↔ ∀ c ∈ cs, isBlank c = true := by
  rw [trimEnd, List.reverse_eq_nil_iff, List.dropWhile_eq_nil_iff]
  simp

theorem trimEnd_append_of_eq_nil (before : List Char) (h : trimEnd cs = []) :
    trimEnd (before ++ cs) = trimEnd before := by
  rw [trimEnd_eq_nil_iff] at h
  rw [trimEnd, List.reverse_append, List.dropWhile_append_of_pos (by simpa using h), trimEnd]

theorem trimEnd_append_of_ne_nil (before : List Char) (h : trimEnd cs ≠ []) :
    trimEnd (before ++ cs) = before ++ trimEnd cs := by
  have hne : cs.reverse.dropWhile isBlank ≠ [] := by simpa [trimEnd] using h
  rw [trimEnd, List.reverse_append, List.dropWhile_append, if_neg (by simpa using hne),
    List.reverse_append, List.reverse_reverse, trimEnd]

theorem trimEnd_append_of_trimmed (before : List Char) (hne : cs ≠ [])
    (h : trimEnd cs = cs) : trimEnd (before ++ cs) = before ++ cs := by
  rw [trimEnd_append_of_ne_nil before (by rwa [h]), h]

theorem trimEnd_of_suffix (h : trimEnd (before ++ cs) = before ++ cs) :
    trimEnd cs = cs := by
  rw [trimEnd_eq_self_iff] at h ⊢
  intro c hc
  exact h c (by rw [List.getLast?_append, Option.mem_def.mp hc]; rfl)

theorem trimEnd_dropWhile (f : Char → Bool) (h : trimEnd cs = cs) :
    trimEnd (cs.dropWhile f) = cs.dropWhile f := by
  rw [← List.takeWhile_append_dropWhile (p := f) (l := cs)] at h
  exact trimEnd_of_suffix h

end TrimEnd

/-! ## Texts that nothing is cut off from -/

variable {cs gap : List Char}

theorem trimEnd_append (hcs : Firm cs) (hgap : ∀ c ∈ gap, isBlank c = true) :
    trimEnd (cs ++ gap) = cs := by
  obtain ⟨c, hc, hblank, -⟩ := hcs
  rw [trimEnd_append_of_eq_nil cs (trimEnd_eq_nil_iff.mpr hgap), trimEnd_eq_self_iff, hc]
  rintro d ⟨⟩
  exact hblank

theorem dropFinal_of_firm (hcs : Firm cs) : dropFinal ';' cs = cs := by
  obtain ⟨c, hc, -, hmark⟩ := hcs
  rw [dropFinal, hc, if_neg (by simpa using hmark)]

theorem cursorText_of_firm (settings : Settings) (hcs : Firm cs)
    (hgap : ∀ c ∈ gap, isBlank c = true) :
    cursorText settings (String.ofList (cs ++ gap)) = cs := by
  have hnil : ∀ c ∈ ([] : List Char), isBlank c = true := by simp
  have htrim : trimEnd cs = cs := by simpa using trimEnd_append hcs hnil
  unfold cursorText statementText
  rw [String.toList_ofList, trimEnd_append hcs hgap, dropFinal_of_firm hcs, ite_self, htrim]

/-- The tokens of a text are those that are read off it. -/
theorem tokenize_of_reads {ts : List Token} (hcs : Firm cs) (hgap : ∀ c ∈ gap, isBlank c = true)
    (h : Reads (cs.dropWhile isSpace) ts []) :
    (tokenize (String.ofList (cs ++ gap))).map (·.2) = ts := by
  unfold tokenize
  apply Reads.tokens_eq
  rw [String.toList_ofList, Cursor.ofText, trimEnd_append hcs hgap]
  exact h

theorem tokenize_cursorText_of_reads {ts : List Token} (settings : Settings) (hcs : Firm cs)
    (hgap : ∀ c ∈ gap, isBlank c = true) (h : Reads (cs.dropWhile isSpace) ts []) :
    (tokenize (String.ofList (cursorText settings (String.ofList (cs ++ gap))))).map (·.2) =
      ts := by
  have hnil : ∀ c ∈ ([] : List Char), isBlank c = true := by simp
  rw [cursorText_of_firm settings hcs hgap]
  simpa using tokenize_of_reads hcs hnil h

/-! ## Cursors -/

namespace Cursor

/-- The cursor stands behind the first `offset` bytes of its text. -/
def Placed (c : Cursor) : Prop :=
  ∃ before, c.input = before ++ c.rest ∧ byteLength before = c.offset

theorem byteLength_takeWhile_isSpace (cs : List Char) :
    byteLength (cs.takeWhile isSpace) = (cs.takeWhile isSpace).length := by
  induction cs with
  | nil => rfl
  | cons c cs ih =>
      rw [List.takeWhile_cons]
      split
      next hc =>
        have hsize : c.utf8Size = 1 := by
          simp only [isSpace, Bool.or_eq_true, beq_iff_eq] at hc
          rcases hc with (((rfl | rfl) | rfl) | rfl) | rfl <;> rfl
        rw [byteLength_cons, ih, hsize, List.length_cons, Nat.add_comm]
      · rfl

theorem Placed.skipSpace {c : Cursor} (h : c.Placed) : c.skipSpace.Placed := by
  obtain ⟨before, hinput, hoffset⟩ := h
  refine ⟨before ++ c.rest.takeWhile isSpace, ?_, ?_⟩
  · rw [List.append_assoc]
    exact hinput.trans (by rw [Cursor.skipSpace, List.takeWhile_append_dropWhile])
  · rw [byteLength_append, byteLength_takeWhile_isSpace, hoffset]
    rfl

theorem placed_ofText (text : List Char) : (ofText text).Placed :=
  Placed.skipSpace ⟨[], rfl, rfl⟩

/-- The cursor right behind a token, before it moves over white space. -/
theorem Placed.behind {c : Cursor} (h : c.Placed) :
    Placed { c with offset := c.offset + c.lexeme.size, rest := c.lexeme.rest } := by
  obtain ⟨before, hinput, hoffset⟩ := h
  refine ⟨before ++ c.lexeme.text, ?_, ?_⟩
  · rw [List.append_assoc, lexeme, scan_append]
    exact hinput
  · rw [byteLength_append, hoffset]
    rfl

theorem Placed.pop {c : Cursor} (h : c.Placed) : c.pop.Placed := h.behind.skipSpace

theorem placed_popRest (c : Cursor) : c.popRest.Placed := ⟨c.input, (List.append_nil _).symm, rfl⟩

section Offset

variable {c : Cursor}

theorem rest_ne_nil (hend : c.atEnd = false) : c.rest ≠ [] := by simpa [atEnd] using hend

theorem lexeme_size_pos (hend : c.atEnd = false) : 0 < c.lexeme.size :=
  byteLength_pos (List.length_pos_iff.mp (scan_text_length_pos (rest_ne_nil hend)))

theorem Placed.byteLength_input (h : c.Placed) :
    byteLength c.input = c.offset + byteLength c.rest := by
  obtain ⟨before, hinput, hoffset⟩ := h
  rw [hinput, byteLength_append, hoffset]

theorem Placed.offset_le_byteLength (h : c.Placed) : c.offset ≤ byteLength c.input := by
  rw [h.byteLength_input]
  exact Nat.le_add_right _ _

theorem offset_lt_pop (hend : c.atEnd = false) : c.offset < c.pop.offset := by
  have hsize := lexeme_size_pos hend
  have hpop : c.offset + c.lexeme.size ≤ c.pop.offset := Nat.le_add_right _ _
  omega

theorem Placed.offset_lt_popRest (h : c.Placed) (hend : c.atEnd = false) :
    c.offset < c.popRest.offset := by
  have hpos := byteLength_pos (rest_ne_nil hend)
  have hoffset : c.popRest.offset = c.offset + byteLength c.rest := h.byteLength_input
  omega

end Offset

end Cursor

end SqlReader
