import SqlReader.Proofs.LetterCase
import SqlReader.Proofs.Tokenization

/-!
# The order of the vocabulary

The text that an entry matches is the text of the entry, up to case and with one
blank for each run of white space.  Two entries therefore never match as many
characters of one text, and the longest match is the same in whatever order the
entries are tried.
-/

namespace SqlReader

open Text

section Matches

variable {cs : List Char} {e e' : Entry} {m m' : Match}

theorem exists_of_splitPhrase_cons_cons {w v taken rest : List Char} {ws : List (List Char)}
    (h : splitPhrase (w :: v :: ws) cs = some (taken, rest)) :
    ∃ t r u, splitWord w cs = some (t, r) ∧ r.takeWhile isSpace ≠ [] ∧
      splitPhrase (v :: ws) (r.dropWhile isSpace) = some (u, rest) ∧
      taken = t ++ r.takeWhile isSpace ++ u := by
  simp only [splitPhrase] at h
  split at h
  · cases h
  next t r hword =>
    split at h
    · cases h
    next hgap =>
      obtain ⟨⟨u, tail⟩, hrest, he⟩ := Option.map_eq_some_iff.mp h
      obtain ⟨rfl, rfl⟩ := Prod.mk.inj he
      exact ⟨t, r, u, hword, by simpa using hgap, hrest, rfl⟩

/-- A phrase is spelled by its words, with one blank for each run of white space. -/
theorem collapse_splitPhrase {ws : List (List Char)} {taken rest : List Char}
    (hspace : ∀ w ∈ ws, ∀ c ∈ upper w, isSpace c = false)
    (h : splitPhrase ws cs = some (taken, rest)) :
    collapse (upper taken) = [' '].intercalate (ws.map upper) := by
  induction ws generalizing cs taken with
  | nil =>
      obtain ⟨rfl, -⟩ : [] = taken ∧ cs = rest := by simpa [splitPhrase] using h
      rfl
  | cons w ws ih =>
      have hw := hspace w (List.mem_cons_self ..)
      cases ws with
      | nil =>
          obtain ⟨-, hupper⟩ := splitWord_eq_some_iff.mp h
          rw [hupper, ← List.append_nil (upper w), collapse_append hw, collapse, List.append_nil,
            List.map_singleton, List.intercalate_singleton]
      | cons v ws =>
          obtain ⟨t, r, u, hword, hgap, hrest, rfl⟩ := exists_of_splitPhrase_cons_cons h
          obtain ⟨-, hupper⟩ := splitWord_eq_some_iff.mp hword
          have hcollapse := ih (fun x hx => hspace x (List.mem_cons_of_mem w hx)) hrest
          have hblank : ∀ c ∈ r.takeWhile isSpace, isSpace c = true :=
            List.all_eq_true.mp List.all_takeWhile
          -- the next word begins where the white space ends
          have hhead : ∀ c ∈ (upper u).head?, isSpace c = false := by
            intro c hc
            obtain ⟨us, hus⟩ := List.head?_eq_some_iff.mp hc
            obtain ⟨d, ds, rfl, rfl, -⟩ := List.map_eq_cons_iff.mp hus
            rw [isSpace_toUpper]
            apply head_dropWhile_isSpace r d
            rw [← (splitPhrase_append hrest).1]
            rfl
          rw [upper_spaced hblank, hupper, collapse_append hw, collapse_gap hgap hblank hhead,
            hcollapse]
          simp only [List.map_cons, List.intercalate_cons_cons, List.append_assoc,
            List.singleton_append]

theorem collapse_match? (he : e ∈ vocabulary) (hm : e.match? cs = some m) :
    collapse (upper m.text) = e.text.toList := by
  have hcapitals := upper_of_mem e he
  have hspace : ∀ w ∈ e.words.map String.toList, ∀ c ∈ upper w, isSpace c = false := by
    intro w hw
    rw [hcapitals w hw]
    simpa using any_isSpace_of_mem e he w hw
  have hwords : (e.words.map String.toList).map upper = e.words.map String.toList :=
    (List.map_congr_left hcapitals).trans (List.map_id _)
  rw [collapse_splitPhrase hspace (match?_eq_some_iff.mp hm).1, hwords, e.toList_text]

theorem nodup_texts : (vocabulary.map fun e => e.text.toList).Nodup := by
  decide +kernel

/-- The text that a match takes off tells the entry. -/
theorem eq_of_length_eq (he : e ∈ vocabulary) (he' : e' ∈ vocabulary)
    (hm : e.match? cs = some m) (hm' : e'.match? cs = some m') (h : m.length = m'.length) :
    e = e' := by
  have hcat : m.text ++ m.rest = m'.text ++ m'.rest :=
    (Entry.match?_append hm).1.trans (Entry.match?_append hm').1.symm
  have htext : m.text = m'.text := List.append_inj_left hcat h
  have htexts : e.text.toList = e'.text.toList := by
    rw [← collapse_match? he hm, htext, collapse_match? he' hm']
  exact List.inj_on_of_nodup_map nodup_texts he he' htexts

/-! ## Lengths in bytes -/

theorem byteLength_splitWord {w taken rest : List Char} (hw : byteLength w = w.length)
    (h : splitWord w cs = some (taken, rest)) : byteLength taken = taken.length := by
  have hupper := (splitWord_eq_some_iff.mp h).2
  rw [← byteLength_upper, hupper, byteLength_upper, hw, (splitWord_append h).2]

theorem byteLength_splitPhrase {ws : List (List Char)} {taken rest : List Char}
    (hws : ∀ w ∈ ws, byteLength w = w.length) (h : splitPhrase ws cs = some (taken, rest)) :
    byteLength taken = taken.length := by
  induction ws generalizing cs taken with
  | nil =>
      obtain ⟨rfl, -⟩ : [] = taken ∧ cs = rest := by simpa [splitPhrase] using h
      rfl
  | cons w ws ih =>
      have hw := hws w (List.mem_cons_self ..)
      cases ws with
      | nil => exact byteLength_splitWord hw h
      | cons v ws =>
          obtain ⟨t, r, u, hword, -, hrest, rfl⟩ := exists_of_splitPhrase_cons_cons h
          have hu := ih (fun x hx => hws x (List.mem_cons_of_mem w hx)) hrest
          rw [byteLength_append, byteLength_append, byteLength_splitWord hw hword,
            Cursor.byteLength_takeWhile_isSpace, hu, List.length_append, List.length_append]

/-- The vocabulary is written in ASCII. -/
theorem ascii_of_mem : ∀ e ∈ vocabulary, ∀ w ∈ e.words.map String.toList,
    w.all (fun c => decide (c.toNat < 0x80)) = true := by
  decide +kernel

theorem byteLength_of_ascii {w : List Char}
    (hw : w.all (fun c => decide (c.toNat < 0x80)) = true) : byteLength w = w.length := by
  induction w with
  | nil => rfl
  | cons c w ih =>
      obtain ⟨hc, hw⟩ := Bool.and_eq_true _ _ ▸ hw
      have hsize : c.utf8Size = 1 := by
        rw [Char.utf8Size_eq_one_iff, UInt32.le_iff_toNat_le]
        exact Nat.le_of_lt_succ (of_decide_eq_true hc)
      rw [byteLength_cons, hsize, ih hw, List.length_cons, Nat.add_comm]

/-- What an entry matches has as many bytes as characters. -/
theorem byteLength_match? (he : e ∈ vocabulary) (hm : e.match? cs = some m) :
    byteLength m.text = m.length :=
  byteLength_splitPhrase (fun w hw => byteLength_of_ascii (ascii_of_mem e he w hw))
    (match?_eq_some_iff.mp hm).1

/-! ## The longest of several matches -/

/-- The shorter of two matches changes nothing, before the longer one or after it. -/
theorem longer_of_lt (h : m.length < m'.length) (best : Option Match) :
    longer (longer best m) m' = longer best m' ∧ longer (longer best m') m = longer best m' := by
  have hle : m.length ≤ m'.length := Nat.le_of_lt h
  have hlt : ¬ m'.length ≤ m.length := Nat.not_le_of_lt h
  cases best with
  | none => exact ⟨if_pos hle, if_neg hlt⟩
  | some b =>
      by_cases hm' : b.length ≤ m'.length
      · by_cases hm : b.length ≤ m.length
        · simp only [longer, hm, hm', hle, hlt, if_true, if_false, and_self]
        · simp only [longer, hm, hm', hlt, if_true, if_false, and_self]
      · have hm : ¬ b.length ≤ m.length := by omega
        simp only [longer, hm, hm', if_false, and_self]

theorem longer_right_comm (h : m.length = m'.length → m = m') (best : Option Match) :
    longer (longer best m) m' = longer (longer best m') m := by
  rcases Nat.lt_trichotomy m.length m'.length with hlt | heq | hgt
  · obtain ⟨hbefore, hafter⟩ := longer_of_lt hlt best
    rw [hbefore, hafter]
  · rw [h heq]
  · obtain ⟨hbefore, hafter⟩ := longer_of_lt hgt best
    rw [hbefore, hafter]

end Matches

/-- The longest match does not depend on the order of the vocabulary, because no
two entries match a text with the same number of bytes. -/
theorem longestIn_of_perm {es : List Entry} (h : es.Perm vocabulary) (cs : List Char) :
    longestIn es cs = longestMatch cs ∧
      ∀ e ∈ vocabulary, ∀ e' ∈ vocabulary, ∀ m m', e.match? cs = some m →
        e'.match? cs = some m' → byteLength m.text = byteLength m'.text → e = e' := by
  constructor
  · refine (h.filterMap (·.match? cs)).foldl_eq' ?_ none
    intro m hmem m' hmem' best
    obtain ⟨e, he, hm⟩ := List.mem_filterMap.mp hmem
    obtain ⟨e', he', hm'⟩ := List.mem_filterMap.mp hmem'
    refine longer_right_comm (fun hlength => ?_) best
    obtain rfl := eq_of_length_eq (h.mem_iff.mp he) (h.mem_iff.mp he') hm hm' hlength
    exact Option.some.inj (hm.symm.trans hm')
  · intro e he e' he' m m' hm hm' hlength
    rw [byteLength_match? he hm, byteLength_match? he' hm'] at hlength
    exact eq_of_length_eq he he' hm hm' hlength

/-- The last entries first, at a text that several of them match. -/
theorem longestIn_of_perm_reverse :
    vocabulary.reverse.Perm vocabulary ∧
      (longestIn vocabulary.reverse "on\n\ttable".toList).map
        (fun m => (m.keyword, byteLength m.text)) = some (.onTable, 9) := by
  have hperm : vocabulary.reverse.Perm vocabulary := List.reverse_perm vocabulary
  refine ⟨hperm, ?_⟩
  rw [(longestIn_of_perm hperm _).1]
  decide +kernel

end SqlReader
