import SqlReader.Proofs.Json.Text

/-!
# Printed documents

The two printed forms differ in the blanks between the parts of a document.  A
printer with the blanks as a parameter stands for both, and whatever the blanks
are, the reader takes a printed document off the start of a text.
-/

namespace SqlReader.Json

/-! ## Blanks -/

def Blank (cs : List Char) : Prop := ∀ c ∈ cs, isBlank c = true

/-- The blanks that a printer puts before an item and before the end of a
container, by depth, and after a colon. -/
structure Spacing where
  gap : Nat → List Char
  lead : List Char
  gap_blank (depth : Nat) : Blank (gap depth)
  lead_blank : Blank lead

namespace Spacing

def tight : Spacing where
  gap _ := []
  lead := []
  gap_blank _ := by simp [Blank]
  lead_blank := by simp [Blank]

@[simp] theorem tight_gap (depth : Nat) : tight.gap depth = [] := rfl

@[simp] theorem tight_lead : tight.lead = [] := rfl

def lines : Spacing where
  gap := lineBreak
  lead := [' ']
  gap_blank depth c hc := by
    rcases List.mem_cons.mp hc with rfl | hspace
    · rfl
    · rw [List.eq_of_mem_replicate hspace]
      rfl
  lead_blank := by simp [Blank, isBlank]

@[simp] theorem lines_gap (depth : Nat) : lines.gap depth = lineBreak depth := rfl

@[simp] theorem lines_lead : lines.lead = [' '] := rfl

end Spacing

section Blanks

variable {blanks cs : List Char} (hblanks : Blank blanks)
include hblanks

theorem skipBlank_append : skipBlank (blanks ++ cs) = skipBlank cs :=
  List.dropWhile_append_of_pos hblanks

theorem readValue_blanks (fuel : Nat) : readValue fuel (blanks ++ cs) = readValue fuel cs := by
  cases fuel with
  | zero => rfl
  | succ fuel => simp only [readValue, skipBlank_append hblanks]

theorem readItems_blanks (fuel : Nat) : readItems fuel (blanks ++ cs) = readItems fuel cs := by
  cases fuel with
  | zero => rfl
  | succ fuel => simp only [readItems, readValue_blanks hblanks]

theorem readMembers_blanks (fuel : Nat) :
    readMembers fuel (blanks ++ cs) = readMembers fuel cs := by
  cases fuel with
  | zero => rfl
  | succ fuel => simp only [readMembers, skipBlank_append hblanks]

theorem endsNumber_blanks (hcs : EndsNumber cs) : EndsNumber (blanks ++ cs) := by
  cases hb : blanks with
  | nil => exact hcs
  | cons b bs =>
      intro c hc
      obtain rfl : b = c := Option.some.inj hc
      have hblank := hblanks b (by simp [hb])
      simp only [isBlank, Bool.or_eq_true, beq_iff_eq] at hblank
      rcases hblank with ((rfl | rfl) | rfl) | rfl <;> decide

end Blanks

theorem skipBlank_cons {c : Char} {cs : List Char} (hc : isBlank c = false) :
    skipBlank (c :: cs) = c :: cs := by
  simp [skipBlank, hc]

/-! ## One printer for both forms -/

section Printer

variable (sp : Spacing)

mutual

/-- The printed form of a document inside `depth` containers. -/
def spread (depth : Nat) : Json → List Char
  | null => ['n', 'u', 'l', 'l']
  | bool true => ['t', 'r', 'u', 'e']
  | bool false => ['f', 'a', 'l', 's', 'e']
  | number written => written
  | string written => quoted written
  | array [] => ['[', ']']
  | array (item :: items) =>
    '[' :: sp.gap (depth + 1) ++ spread (depth + 1) item ++ spreadItems (depth + 1) items ++
      sp.gap depth ++ [']']
  | object [] => ['\x7b', '\x7d']
  | object ((key, value) :: members) =>
    '\x7b' :: sp.gap (depth + 1) ++ quoted key ++ ':' :: sp.lead ++ spread (depth + 1) value ++
      spreadMembers (depth + 1) members ++ sp.gap depth ++ ['\x7d']

def spreadItems (depth : Nat) : List Json → List Char
  | [] => []
  | item :: items => ',' :: sp.gap depth ++ spread depth item ++ spreadItems depth items

def spreadMembers (depth : Nat) : List (List Char × Json) → List Char
  | [] => []
  | (key, value) :: members =>
    ',' :: sp.gap depth ++ quoted key ++ ':' :: sp.lead ++ spread depth value ++
      spreadMembers depth members

end

end Printer

mutual

theorem spread_tight (depth : Nat) : ∀ j : Json, spread .tight depth j = j.compact
  | null | bool true | bool false | number _ | string _ | array [] | object [] => rfl
  | array (item :: items) => by
      simp [spread, compact, spread_tight (depth + 1) item,
        spreadItems_tight (depth + 1) items]
  | object ((key, value) :: members) => by
      simp [spread, compact, spread_tight (depth + 1) value,
        spreadMembers_tight (depth + 1) members]

theorem spreadItems_tight (depth : Nat) :
    ∀ items : List Json, spreadItems .tight depth items = compactItems items
  | [] => rfl
  | item :: items => by
      simp [spreadItems, compactItems, spread_tight depth item,
        spreadItems_tight depth items]

theorem spreadMembers_tight (depth : Nat) : ∀ members : List (List Char × Json),
    spreadMembers .tight depth members = compactMembers members
  | [] => rfl
  | (key, value) :: members => by
      simp [spreadMembers, compactMembers, spread_tight depth value,
        spreadMembers_tight depth members]

end

mutual

theorem spread_lines (depth : Nat) : ∀ j : Json, spread .lines depth j = j.indented depth
  | null | bool true | bool false | number _ | string _ | array [] | object [] => rfl
  | array (item :: items) => by
      simp [spread, indented, spread_lines (depth + 1) item,
        spreadItems_lines (depth + 1) items]
  | object ((key, value) :: members) => by
      simp [spread, indented, spread_lines (depth + 1) value,
        spreadMembers_lines (depth + 1) members]

theorem spreadItems_lines (depth : Nat) :
    ∀ items : List Json, spreadItems .lines depth items = indentedItems depth items
  | [] => rfl
  | item :: items => by
      simp [spreadItems, indentedItems, spread_lines depth item,
        spreadItems_lines depth items]

theorem spreadMembers_lines (depth : Nat) : ∀ members : List (List Char × Json),
    spreadMembers .lines depth members = indentedMembers depth members
  | [] => rfl
  | (key, value) :: members => by
      simp [spreadMembers, indentedMembers, spread_lines depth value,
        spreadMembers_lines depth members]

end

theorem endsNumber_cons {c : Char} {cs : List Char}
    (hc : c.isDigit = false ∧ c ≠ '.' ∧ c ≠ 'e' ∧ c ≠ 'E') : EndsNumber (c :: cs) := by
  intro d hd
  obtain rfl : c = d := Option.some.inj hd
  exact hc

/-! ## Reading a printed document -/

/-- The documents that are built from texts and natural numbers: they are the ones
that statements are written as. -/
inductive Sound : Json → Prop
  | null : Sound null
  | bool (b : Bool) : Sound (bool b)
  | number (n : Nat) : Sound (number (Nat.toDigits 10 n))
  | string (cs : List Char) : Sound (string (encode cs))
  | array {items : List Json} (hitems : ∀ item ∈ items, Sound item) : Sound (array items)
  | object {members : List (List Char × Json)}
      (hkeys : ∀ p ∈ members, ∃ cs, p.1 = encode cs)
      (hvalues : ∀ p ∈ members, Sound p.2) : Sound (object members)

/-- The reader takes the printed document off any text that cannot continue it. -/
def ReadBack (sp : Spacing) (j : Json) : Prop :=
  ∀ (depth fuel : Nat) (rest : List Char), (spread sp depth j).length < fuel → EndsNumber rest →
    readValue fuel (spread sp depth j ++ rest) = some (j, rest)

section Heads

variable (sp : Spacing) (depth : Nat) (rest : List Char) {closing : List Char}

theorem not_isBlank_of_isDigit {c : Char} (hc : c.isDigit = true) : isBlank c = false := by
  by_contra hblank
  simp only [isBlank, Bool.not_eq_false, Bool.or_eq_true, beq_iff_eq] at hblank
  rcases hblank with ((rfl | rfl) | rfl) | rfl <;> cases hc

/-- A printed document begins with a character of its own. -/
theorem head_spread {j : Json} (hj : Sound j) :
    ∃ c cs, spread sp depth j = c :: cs ∧ isBlank c = false ∧ c ≠ ']' := by
  cases hj with
  | null => exact ⟨_, _, rfl, by decide, by decide⟩
  | bool b => cases b <;> exact ⟨_, _, rfl, by decide, by decide⟩
  | number n =>
      obtain ⟨c, cs, hdigits, hc⟩ := head_toDigits n
      refine ⟨c, cs, hdigits, not_isBlank_of_isDigit hc, ?_⟩
      rintro rfl
      cases hc
  | string cs => exact ⟨_, _, rfl, by decide, by decide⟩
  | @array items _ => cases items <;> exact ⟨_, _, rfl, by decide, by decide⟩
  | @object members _ _ =>
      rcases members with - | ⟨⟨key, value⟩, members⟩ <;>
        exact ⟨_, _, rfl, by decide, by decide⟩

theorem endsNumber_items (items : List Json) (hclosing : Blank closing) :
    EndsNumber (spreadItems sp depth items ++ (closing ++ ']' :: rest)) := by
  have hend : EndsNumber (closing ++ ']' :: rest) :=
    endsNumber_blanks hclosing (endsNumber_cons (by decide))
  cases items with
  | nil => exact hend
  | cons item items => exact endsNumber_cons (c := ',') (by decide)

theorem endsNumber_members (members : List (List Char × Json)) (hclosing : Blank closing) :
    EndsNumber (spreadMembers sp depth members ++ (closing ++ '\x7d' :: rest)) := by
  have hend : EndsNumber (closing ++ '\x7d' :: rest) :=
    endsNumber_blanks hclosing (endsNumber_cons (by decide))
  cases members with
  | nil => exact hend
  | cons member members => exact endsNumber_cons (c := ',') (by decide)

end Heads

section Items

variable {sp : Spacing} {fuel : Nat} {cs rest closing : List Char} {item : Json}

theorem readItems_last (hitem : readValue fuel cs = some (item, closing ++ ']' :: rest))
    (hclosing : Blank closing) : readItems (fuel + 1) cs = some ([item], rest) := by
  simp [readItems, hitem, skipBlank_append hclosing, skipBlank_cons (c := ']') rfl]

theorem readItems_more (hitem : readValue fuel cs = some (item, ',' :: rest)) :
    readItems (fuel + 1) cs = (readItems fuel rest).map fun p => (item :: p.1, p.2) := by
  simp [readItems, hitem, skipBlank_cons (c := ',') rfl]

/-- The induction is on the items that follow.  Each of them takes one unit of the
fuel, and at least one character of the text. -/
theorem readItems_spread {items : List Json} (depth fuel : Nat) (rest : List Char)
    (hitem : ReadBack sp item) (hitems : ∀ j ∈ items, ReadBack sp j) (hclosing : Blank closing)
    (hfuel : (spread sp depth item).length + (spreadItems sp depth items).length + 1 < fuel) :
    readItems fuel (spread sp depth item ++
        (spreadItems sp depth items ++ (closing ++ ']' :: rest))) = some (item :: items, rest) := by
  obtain ⟨fuel, rfl⟩ := Nat.exists_eq_add_one_of_ne_zero (by omega : fuel ≠ 0)
  have hread := hitem depth fuel _ (by omega) (endsNumber_items sp depth rest items hclosing)
  induction items generalizing item fuel with
  | nil => exact readItems_last hread hclosing
  | cons next items ih =>
      simp only [spreadItems, List.length_append, List.length_cons] at hfuel
      obtain ⟨fuel, rfl⟩ := Nat.exists_eq_add_one_of_ne_zero (by omega : fuel ≠ 0)
      have hnext : ReadBack sp next := hitems next (by simp)
      have hmore := ih hnext (fun j hj => hitems j (by simp [hj])) fuel (by omega)
        (hnext depth fuel _ (by omega) (endsNumber_items sp depth rest items hclosing))
      simp only [spreadItems, List.append_assoc, List.cons_append] at hread ⊢
      rw [readItems_more hread, readItems_blanks (sp.gap_blank depth), hmore]
      rfl

end Items

section Members

variable {sp : Spacing} {fuel : Nat} {cs text rest closing : List Char} {value : Json}

theorem readMembers_last
    (hvalue : readValue fuel text = some (value, closing ++ '\x7d' :: rest))
    (hclosing : Blank closing) :
    readMembers (fuel + 1) (quoted (encode cs) ++ ':' :: text) =
      some ([(encode cs, value)], rest) := by
  simp [readMembers, quoted, skipBlank_cons (c := '"') rfl, skipBlank_cons (c := ':') rfl,
    splitString_encode, hvalue, skipBlank_append hclosing, skipBlank_cons (c := '\x7d') rfl]

theorem readMembers_more (hvalue : readValue fuel text = some (value, ',' :: rest)) :
    readMembers (fuel + 1) (quoted (encode cs) ++ ':' :: text) =
      (readMembers fuel rest).map fun p => ((encode cs, value) :: p.1, p.2) := by
  simp [readMembers, quoted, skipBlank_cons (c := '"') rfl, skipBlank_cons (c := ':') rfl,
    splitString_encode, hvalue, skipBlank_cons (c := ',') rfl]

theorem readMembers_spread {members : List (List Char × Json)} (cs : List Char)
    (depth fuel : Nat) (rest : List Char) (hvalue : ReadBack sp value)
    (hkeys : ∀ p ∈ members, ∃ cs, p.1 = encode cs) (hvalues : ∀ p ∈ members, ReadBack sp p.2)
    (hclosing : Blank closing)
    (hfuel : (spread sp depth value).length + (spreadMembers sp depth members).length + 1 < fuel) :
    readMembers fuel (quoted (encode cs) ++ ':' :: (sp.lead ++ (spread sp depth value ++
        (spreadMembers sp depth members ++ (closing ++ '\x7d' :: rest))))) =
      some ((encode cs, value) :: members, rest) := by
  obtain ⟨fuel, rfl⟩ := Nat.exists_eq_add_one_of_ne_zero (by omega : fuel ≠ 0)
  have hread := hvalue depth fuel _ (by omega) (endsNumber_members sp depth rest members hclosing)
  rw [← readValue_blanks sp.lead_blank] at hread
  induction members generalizing cs value fuel with
  | nil => exact readMembers_last hread hclosing
  | cons member members ih =>
      obtain ⟨key, next⟩ := member
      obtain ⟨ks, rfl⟩ : ∃ cs, key = encode cs := hkeys (key, next) (by simp)
      simp only [spreadMembers, List.length_append, List.length_cons] at hfuel
      obtain ⟨fuel, rfl⟩ := Nat.exists_eq_add_one_of_ne_zero (by omega : fuel ≠ 0)
      have hnext : ReadBack sp next := hvalues (encode ks, next) (by simp)
      have hmore := ih ks hnext (fun p hp => hkeys p (by simp [hp]))
        (fun p hp => hvalues p (by simp [hp])) fuel (by omega)
        ((readValue_blanks sp.lead_blank fuel).trans
          (hnext depth fuel _ (by omega) (endsNumber_members sp depth rest members hclosing)))
      simp only [spreadMembers, List.append_assoc, List.cons_append] at hread ⊢
      rw [readMembers_more hread, readMembers_blanks (sp.gap_blank depth), hmore]
      rfl

end Members

section Documents

variable {sp : Spacing} {j : Json}

theorem readValue_number (n fuel : Nat) {rest : List Char} (hrest : EndsNumber rest) :
    readValue (fuel + 1) (Nat.toDigits 10 n ++ rest) =
      some (number (Nat.toDigits 10 n), rest) := by
  have hsplit := splitNumber_toDigits n hrest
  obtain ⟨c, cs, hdigits, hc⟩ := head_toDigits n
  rw [hdigits] at hsplit ⊢
  rw [List.cons_append] at hsplit ⊢
  rw [readValue, skipBlank_cons (not_isBlank_of_isDigit hc)]
  have hne : ∀ d, d.isDigit = false → c ≠ d := by
    rintro d hd rfl
    rw [hc] at hd
    cases hd
  -- a digit begins no other kind of document
  split
  case h_7 => rw [hsplit]; rfl
  all_goals
    rename_i heq
    exact absurd (List.cons.inj heq).1 (hne _ rfl)

theorem readValue_array {gap cs rest : List Char} {c : Char} {items : List Json} {fuel : Nat}
    (hgap : Blank gap) (hc : isBlank c = false) (hbracket : c ≠ ']')
    (hitems : readItems fuel (c :: cs) = some (items, rest)) :
    readValue (fuel + 1) ('[' :: (gap ++ c :: cs)) = some (array items, rest) := by
  simp only [readValue, skipBlank_cons (c := '[') rfl, skipBlank_append hgap, skipBlank_cons hc]
  split
  next heq => exact absurd (List.cons.inj heq).1 hbracket
  · rw [hitems]
    rfl

theorem readValue_object {gap cs rest : List Char} {members : List (List Char × Json)}
    {fuel : Nat} (hgap : Blank gap)
    (hmembers : readMembers fuel ('"' :: cs) = some (members, rest)) :
    readValue (fuel + 1) ('\x7b' :: (gap ++ '"' :: cs)) = some (object members, rest) := by
  simp [readValue, skipBlank_cons (c := '\x7b') rfl, skipBlank_append hgap,
    skipBlank_cons (c := '"') rfl, hmembers]

theorem readBack_array {items : List Json} (hsound : ∀ item ∈ items, Sound item)
    (hitems : ∀ item ∈ items, ReadBack sp item) : ReadBack sp (array items) := by
  intro depth fuel rest hfuel _
  obtain ⟨fuel, rfl⟩ := Nat.exists_eq_add_one_of_ne_zero (by omega : fuel ≠ 0)
  cases items with
  | nil => simp [spread, readValue, skipBlank_cons (c := '[') rfl, skipBlank_cons (c := ']') rfl]
  | cons item items =>
      simp only [spread, List.length_append, List.length_cons] at hfuel
      have hread := readItems_spread (depth + 1) fuel rest (hitems item (by simp))
        (fun j hj => hitems j (List.mem_cons_of_mem item hj)) (sp.gap_blank depth) (by omega)
      obtain ⟨c, cs, hc, hblank, hbracket⟩ := head_spread sp (depth + 1) (hsound item (by simp))
      simp only [hc, List.cons_append] at hread
      simp only [spread, hc, List.cons_append, List.nil_append, List.append_assoc]
      exact readValue_array (sp.gap_blank (depth + 1)) hblank hbracket hread

theorem readBack_object {members : List (List Char × Json)}
    (hkeys : ∀ p ∈ members, ∃ cs, p.1 = encode cs) (hvalues : ∀ p ∈ members, ReadBack sp p.2) :
    ReadBack sp (object members) := by
  intro depth fuel rest hfuel _
  obtain ⟨fuel, rfl⟩ := Nat.exists_eq_add_one_of_ne_zero (by omega : fuel ≠ 0)
  rcases members with - | ⟨⟨key, value⟩, members⟩
  · simp [spread, readValue, skipBlank_cons (c := '\x7b') rfl, skipBlank_cons (c := '\x7d') rfl]
  · obtain ⟨ks, rfl⟩ : ∃ cs, key = encode cs := hkeys (key, value) (by simp)
    simp only [spread, List.length_append, List.length_cons] at hfuel
    have hvalue : ReadBack sp value := hvalues (encode ks, value) (by simp)
    have hread := readMembers_spread ks (depth + 1) fuel rest hvalue
      (fun p hp => hkeys p (List.mem_cons_of_mem _ hp))
      (fun p hp => hvalues p (List.mem_cons_of_mem _ hp)) (sp.gap_blank depth) (by omega)
    simp only [quoted, List.cons_append, List.nil_append, List.append_assoc] at hread
    simp only [spread, quoted, List.cons_append, List.nil_append, List.append_assoc]
    exact readValue_object (sp.gap_blank (depth + 1)) hread

/-- A document without parts is read with any fuel. -/
theorem readBack_leaf (hread : ∀ depth fuel rest, EndsNumber rest →
    readValue (fuel + 1) (spread sp depth j ++ rest) = some (j, rest)) : ReadBack sp j := by
  intro depth fuel rest hfuel hrest
  obtain ⟨fuel, rfl⟩ := Nat.exists_eq_add_one_of_ne_zero (by omega : fuel ≠ 0)
  exact hread depth fuel rest hrest

/-- The reader undoes the printer, by induction on the document. -/
theorem Sound.readBack (hj : Sound j) : ReadBack sp j := by
  induction hj with
  | null =>
      refine readBack_leaf fun depth fuel rest _ => ?_
      simp [spread, readValue, skipBlank_cons (c := 'n') rfl]
  | bool b =>
      refine readBack_leaf fun depth fuel rest _ => ?_
      cases b with
      | true => simp [spread, readValue, skipBlank_cons (c := 't') rfl]
      | false => simp [spread, readValue, skipBlank_cons (c := 'f') rfl]
  | number n =>
      refine readBack_leaf fun depth fuel rest hrest => ?_
      exact readValue_number n fuel hrest
  | string cs =>
      refine readBack_leaf fun depth fuel rest _ => ?_
      simp [spread, quoted, readValue, skipBlank_cons (c := '"') rfl, splitString_encode]
  | array hitems ih => exact readBack_array hitems ih
  | object hkeys _ ih => exact readBack_object hkeys ih

theorem parse?_spread (sp : Spacing) (hj : Sound j) : parse? (spread sp 0 j) = some j := by
  have hprinted : ReadBack sp j := hj.readBack
  have hread := hprinted 0 ((spread sp 0 j).length + 1) [] (by omega) (by simp [EndsNumber])
  rw [List.append_nil] at hread
  simp [parse?, hread, skipBlank]

theorem parse?_compact (hj : Sound j) : parse? j.compact = some j := by
  rw [← spread_tight 0 j]
  exact parse?_spread .tight hj

theorem parse?_indented (hj : Sound j) : parse? (j.indented 0) = some j := by
  rw [← spread_lines 0 j]
  exact parse?_spread .lines hj

end Documents

end SqlReader.Json
