import SqlReader.Proofs.Toml.Value

/-!
# Written documents

A document is written as tables with a line for each setting and a blank line
between two tables.  Each line leads the reader from one state to the next, and a whole
document leads it to the tables as they were written.
-/

namespace SqlReader.Toml

/-! ## Keys -/

def BareKey (key : String) : Prop := key.toList ≠ [] ∧ key.toList.all isKeyChar = true

instance : DecidablePred BareKey := fun _ => inferInstanceAs (Decidable (_ ∧ _))

/-- A character that neither ends a line nor is skipped in front of one. -/
def StartsLine (c : Char) : Prop := c ≠ '#' ∧ c ≠ '\n' ∧ c ≠ '\r' ∧ isBlank c = false

theorem skipBlank_of_head {c : Char} (cs : List Char) (hc : isBlank c = false) :
    skipBlank (c :: cs) = c :: cs := by
  simp [skipBlank, hc]

section Keys

variable {c : Char} {key : String} {rest : List Char}

theorem ne_of_isKeyChar (hc : isKeyChar c = true) (d : Char) (hd : isKeyChar d = false) :
    c ≠ d := by
  rintro rfl
  simp [hc] at hd

theorem startsLine_of_isKeyChar (hc : isKeyChar c = true) : StartsLine c := by
  have hspace := ne_of_isKeyChar hc ' ' rfl
  have htab := ne_of_isKeyChar hc '\t' rfl
  exact ⟨ne_of_isKeyChar hc '#' rfl, ne_of_isKeyChar hc '\n' rfl, ne_of_isKeyChar hc '\r' rfl,
    by simp [isBlank, hspace, htab]⟩

theorem BareKey.head (hkey : BareKey key) :
    ∃ c cs, key.toList = c :: cs ∧ isKeyChar c = true := by
  obtain ⟨c, cs, hcs⟩ := List.exists_cons_of_ne_nil hkey.1
  exact ⟨c, cs, hcs, List.all_eq_true.mp hkey.2 c (by simp [hcs])⟩

theorem readKeyPart_bare (hkey : BareKey key) (hrest : ∀ c ∈ rest.head?, isKeyChar c = false) :
    readKeyPart (key.toList ++ rest) = some (key, rest) := by
  obtain ⟨c, cs, hcs, hc⟩ := hkey.head
  have hall := List.all_eq_true.mp hkey.2
  have htake := takeWhile_append_of_head hall hrest
  have hdrop := dropWhile_append_of_head hall hrest
  rw [hcs, List.cons_append] at htake hdrop ⊢
  rw [readKeyPart, htake, hdrop]
  · simp [← hcs, String.ofList_toList]
  · exact fun _ heq => ne_of_isKeyChar hc '"' rfl (List.cons.inj heq).1
  · exact fun _ heq => ne_of_isKeyChar hc '\'' rfl (List.cons.inj heq).1

theorem readKey_bare (hkey : BareKey key) (hrest : ∀ c ∈ rest.head?, isKeyChar c = false)
    (hdot : (skipBlank rest).head? ≠ some '.') (fuel : Nat) :
    readKey (fuel + 1) (key.toList ++ rest) = some ([key], skipBlank rest) := by
  obtain ⟨c, cs, hcs, hc⟩ := hkey.head
  have hblank : skipBlank (key.toList ++ rest) = key.toList ++ rest := by
    rw [hcs]
    exact skipBlank_of_head _ (startsLine_of_isKeyChar hc).2.2.2
  simp only [readKey, hblank, readKeyPart_bare hkey hrest, Option.bind_eq_bind, Option.bind_some]
  split
  next heq => simp [heq] at hdot
  · rfl

end Keys

/-! ## Entries by their keys -/

theorem notMem_of_nodup_append {α : Type} {a : α} {before after : List α}
    (h : (before ++ a :: after).Nodup) : a ∉ before := fun hmem =>
  (List.nodup_append.mp h).2.2 a hmem a List.mem_cons_self rfl

section Entries

variable {name key : String} {v w : Value} {done inner : Entries}

theorem lookup_of_notMem (h : key ∉ done.map (·.1)) : done.lookup key = none := by
  rw [List.lookup_eq_none_iff]
  intro e he
  rw [bne_iff_ne]
  rintro rfl
  exact h (List.mem_map_of_mem he)

theorem lookup_append_last (h : key ∉ done.map (·.1)) :
    (done ++ [(key, v)]).lookup key = some v := by
  rw [List.lookup_append, lookup_of_notMem h, Option.none_or, List.lookup_cons_self]

theorem lookup_of_mem {e : String × Value} (hkeys : (done.map (·.1)).Nodup) (he : e ∈ done) :
    done.lookup e.1 = some e.2 := by
  obtain ⟨before, after, rfl⟩ := List.append_of_mem he
  have hnew : e.1 ∉ before.map (·.1) := by
    rw [List.map_append] at hkeys
    exact notMem_of_nodup_append hkeys
  rw [List.lookup_append, lookup_of_notMem hnew, Option.none_or, List.lookup_cons_self]

/-- A record whose fields are the keys of a table gets all of them. -/
theorem fields?_table (form : Form) (hkeys : (done.map (·.1)).Nodup) :
    (Value.table form done).fields? (done.map (·.1)) = some (done.map fun e => some e.2) := by
  have hknown : (done.all fun e => e.1 ∈ done.map (·.1) || e.2.isHeld) = true := by
    refine List.all_eq_true.mpr fun e he => ?_
    simp [List.mem_map_of_mem he]
  rw [Value.fields?, if_pos hknown, List.map_map]
  exact congrArg some (List.map_congr_left fun e he => lookup_of_mem hkeys he)

theorem replace_append_last (h : key ∉ done.map (·.1)) :
    Entries.replace (done ++ [(key, v)]) key w = done ++ [(key, w)] := by
  have hdone : done.map (fun e => if e.1 = key then (key, w) else e) = done.map id := by
    refine List.map_congr_left fun e he => if_neg ?_
    rintro rfl
    exact h (List.mem_map_of_mem he)
  rw [Entries.replace, List.map_append, hdone, List.map_id]
  simp

theorem openHeader_new {current : List String} (h : name ∉ done.map (·.1)) :
    openHeader ⟨done, current⟩ [name] openTable =
      some ⟨done ++ [(name, .table .header [])], [name]⟩ := by
  simp [openHeader, changeAt, openTable, lookup_of_notMem h]

theorem define_new (hname : name ∉ done.map (·.1)) (hkey : key ∉ inner.map (·.1)) :
    define ⟨done ++ [(name, .table .header inner)], [name]⟩ [key] v =
      some ⟨done ++ [(name, .table .header (inner ++ [(key, v)]))], [name]⟩ := by
  simp [define, changeAt, addKey, lookup_append_last hname, lookup_of_notMem hkey,
    replace_append_last hname]

end Entries

/-! ## Steps of the reader -/

section Steps

variable {p q r : Progress} {text text' : List Char}

/-- From one state of the document to another by a part of the text, whatever follows. -/
def Leads (p : Progress) (text : List Char) (q : Progress) : Prop :=
  ∀ rest fuel, (text ++ rest).length < fuel →
    ∃ fuel', rest.length < fuel' ∧ readLines fuel p (text ++ rest) = readLines fuel' q rest

theorem Leads.nil (p : Progress) : Leads p [] p := fun _ fuel hfuel => ⟨fuel, hfuel, rfl⟩

theorem Leads.trans (h : Leads p text q) (h' : Leads q text' r) : Leads p (text ++ text') r := by
  intro rest fuel hfuel
  rw [List.append_assoc] at hfuel ⊢
  obtain ⟨fuel', hfuel', hread⟩ := h (text' ++ rest) fuel hfuel
  obtain ⟨fuel'', hfuel'', hread'⟩ := h' rest fuel' hfuel'
  exact ⟨fuel'', hfuel'', hread.trans hread'⟩

theorem Leads.readLines_eq (h : Leads p text q) {fuel : Nat} (hfuel : text.length < fuel) :
    readLines fuel p text = some q := by
  obtain ⟨fuel', hfuel', hread⟩ := h [] fuel (by simpa using hfuel)
  obtain ⟨fuel', rfl⟩ := Nat.exists_eq_add_one_of_ne_zero (Nat.ne_of_gt hfuel')
  rw [List.append_nil] at hread
  rw [hread]
  rfl

theorem leads_blankLine (p : Progress) : Leads p ['\n'] p := by
  intro rest fuel hfuel
  obtain ⟨fuel, rfl⟩ := Nat.exists_eq_add_one_of_ne_zero (Nat.ne_zero_of_lt hfuel)
  refine ⟨fuel + 1, Nat.lt_of_succ_lt hfuel, ?_⟩
  rfl

theorem skipLines_of_head {c : Char} (hc : StartsLine c) (fuel : Nat) (cs : List Char) :
    skipLines fuel (c :: cs) = some (c :: cs) := by
  obtain ⟨hcomment, hbreak, hreturn, hblank⟩ := hc
  cases fuel with
  | zero => rfl
  | succ fuel => simp [skipLines, skipBlank_of_head cs hblank, skipComment, lineBreak?, *]

theorem leads_line (hhead : ∃ c cs, text = c :: cs ∧ StartsLine c)
    (h : ∀ rest, readLine p (text ++ '\n' :: rest) = some (q, '\n' :: rest)) :
    Leads p (text ++ ['\n']) q := by
  obtain ⟨c, cs, rfl, hc⟩ := hhead
  intro rest fuel hfuel
  obtain ⟨fuel, rfl⟩ := Nat.exists_eq_add_one_of_ne_zero (Nat.ne_zero_of_lt hfuel)
  refine ⟨fuel, by simp at hfuel; omega, ?_⟩
  simp only [List.cons_append] at h
  simp only [List.cons_append, List.append_assoc, List.nil_append, readLines,
    skipLines_of_head hc, Option.bind_eq_bind, Option.bind_some, h]
  rfl

end Steps

/-! ## Lines -/

theorem readLine_header {name : String} (hname : BareKey name) (p : Progress) (rest : List Char) :
    readLine p ('[' :: (name.toList ++ ']' :: rest)) =
      (openHeader p [name] openTable).map (·, rest) := by
  obtain ⟨c, cs, hcs, hc⟩ := hname.head
  have hkey (fuel : Nat) :
      readKey (fuel + 1) (name.toList ++ ']' :: rest) = some ([name], ']' :: rest) :=
    readKey_bare hname (by simp [isKeyChar]) (by simp [skipBlank, isBlank]) fuel
  rw [readLine]
  · simp only [hkey, Option.bind_eq_bind, Option.bind_some]
    cases openHeader p [name] openTable <;> rfl
  · intro cs' heq
    rw [hcs] at heq
    exact ne_of_isKeyChar hc '[' rfl (List.cons.inj heq).1

structure Setting where
  key : String
  text : List Char
  value : Value
  bare : BareKey key
  spells : Spells text value

def Setting.line (s : Setting) : List Char := s.key.toList ++ ' ' :: '=' :: ' ' :: s.text

theorem Setting.readLine_eq (s : Setting) (p : Progress) (rest : List Char) :
    readLine p (s.line ++ '\n' :: rest) =
      (define p [s.key] s.value).map (·, '\n' :: rest) := by
  obtain ⟨c, cs, hcs, hc⟩ := s.bare.head
  obtain ⟨d, ds, hds, hblank⟩ := s.spells.head
  have hkey (fuel : Nat) (rest : List Char) :
      readKey (fuel + 1) (s.key.toList ++ ' ' :: '=' :: rest) = some ([s.key], '=' :: rest) :=
    readKey_bare s.bare (by simp [isKeyChar]) (by simp [skipBlank, isBlank]) fuel
  have hskip : skipBlank (' ' :: (s.text ++ '\n' :: rest)) = s.text ++ '\n' :: rest := by
    rw [hds]
    exact skipBlank_of_head _ hblank
  rw [Setting.line, List.append_assoc, List.cons_append, List.cons_append, List.cons_append,
    readLine]
  · simp only [hkey, hskip, s.spells.read, Option.bind_eq_bind, Option.bind_some]
    cases define p [s.key] s.value <;> rfl
  · intro cs' heq
    rw [hcs] at heq
    exact ne_of_isKeyChar hc '[' rfl (List.cons.inj heq).1
  · intro cs' heq
    rw [hcs] at heq
    exact ne_of_isKeyChar hc '[' rfl (List.cons.inj heq).1

/-! ## Tables -/

structure Table where
  name : String
  settings : List Setting
  bare : BareKey name
  nodup : (settings.map (·.key)).Nodup

namespace Table

def header (t : Table) : List Char := '[' :: (t.name.toList ++ [']'])

def lines (t : Table) : List Char :=
  t.header ++ ['\n'] ++ t.settings.flatMap fun s => s.line ++ ['\n']

def value (t : Table) : Value := .table .header (t.settings.map fun s => (s.key, s.value))

end Table

section Tables

variable {name : String} {done inner : Entries}

theorem leads_header {current : List String} (t : Table) (hname : t.name ∉ done.map (·.1)) :
    Leads ⟨done, current⟩ (t.header ++ ['\n'])
      ⟨done ++ [(t.name, .table .header [])], [t.name]⟩ := by
  refine leads_line ⟨'[', _, rfl, by simp [StartsLine, isBlank]⟩ fun rest => ?_
  have hread := readLine_header t.bare ⟨done, current⟩ ('\n' :: rest)
  rw [openHeader_new hname] at hread
  simpa [Table.header] using hread

theorem leads_setting (s : Setting) (hname : name ∉ done.map (·.1))
    (hkey : s.key ∉ inner.map (·.1)) :
    Leads ⟨done ++ [(name, .table .header inner)], [name]⟩ (s.line ++ ['\n'])
      ⟨done ++ [(name, .table .header (inner ++ [(s.key, s.value)]))], [name]⟩ := by
  obtain ⟨c, cs, hcs, hc⟩ := s.bare.head
  have hline : s.line = c :: (cs ++ ' ' :: '=' :: ' ' :: s.text) := by simp [Setting.line, hcs]
  refine leads_line ⟨c, _, hline, startsLine_of_isKeyChar hc⟩ fun rest => ?_
  rw [s.readLine_eq, define_new hname hkey]
  rfl

theorem leads_settings {ss : List Setting} (hname : name ∉ done.map (·.1))
    (hkeys : (inner.map (·.1) ++ ss.map (·.key)).Nodup) :
    Leads ⟨done ++ [(name, .table .header inner)], [name]⟩
      (ss.flatMap fun s => s.line ++ ['\n'])
      ⟨done ++ [(name, .table .header (inner ++ ss.map fun s => (s.key, s.value)))], [name]⟩ := by
  induction ss generalizing inner with
  | nil => simpa using Leads.nil _
  | cons s ss ih =>
      have hkey : s.key ∉ inner.map (·.1) := notMem_of_nodup_append hkeys
      have hstep := leads_setting s hname hkey
      have hrest := @ih (inner ++ [(s.key, s.value)]) (by simpa using hkeys)
      simpa using hstep.trans hrest

theorem leads_table {current : List String} (t : Table) (hname : t.name ∉ done.map (·.1)) :
    Leads ⟨done, current⟩ t.lines ⟨done ++ [(t.name, t.value)], [t.name]⟩ := by
  have hheader : Leads ⟨done, current⟩ _ _ := leads_header t hname
  exact hheader.trans (leads_settings hname (by simpa using t.nodup))

end Tables

/-! ## Documents -/

section Documents

variable {ts : List Table}

def document (ts : List Table) : List Char := ['\n'].intercalate (ts.map Table.lines)

theorem leads_document {done : Entries} {current : List String}
    (hnames : (done.map (·.1) ++ ts.map (·.name)).Nodup) :
    ∃ last, Leads ⟨done, current⟩ (document ts)
      ⟨done ++ ts.map fun t => (t.name, t.value), last⟩ := by
  induction ts generalizing done current with
  | nil => exact ⟨current, by simpa [document] using Leads.nil _⟩
  | cons t ts ih =>
      have hname : t.name ∉ done.map (·.1) := notMem_of_nodup_append hnames
      have hstep : Leads ⟨done, current⟩ t.lines _ := leads_table t hname
      obtain ⟨last, hrest⟩ := @ih (done ++ [(t.name, t.value)]) [t.name] (by simpa using hnames)
      cases ts with
      | nil => exact ⟨[t.name], by simpa [document] using hstep⟩
      | cons t' ts =>
          refine ⟨last, ?_⟩
          have hall := (hstep.trans (leads_blankLine _)).trans hrest
          simpa [document, List.intercalate_cons_cons] using hall

theorem head_document : ∀ c ∈ (document ts).head?, c = '[' := by
  cases ts with
  | nil => simp [document]
  | cons t ts => cases ts <;> simp [document, Table.lines, Table.header, List.intercalate_cons_cons]

/-- A document whose tables have different names is read as these tables. -/
theorem parse?_document (hnames : (ts.map (·.name)).Nodup) :
    parse? (document ts) = some (.table .header (ts.map fun t => (t.name, t.value))) := by
  obtain ⟨last, hread⟩ := @leads_document ts [] [] (by simpa using hnames)
  rw [parse?, hread.readLines_eq (Nat.lt_succ_self _)]
  · simp
  · intro cs heq
    exact absurd (head_document _ (by rw [heq]; rfl)) (by decide)

end Documents

end SqlReader.Toml
