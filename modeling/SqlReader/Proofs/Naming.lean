import SqlReader.Proofs.Definition.Parsing
import SqlReader.Proofs.Layout

/-!
# Names that are defined can be used

A name that the definition of a table takes is no reserved word.  Elsewhere it
is taken as well, unless it makes a phrase with the word before or behind it; few
words are not reserved by themselves and yet belong to a phrase, and of those
only `TABLE` and `NOT` ever stand next to the other half.
-/

namespace SqlReader

open Token Text

/-! ## Deciding how tokens are written -/

instance (t : Token) : Decidable t.Readable :=
  match t with
  | .keyword _ | .literal _ => isTrue trivial
  | .word s => inferInstanceAs (Decidable (s.toList.all isWordChar = true))
  | .unterminated _ | .endOfText => isFalse id

instance (t : Token) : Decidable t.Spelled :=
  decidable_of_iff
    (t.Readable ∧ (scan t.spelling).token = t ∧ (scan t.spelling).text = t.spelling)
    ⟨fun h => ⟨h.1, h.2.1, h.2.2⟩, fun h => ⟨h.readable, h.token_eq, h.text_eq⟩⟩

instance (ts : List Token) : Decidable (Sayable ts) :=
  decidable_of_iff ((∀ t ∈ ts, t.Spelled) ∧ ts.IsChain Apart)
    ⟨fun h => ⟨h.1, h.2⟩, fun h => ⟨h.spelled, h.apart⟩⟩

-- over the first character, not over all characters
instance (cs : List Char) : Decidable (Spaced cs) :=
  decidable_of_iff (cs.head?.all isSpace = true) (by cases cs <;> simp [Spaced])

instance (cs : List Char) : Decidable (Firm cs) :=
  match h : cs.getLast? with
  | none => isFalse (by rintro ⟨c, hc, -⟩; simp [h] at hc)
  | some c => decidable_of_iff (isBlank c = false ∧ c ≠ ';') (by simp [Firm, h])

/-! ## Texts with a place for a name -/

/-- The text around a place for a name, and its tokens. -/
structure Frame where
  before : String
  leading : List Token
  after : String
  trailing : List Token

namespace Frame

def fill (frame : Frame) (n : String) : String := frame.before ++ n ++ frame.after

structure Spells (frame : Frame) : Prop where
  before : ' ' :: frame.before.toList = writing frame.leading ++ [' ']
  leading : Sayable frame.leading
  after : Spaced frame.after.toList
  trailing : (Cursor.ofText frame.after.toList).tokens.map (·.2) = frame.trailing
  ends : frame.after.toList = [] ∨ Firm frame.after.toList

instance (frame : Frame) : Decidable frame.Spells :=
  decidable_of_iff
    (' ' :: frame.before.toList = writing frame.leading ++ [' '] ∧ Sayable frame.leading ∧
      Spaced frame.after.toList ∧
      (Cursor.ofText frame.after.toList).tokens.map (·.2) = frame.trailing ∧
      (frame.after.toList = [] ∨ Firm frame.after.toList))
    ⟨fun h => ⟨h.1, h.2.1, h.2.2.1, h.2.2.2.1, h.2.2.2.2⟩,
      fun h => ⟨h.before, h.leading, h.after, h.trailing, h.ends⟩⟩

/-- The words that make a phrase with a word next to the place, without being
reserved themselves. -/
def rivals (frame : Frame) : List String :=
  vocabulary.flatMap fun e =>
    match e.words with
    | [v, w] =>
      (if frame.leading.getLast?.any (fun t => upper t.spelling == v.toList) &&
          (reserved? [w.toList]).isNone then [w] else []) ++
      (if upper (nextWord frame.after.toList) == w.toList && (reserved? [v.toList]).isNone
        then [v] else [])
    | _ => []

variable {frame : Frame} {n : String}

theorem mem_rivals {e : Entry} {v w : String} (he : e ∈ vocabulary) (hwords : e.words = [v, w]) :
    (∀ t ∈ frame.leading.getLast?, upper t.spelling = v.toList → reserved? [w.toList] = none →
        w ∈ frame.rivals) ∧
      (upper (nextWord frame.after.toList) = w.toList → reserved? [v.toList] = none →
        v ∈ frame.rivals) := by
  constructor
  · intro t ht hv hw
    refine List.mem_flatMap.mpr ⟨e, he, ?_⟩
    simp [hwords, Option.mem_def.mp ht, hv, hw]
  · intro hw hv
    refine List.mem_flatMap.mpr ⟨e, he, ?_⟩
    simp [hwords, hw, hv]

/-- The words of an entry that is a phrase. -/
theorem exists_words {v w : List Char} {k : Keyword} (h : reserved? [v, w] = some k) :
    ∃ e ∈ vocabulary, ∃ v' w' : String, e.words = [v', w'] ∧ upper v = v'.toList ∧
      upper w = w'.toList := by
  obtain ⟨e, he, hwords, -⟩ := exists_mem_of_reserved? h
  obtain ⟨v', rest, hv', hv, hrest⟩ := List.map_eq_cons_iff.mp hwords
  obtain ⟨w', rest', rfl, hw, hnil⟩ := List.map_eq_cons_iff.mp hrest
  obtain rfl := List.map_eq_nil_iff.mp hnil
  exact ⟨e, he, v', w', hv', hv.symm, hw.symm⟩

/-- A word of a phrase is reserved if its capital spelling is. -/
theorem reserved?_of_upper_eq {e : Entry} {v : String} {w : List Char} (he : e ∈ vocabulary)
    (hv : v ∈ e.words) (h : upper w = v.toList) : reserved? [v.toList] = reserved? [w] := by
  apply reserved?_congr
  simp [upper_of_mem e he v.toList (List.mem_map_of_mem hv), h]

theorem eq_upperString {v w : String} (h : upper w.toList = v.toList) : v = upperString w :=
  (upperString_eq_iff.mpr h).symm

theorem apart_before (hn : PlainName n) (hrivals : upperString n ∉ frame.rivals) :
    ∀ t ∈ frame.leading.getLast?, reserved? [t.spelling, n.toList] = none := by
  intro t ht
  apply Option.eq_none_iff_forall_ne_some.mpr
  intro k hk
  obtain ⟨e, he, v, w, hwords, hv, hw⟩ := exists_words hk
  have hplain : reserved? [w.toList] = none :=
    (reserved?_of_upper_eq he (by simp [hwords]) hw).trans hn.unreserved
  apply hrivals
  rw [← eq_upperString hw]
  exact (mem_rivals he hwords).1 t ht hv hplain

theorem apart_after (hn : PlainName n) (hrivals : upperString n ∉ frame.rivals) :
    reserved? [n.toList, nextWord frame.after.toList] = none := by
  apply Option.eq_none_iff_forall_ne_some.mpr
  intro k hk
  obtain ⟨e, he, v, w, hwords, hv, hw⟩ := exists_words hk
  have hplain : reserved? [v.toList] = none :=
    (reserved?_of_upper_eq he (by simp [hwords]) hv).trans hn.unreserved
  apply hrivals
  rw [← eq_upperString hv]
  exact (mem_rivals he hwords).2 hw hplain

theorem fill_toList (frame : Frame) (n : String) :
    (frame.fill n).toList = frame.before.toList ++ (n.toList ++ frame.after.toList) := by
  simp [fill]

theorem dropWhile_blank (cs : List Char) : (' ' :: cs).dropWhile isSpace = cs.dropWhile isSpace :=
  rfl

/-- The tokens before the place are read before what stands there. -/
theorem Spells.reads_leading (h : frame.Spells) {z : List Char}
    (hz : ∀ c ∈ z.head?, isSpace c = false)
    (hbefore : ∀ u ∈ frame.leading.getLast?,
      reserved? [u.spelling, z.takeWhile isWordChar] = none) :
    Reads ((frame.before.toList ++ z).dropWhile isSpace) frame.leading z := by
  have hdrop : ([' '] ++ z).dropWhile isSpace = z :=
    dropWhile_append_gap (by simp [isSpace]) hz
  rw [List.singleton_append] at hdrop
  have hreads := h.leading.reads_before (spaced_blank z) (by rwa [nextWord, hdrop])
  have htext : writing frame.leading ++ ' ' :: z = ' ' :: (frame.before.toList ++ z) := by
    rw [← List.cons_append, h.before, List.append_assoc, List.singleton_append]
  rwa [htext, dropWhile_blank, hdrop] at hreads

theorem Spells.reads_trailing (h : frame.Spells) :
    Reads (frame.after.toList.dropWhile isSpace) frame.trailing [] := by
  have htrim : trimEnd frame.after.toList = frame.after.toList := by
    rcases h.ends with hnil | ⟨c, hc, hblank, -⟩
    · rw [hnil]
      rfl
    · exact trimEnd_eq_self_iff.mpr fun d hd => by rwa [Option.some.inj (hd.symm.trans hc)]
  have hreads := Cursor.reads_tokens (Cursor.ofText frame.after.toList)
  rwa [h.trailing, Cursor.ofText, htrim] at hreads

theorem Spells.firm (h : frame.Spells) {x : String} (hx : Firm x.toList) :
    Firm (frame.fill x).toList := by
  rw [fill_toList]
  apply Firm.append
  rcases h.ends with hnil | hfirm
  · rwa [hnil, List.append_nil]
  · exact hfirm.append _

/-- Nothing is cut off a text that does not end in a blank or a semicolon. -/
theorem ofText_rest_of_firm {text : String} (h : Firm text.toList) (settings : Settings) :
    (Parser.ofText settings text).cursor.rest = text.toList.dropWhile isSpace := by
  have hnil : ∀ c ∈ ([] : List Char), isBlank c = true := by simp
  have hcursor : cursorText settings text = text.toList := by
    simpa using cursorText_of_firm settings h hnil
  rw [Parser.ofText_rest, hcursor]

/-- A token in the place is read between the tokens around it. -/
theorem Spells.reads (h : frame.Spells) {x : String} {t : Token} (ht : t.Readable)
    (hscan : scan (x.toList ++ frame.after.toList) = ⟨t, x.toList, frame.after.toList⟩)
    (hbefore : ∀ u ∈ frame.leading.getLast?,
      reserved? [u.spelling, x.toList.takeWhile isWordChar] = none) (settings : Settings) :
    Reads (Parser.ofText settings (frame.fill x)).cursor.rest
      (frame.leading ++ t :: frame.trailing) [] := by
  have hfirm : Firm x.toList := by
    have hread : (scan (x.toList ++ frame.after.toList)).token.Readable := by rwa [hscan]
    have hfirm := firm_scan_text hread
    rwa [hscan] at hfirm
  have hhead : ∀ c ∈ (x.toList ++ frame.after.toList).head?, isSpace c = false :=
    isSpace_head_of_readable (by rwa [hscan])
  have hword : (x.toList ++ frame.after.toList).takeWhile isWordChar =
      x.toList.takeWhile isWordChar := takeWhile_append_of_wordBreak _ h.after.wordBreak
  have hleading := h.reads_leading hhead (by rwa [hword])
  rw [ofText_rest_of_firm (h.firm hfirm), fill_toList]
  exact hleading.append (Reads.head_of_scan hfirm.ne_nil hscan h.reads_trailing)

/-- A name that makes no phrase is read between the tokens around it. -/
theorem Spells.reads_name (h : frame.Spells) (hn : PlainName n)
    (hrivals : upperString n ∉ frame.rivals) (settings : Settings) :
    Reads (Parser.ofText settings (frame.fill n)).cursor.rest
      (frame.leading ++ .word n :: frame.trailing) [] := by
  have hword : IsWord n.toList := isWord_of_isIdentifier hn.identifier
  have hscan := scan_plain hword h.after.wordBreak (apart_after hn hrivals) hn.unreserved
  rw [String.ofList_toList] at hscan
  have htake : n.toList.takeWhile isWordChar = n.toList :=
    List.takeWhile_eq_self_iff.mpr (List.all_eq_true.mp hword.2)
  exact h.reads (spelled_of_plainName hn).readable hscan
    (by rw [htake]; exact apart_before hn hrivals) settings

end Frame

/-! ## What the grammar makes of a name -/

/-- A text about a name, and the statement that it is read as. -/
structure Slot extends Frame where
  statement : String → Statement

namespace Slot

variable {slot : Slot} {n : String}

/-- The grammar takes every name in the place and then has read the statement. -/
structure Takes (slot : Slot) : Prop where
  brings : ∀ n, isIdentifier n = true →
    Brings (Eq {}) (slot.leading ++ .word n :: slot.trailing) (Draft.Ended (slot.statement n))
  filtered : ∀ n, ¬ (slot.statement n).LacksFilter

theorem brings_of_run {d : Draft} {m : String → Move} {s : String → Statement}
    {leading trailing : List Token} (hleading : Draft.run {} leading = .ok d)
    (hquery : d.state ≠ .view .query)
    (hname : ∀ n, d.move? (.word n) [] = (Token.word n).identifier?.map m)
    (htrailing : ∀ n, ∃ d', (d.follow (some (m n)) >>= fun d => d.run trailing) = .ok d' ∧
      d'.Ended (s n))
    (n : String) (hn : isIdentifier n = true) :
    Brings (Eq {}) (leading ++ .word n :: trailing) (Draft.Ended (s n)) := by
  rintro _ rfl
  obtain ⟨d', hrun, hd'⟩ := htrailing n
  refine ⟨d', ?_, hd'⟩
  rw [Draft.run_append, hleading]
  show Draft.run d (.word n :: trailing) = _
  rw [Draft.run, if_neg hquery, Draft.accept, hname, Token.identifier?_word hn]
  exact hrun

/-- A text is read as the statement of its slot, whatever name it is about. -/
theorem parseOne_fill {settings : Settings} (hspells : slot.Spells) (htakes : slot.Takes)
    (hn : PlainName n) (hrivals : upperString n ∉ slot.rivals)
    (hlimit : WithinLimit settings (slot.fill n)) :
    parseOne settings (slot.fill n) = .ok (slot.statement n) := by
  obtain ⟨d, hrun, hd⟩ := htakes.brings n hn.identifier {} rfl
  obtain ⟨q, hsteps, rfl, hrest⟩ :=
    Parser.steps_of_run (hspells.reads_name hn hrivals settings) hrun
  exact hsteps.parseOne_eq (by simp [Cursor.atEnd, hrest]) hlimit hd (htakes.filtered n)

end Slot

/-! ## Where a table is named -/

def tableSlots : List Slot := [
  { before := "SELECT a FROM "
    leading := [.keyword .select, .word "a", .keyword .fromClause]
    after := ""
    trailing := []
    statement := fun n => { kind := .select, tables := [n], fields := ["a"] } },
  { before := "INSERT INTO "
    leading := [.keyword .insertInto]
    after := " (a) VALUES (1)"
    trailing := bracketed [.word "a"] ++ .keyword .values :: bracketed [.word "1"]
    statement := fun n =>
      { kind := .insert, tables := [n], fields := ["a"], inserts := [["1"]] } },
  { before := "UPDATE "
    leading := [.keyword .update]
    after := " SET a = 1 WHERE a = 1"
    trailing := [.keyword .set, .word "a", .keyword .equal, .word "1", .keyword .whereClause,
      .word "a", .keyword .equal, .word "1"]
    statement := fun n =>
      { kind := .update, tables := [n], fields := ["a"], updates := [("a", "1")]
        conditions := [⟨.field "a", some (.compare .eq (.literal "1"))⟩] } },
  { before := "DELETE FROM "
    leading := [.keyword .deleteFrom]
    after := " WHERE a = 1"
    trailing := [.keyword .whereClause, .word "a", .keyword .equal, .word "1"]
    statement := fun n =>
      { kind := .delete, tables := [n]
        conditions := [⟨.field "a", some (.compare .eq (.literal "1"))⟩] } },
  { before := "GRANT SELECT ON TABLE "
    leading := [.keyword .grant, .keyword .select, .keyword .onTable]
    after := " TO u"
    trailing := [.keyword .toClause, .word "u"]
    statement := fun n =>
      { kind := .grant, tables := [n], privileges := [⟨.select, []⟩], users := ["u"] } },
  { before := "REVOKE SELECT ON TABLE "
    leading := [.keyword .revoke, .keyword .select, .keyword .onTable]
    after := " FROM u"
    trailing := [.keyword .fromClause, .word "u"]
    statement := fun n =>
      { kind := .revoke, tables := [n], privileges := [⟨.select, []⟩], users := ["u"] } }]

theorem spells_of_mem_tableSlots : ∀ slot ∈ tableSlots, slot.Spells ∧ slot.rivals = [] := by
  decide +kernel

theorem tables_of_mem_tableSlots (n : String) :
    ∀ slot ∈ tableSlots, (slot.statement n).tables = [n] := by
  simp [tableSlots]

theorem takes_of_mem_tableSlots : ∀ slot ∈ tableSlots, slot.Takes := by
  have hfiltered : ∀ n : String, ∀ slot ∈ tableSlots, ¬ (slot.statement n).LacksFilter := by
    simp [tableSlots, Statement.LacksFilter]
  have hbrings : ∀ slot ∈ tableSlots, ∀ n, isIdentifier n = true → Brings (Eq {})
      (slot.leading ++ .word n :: slot.trailing) (Draft.Ended (slot.statement n)) := by
    simp only [tableSlots, List.forall_mem_cons]
    refine ⟨?_, ?_, ?_, ?_, ?_, ?_, by simp⟩ <;>
      exact Slot.brings_of_run rfl (by decide) (fun n => rfl) fun n => ⟨_, rfl, rfl, rfl⟩
  exact fun slot hslot => ⟨hbrings slot hslot, fun n => hfiltered n slot hslot⟩

def indexSlot : Slot where
  before := "CREATE INDEX i ON "
  leading := [.keyword .createIndex, .word "i", .keyword .on]
  after := " (a)"
  trailing := bracketed [.word "a"]
  statement n :=
    { kind := .createIndex, tables := [n], fields := ["a"]
      index := some ⟨"i", [⟨"a", .ascending⟩]⟩ }

theorem spells_indexSlot : indexSlot.Spells ∧ indexSlot.rivals = ["TABLE"] := by
  decide +kernel

theorem takes_indexSlot : indexSlot.Takes where
  brings := Slot.brings_of_run rfl (by decide) (fun n => rfl) fun n => ⟨_, rfl, rfl, rfl⟩
  filtered n := by simp [indexSlot, Statement.LacksFilter]

/-! ## Where a column is named -/

def filterFrame (after : String) (trailing : List Token) : Frame where
  before := "SELECT * FROM t WHERE "
  leading := [.keyword .select, .word "*", .keyword .fromClause, .word "t", .keyword .whereClause]
  after
  trailing

def filterSlot (operation : String) (trailing : List Token) (p : Predicate) : Slot where
  toFrame := filterFrame (" " ++ operation) trailing
  statement c :=
    { kind := .select, tables := ["t"], fields := ["*"], conditions := [⟨.field c, some p⟩] }

def comparisonSlots : List Slot :=
  [("= 1", Keyword.equal, Operator.eq), ("!= 1", .notEqual, .ne), ("<> 1", .notEqual, .ne),
    ("> 1", .greater, .gt), ("< 1", .less, .lt), (">= 1", .greaterEqual, .gte),
    ("<= 1", .lessEqual, .lte)].map fun (operation, k, op) =>
      filterSlot operation [.keyword k, .word "1"] (.compare op (.literal "1"))

def negatedSlots : List Slot := [
  filterSlot "NOT LIKE '1'" [.keyword .notLike, .literal "1"] (.like true "1"),
  filterSlot "NOT IN (1)" (.keyword .notInList :: bracketed [.word "1"]) (.inList true ["1"]),
  filterSlot "NOT BETWEEN 1 AND 2" [.keyword .notBetween, .word "1", .keyword .and, .word "2"]
    (.between true "1" "2")]

def plainSlots : List Slot := [
  filterSlot "LIKE '1'" [.keyword .like, .literal "1"] (.like false "1"),
  filterSlot "IN (1)" (.keyword .inList :: bracketed [.word "1"]) (.inList false ["1"]),
  filterSlot "BETWEEN 1 AND 2" [.keyword .between, .word "1", .keyword .and, .word "2"]
    (.between false "1" "2")]

theorem spells_of_mem_columnSlots :
    (∀ slot ∈ comparisonSlots ++ negatedSlots, slot.Spells ∧ slot.rivals = []) ∧
      ∀ slot ∈ plainSlots, slot.Spells ∧ slot.rivals = ["NOT"] := by
  decide +kernel

theorem left_of_mem_columnSlots (c : String) :
    ∀ slot ∈ comparisonSlots ++ negatedSlots ++ plainSlots,
      (slot.statement c).conditions.map (·.left) = [.field c] := by
  simp [comparisonSlots, negatedSlots, plainSlots, filterSlot]

theorem takes_of_mem_columnSlots :
    ∀ slot ∈ comparisonSlots ++ negatedSlots ++ plainSlots, slot.Takes := by
  have hfiltered : ∀ n : String, ∀ slot ∈ comparisonSlots ++ negatedSlots ++ plainSlots,
      ¬ (slot.statement n).LacksFilter := by
    simp [comparisonSlots, negatedSlots, plainSlots, filterSlot, Statement.LacksFilter]
  have hbrings : ∀ slot ∈ comparisonSlots ++ negatedSlots ++ plainSlots, ∀ n,
      isIdentifier n = true → Brings (Eq {})
        (slot.leading ++ .word n :: slot.trailing) (Draft.Ended (slot.statement n)) := by
    simp only [comparisonSlots, negatedSlots, plainSlots, List.map_cons, List.map_nil,
      List.cons_append, List.nil_append, List.forall_mem_cons]
    refine ⟨?_, ?_, ?_, ?_, ?_, ?_, ?_, ?_, ?_, ?_, ?_, ?_, ?_, by simp⟩ <;>
      exact Slot.brings_of_run rfl (by decide) (fun n => rfl) fun n => ⟨_, rfl, rfl, rfl⟩
  exact fun slot hslot => ⟨hbrings slot hslot, fun n => hfiltered n slot hslot⟩

/-! ## Names that make a phrase -/

structure Phrase (v w : String) (k : Keyword) : Prop where
  first : IsWord v.toList
  second : IsWord w.toList
  reserved : reserved? [v.toList, w.toList] = some k

theorem Phrase.of_upper {v w v' w' : String} {k : Keyword} (h : Phrase v' w' k)
    (hv : IsWord v.toList) (hw : IsWord w.toList) (hv' : upper v.toList = upper v'.toList)
    (hw' : upper w.toList = upper w'.toList) : Phrase v w k where
  first := hv
  second := hw
  reserved := (reserved?_congr (by simp [hv', hw'])).trans h.reserved

/-- A phrase in the place is read as one token. -/
theorem Frame.Spells.reads_phrase {frame : Frame} {v w : String} {k : Keyword}
    (h : frame.Spells) (hphrase : Phrase v w k)
    (hbefore : ∀ u ∈ frame.leading.getLast?, opensPhrase u.spelling = false)
    (settings : Settings) :
    (Parser.ofText settings (frame.fill (v ++ " " ++ w))).tokensLeft =
      frame.leading ++ .keyword k :: frame.trailing := by
  have hscan := scan_spaced hphrase.first (List.cons_ne_nil ' ' []) (by simp [isSpace])
    hphrase.second h.after.wordBreak hphrase.reserved
  have htext : (v ++ " " ++ w).toList = v.toList ++ [' '] ++ w.toList := by simp
  rw [← htext] at hscan
  have hreads := h.reads (t := .keyword k) trivial hscan
    (fun u hu => reserved?_eq_none_of_opensPhrase (hbefore u hu)) settings
  exact hreads.tokens_eq

/-- A phrase that is refused in capital letters is refused in all spellings. -/
theorem Frame.Spells.refuses {frame : Frame} {v w v' w' : String} {k : Keyword}
    (h : frame.Spells) (hphrase : Phrase v w k) (hother : Phrase v' w' k)
    (hbefore : ∀ u ∈ frame.leading.getLast?, opensPhrase u.spelling = false)
    (hrefused : (parseOne { maxInputLength := 0 } (frame.fill (v' ++ " " ++ w'))).toOption = none)
    (settings : Settings) (s : Statement) :
    parseOne settings (frame.fill (v ++ " " ++ w)) ≠ .ok s := by
  intro hs
  have hsentence := (exists_parseOne_iff.mp ⟨s, hs⟩).2
  rw [h.reads_phrase hphrase hbefore, ← h.reads_phrase hother hbefore { maxInputLength := 0 }]
    at hsentence
  obtain ⟨s', hs'⟩ := exists_parseOne_iff.mpr ⟨rfl, hsentence⟩
  simp [hs', Except.toOption] at hrefused

theorem indexSlot_refuses {n : String} (hn : PlainName n) (htable : upperString n = "TABLE")
    (settings : Settings) (s : Statement) : parseOne settings (indexSlot.fill n) ≠ .ok s := by
  let frame : Frame := ⟨"CREATE INDEX i ", [.keyword .createIndex, .word "i"], " (a)",
    bracketed [.word "a"]⟩
  have hspells : frame.Spells := by decide +kernel
  have hother : Phrase "ON" "TABLE" .onTable := ⟨by decide, by decide, by decide⟩
  have hphrase : Phrase "ON" n .onTable :=
    hother.of_upper hother.first (isWord_of_isIdentifier hn.identifier) rfl
      (upperString_eq_iff.mp htable)
  have htext : indexSlot.fill n = frame.fill ("ON" ++ " " ++ n) := by
    simp [← String.toList_inj, Frame.fill_toList, indexSlot, frame]
  rw [htext]
  exact hspells.refuses hphrase hother (by decide +kernel) (by decide +kernel) settings s

/-- A filter the column of which makes a phrase with the operator. -/
theorem filterSlot_refuses {operation operator : String} (after : String) {k : Keyword}
    {trailing : List Token} {p : Predicate} {c : String} (hc : PlainName c)
    (hnot : upperString c = "NOT") (hoperation : operation = operator ++ after)
    (hspells : (filterFrame after trailing.tail).Spells) (hother : Phrase "NOT" operator k)
    (hrefused : (parseOne { maxInputLength := 0 }
      ((filterFrame after trailing.tail).fill ("NOT" ++ " " ++ operator))).toOption = none)
    (settings : Settings) (s : Statement) :
    parseOne settings ((filterSlot operation trailing p).fill c) ≠ .ok s := by
  have hphrase : Phrase c operator k :=
    hother.of_upper (isWord_of_isIdentifier hc.identifier) hother.second
      (upperString_eq_iff.mp hnot) rfl
  have htext : (filterSlot operation trailing p).fill c =
      (filterFrame after trailing.tail).fill (c ++ " " ++ operator) := by
    simp [← String.toList_inj, Frame.fill_toList, filterSlot, filterFrame, hoperation]
  have hwhere : ∀ u ∈ (filterFrame after trailing.tail).leading.getLast?,
      opensPhrase u.spelling = false := by
    show ∀ u ∈ some (Token.keyword .whereClause), opensPhrase u.spelling = false
    decide
  rw [htext]
  exact hspells.refuses hphrase hother hwhere hrefused settings s

theorem plainSlots_refuse {c : String} (hc : PlainName c) (hnot : upperString c = "NOT")
    (settings : Settings) :
    ∀ slot ∈ plainSlots, ∀ s, parseOne settings (slot.fill c) ≠ .ok s := by
  have hlike : Phrase "NOT" "LIKE" .notLike := ⟨by decide, by decide, by decide⟩
  have hin : Phrase "NOT" "IN" .notInList := ⟨by decide, by decide, by decide⟩
  have hbetween : Phrase "NOT" "BETWEEN" .notBetween := ⟨by decide, by decide, by decide⟩
  simp only [plainSlots, List.forall_mem_cons]
  refine ⟨?_, ?_, ?_, by simp⟩
  · exact filterSlot_refuses " '1'" hc hnot (by decide) (by decide +kernel) hlike
      (by decide +kernel) settings
  · exact filterSlot_refuses " (1)" hc hnot (by decide) (by decide +kernel) hin
      (by decide +kernel) settings
  · exact filterSlot_refuses " 1 AND 2" hc hnot (by decide) (by decide +kernel) hbetween
      (by decide +kernel) settings

/-! ## Names of what is defined -/

theorem plainName_of_token {n : String} {after : List Char} {name : Definition.Name}
    (hn : isIdentifier n = true) (hafter : WordBreak after)
    (h : (scan (n.toList ++ after)).token = name.token) : PlainName n := by
  have hname : (scan (n.toList ++ after)).token.identifier? = some name.text := by
    rw [h]
    simp [Definition.Name.token, identifier?, name.identifier]
  obtain ⟨hplain, -, hword⟩ := scan_of_identifier hname
  rw [takeWhile_run (isWord_of_isIdentifier hn).2 hafter, String.toList_inj] at hword
  rwa [hword]

theorem exists_reads (cs : List Char) : ∃ us, Reads (cs.dropWhile isSpace) us [] :=
  ⟨_, Cursor.reads_tokens (Cursor.skipSpace ⟨cs, 0, cs⟩)⟩

/-- The tokens of an accepted definition are those of its tree. -/
theorem exists_definition_of_reads {settings : Settings} {text : String} {ts : List Token}
    (hs : ∃ s, parseOne settings text = .ok s)
    (hreads : Reads (Parser.ofText settings text).cursor.rest (.keyword .createTable :: ts) []) :
    ∃ D : Definition, D.tokens = .keyword .createTable :: ts := by
  have hsentence := (exists_parseOne_iff.mp hs).2
  rw [Parser.tokensLeft, hreads.tokens_eq] at hsentence
  have hword : Sentence.opening .createTable = some .createTable := rfl
  exact Sentence.exists_definition_of_mem (Sentence.mem_ofKind hword hsentence)

theorem head_of_identifier {n : String} (hn : isIdentifier n = true) (after : List Char) :
    ∀ c ∈ (n.toList ++ after).head?, isWordChar c = true ∧ isSpace c = false := by
  obtain ⟨a, as, hcs, ha⟩ := head_of_isWord (isWord_of_isIdentifier hn)
  rw [hcs]
  rintro c ⟨⟩
  refine ⟨ha, ?_⟩
  cases hspace : isSpace a with
  | false => rfl
  | true => simp [isWordChar_of_isSpace hspace] at ha

/-- The name of a table that is defined is not reserved. -/
theorem plainName_of_table {settings : Settings} {n : String} (hn : isIdentifier n = true)
    (hs : ∃ s, parseOne settings ("CREATE TABLE " ++ n ++ " (a INT)") = .ok s) : PlainName n := by
  let frame : Frame := ⟨"CREATE TABLE ", [.keyword .createTable], " (a INT)",
    bracketed [.word "a", .word "INT"]⟩
  have hspells : frame.Spells := by decide +kernel
  have hfirm : Firm (frame.fill n).toList :=
    hspells.firm (firm_of_isWord (isWord_of_isIdentifier hn))
  obtain ⟨us, hus⟩ := exists_reads (scan (n.toList ++ frame.after.toList)).rest
  have hname : Reads (n.toList ++ frame.after.toList)
      ((scan (n.toList ++ frame.after.toList)).token :: us) [] :=
    .head (by simp [frame]) hus
  have hreads := (hspells.reads_leading (fun c hc => (head_of_identifier hn _ c hc).2)
    fun u hu => by
      obtain rfl := Option.some.inj hu
      exact shuts_keyword rfl _).append hname
  rw [← Frame.fill_toList, ← Frame.ofText_rest_of_firm hfirm settings] at hreads
  obtain ⟨D, hD⟩ := exists_definition_of_reads hs hreads
  have htoken : D.table.token = (scan (n.toList ++ frame.after.toList)).token :=
    (List.cons.inj (List.cons.inj hD).2).1
  exact plainName_of_token hn hspells.after.wordBreak htoken.symm

/-- The name of a column that is defined is not reserved. -/
theorem plainName_of_column {settings : Settings} {c : String} (hc : isIdentifier c = true)
    (hs : ∃ s, parseOne settings ("CREATE TABLE t (" ++ c ++ " INT)") = .ok s) : PlainName c := by
  let frame : Frame := ⟨"CREATE TABLE t ", [.keyword .createTable, .word "t"], " INT)",
    [.word "INT", .keyword .rightParen]⟩
  have hspells : frame.Spells := by decide +kernel
  have hfirm : Firm (frame.fill ("(" ++ c)).toList :=
    hspells.firm (by simpa using (firm_of_isWord (isWord_of_isIdentifier hc)).append ['('])
  have htext : "CREATE TABLE t (" ++ c ++ " INT)" = frame.fill ("(" ++ c) := by
    simp [← String.toList_inj, Frame.fill_toList, frame]
  have hhead := head_of_identifier hc frame.after.toList
  -- no symbol goes on with a letter
  have hparen : scan (['('] ++ (c.toList ++ frame.after.toList)) =
      ⟨.keyword .leftParen, ['('], c.toList ++ frame.after.toList⟩ := by
    have hsymbol : IsSymbol ['('] := by decide
    refine scan_symbol hsymbol (by decide) ?_
    intro d hd
    apply Option.eq_none_iff_forall_ne_some.mpr
    intro k hk
    have hword := ((isSymbol_of_reserved? hk rfl).2.2 d (by simp)).1
    rw [(hhead d hd).1] at hword
    cases hword
  obtain ⟨us, hus⟩ := exists_reads (scan (c.toList ++ frame.after.toList)).rest
  have hname : Reads ((c.toList ++ frame.after.toList).dropWhile isSpace)
      ((scan (c.toList ++ frame.after.toList)).token :: us) [] := by
    have hdrop : ([] ++ (c.toList ++ frame.after.toList)).dropWhile isSpace =
        c.toList ++ frame.after.toList :=
      dropWhile_append_gap (by simp) fun d hd => (hhead d hd).2
    rw [List.nil_append] at hdrop
    rw [hdrop]
    exact .head (by simp [frame]) hus
  have hopen := Reads.head_of_scan (List.cons_ne_nil '(' []) hparen hname
  have hreads := (hspells.reads_leading (by simp [isSpace]) fun u hu => by
    obtain rfl := Option.some.inj hu
    exact reserved?_eq_none_of_opensPhrase (by decide)).append hopen
  rw [htext] at hs
  have hfill : (frame.fill ("(" ++ c)).toList =
    frame.before.toList ++ (['('] ++ (c.toList ++ frame.after.toList)) := by
    simp [Frame.fill_toList]
  rw [← hfill, ← Frame.ofText_rest_of_firm hfirm settings] at hreads
  obtain ⟨D, hD⟩ := exists_definition_of_reads hs hreads
  obtain ⟨f, others, helements⟩ := D.exists_field
  have htoken : f.name.token = (scan (c.toList ++ frame.after.toList)).token := by
    rw [Definition.tokens, helements] at hD
    exact (List.cons.inj (List.cons.inj (List.cons.inj (List.cons.inj hD).2).2).2).1
  exact plainName_of_token hc hspells.after.wordBreak htoken.symm

/-! ## What is defined can be used -/

/-- A name that the definition of a table takes can stand wherever the table is
used, as far as the length of the text is allowed; only an index is refused
behind `ON` where the name is `TABLE`.  A name that is taken for a column can
stand on the left of every operator; only those that are not negated are refused
where the name is `NOT`. -/
theorem defined_names_usable (settings : Settings) :
    (∀ n, isIdentifier n = true →
      (∃ s, parseOne settings ("CREATE TABLE " ++ n ++ " (a INT)") = .ok s) →
        (∀ slot ∈ tableSlots, WithinLimit settings (slot.fill n) →
          ∃ s, parseOne settings (slot.fill n) = .ok s ∧ s.tables = [n]) ∧
        if upperString n = "TABLE" then ∀ s, parseOne settings (indexSlot.fill n) ≠ .ok s
        else WithinLimit settings (indexSlot.fill n) →
          ∃ s, parseOne settings (indexSlot.fill n) = .ok s ∧ s.tables = [n]) ∧
    ∀ c, isIdentifier c = true →
      (∃ s, parseOne settings ("CREATE TABLE t (" ++ c ++ " INT)") = .ok s) →
        (∀ slot ∈ comparisonSlots ++ negatedSlots, WithinLimit settings (slot.fill c) →
          ∃ s, parseOne settings (slot.fill c) = .ok s ∧
            s.conditions.map (·.left) = [.field c]) ∧
        ∀ slot ∈ plainSlots,
          if upperString c = "NOT" then ∀ s, parseOne settings (slot.fill c) ≠ .ok s
          else WithinLimit settings (slot.fill c) →
            ∃ s, parseOne settings (slot.fill c) = .ok s ∧
              s.conditions.map (·.left) = [.field c] := by
  constructor
  · intro n hn hs
    have hplain : PlainName n := plainName_of_table hn hs
    constructor
    · intro slot hslot hlimit
      obtain ⟨hspells, hrivals⟩ := spells_of_mem_tableSlots slot hslot
      refine ⟨slot.statement n, slot.parseOne_fill hspells (takes_of_mem_tableSlots slot hslot)
        hplain (by simp [hrivals]) hlimit, tables_of_mem_tableSlots n slot hslot⟩
    · split
      next htable => exact indexSlot_refuses hplain htable settings
      next htable =>
        obtain ⟨hspells, hrivals⟩ := spells_indexSlot
        intro hlimit
        exact ⟨indexSlot.statement n, indexSlot.parseOne_fill hspells takes_indexSlot hplain
          (by simpa [hrivals] using htable) hlimit, rfl⟩
  · intro c hc hs
    have hplain : PlainName c := plainName_of_column hc hs
    constructor
    · intro slot hslot hlimit
      obtain ⟨hspells, hrivals⟩ := spells_of_mem_columnSlots.1 slot hslot
      have hmem : slot ∈ comparisonSlots ++ negatedSlots ++ plainSlots :=
        List.mem_append_left _ hslot
      exact ⟨slot.statement c, slot.parseOne_fill hspells (takes_of_mem_columnSlots slot hmem)
        hplain (by simp [hrivals]) hlimit, left_of_mem_columnSlots c slot hmem⟩
    · intro slot hslot
      split
      next hnot => exact plainSlots_refuse hplain hnot settings slot hslot
      next hnot =>
        obtain ⟨hspells, hrivals⟩ := spells_of_mem_columnSlots.2 slot hslot
        have hmem : slot ∈ comparisonSlots ++ negatedSlots ++ plainSlots :=
          List.mem_append_right _ hslot
        intro hlimit
        exact ⟨slot.statement c, slot.parseOne_fill hspells (takes_of_mem_columnSlots slot hmem)
          hplain (by simpa [hrivals] using hnot) hlimit, left_of_mem_columnSlots c slot hmem⟩

/-- A name that is the end of a phrase, but not of one with `ON`. -/
theorem defined_names_usable_into :
    ∃ s, parseOne {} "CREATE INDEX i ON into (a)" = .ok s ∧ s.tables = ["into"] := by
  have hs : (parseOne {} "CREATE TABLE into (a INT)").isOk = true := by decide +kernel
  have hdefined : ∃ s, parseOne {} "CREATE TABLE into (a INT)" = .ok s := by
    cases hparse : parseOne {} "CREATE TABLE into (a INT)" with
    | ok s => exact ⟨s, rfl⟩
    | error e =>
        rw [hparse] at hs
        cases hs
  have hindex := ((defined_names_usable {}).1 "into" (by decide) hdefined).2
  have htext : indexSlot.fill "into" = "CREATE INDEX i ON into (a)" := by decide
  rw [htext, if_neg (by decide)] at hindex
  exact hindex (.inr (by decide))

/-- A table and a column that are defined and then refused, and a table whose
definition is allowed by a limit that a text about it exceeds. -/
theorem defined_names_refused :
    (parseOne {} "CREATE TABLE table (a INT)").isOk = true ∧
      (parseOne {} "CREATE INDEX i ON table (a)").isOk = false ∧
      (parseOne {} "CREATE TABLE t (not INT)").isOk = true ∧
      (parseOne {} "SELECT * FROM t WHERE not LIKE '1'").isOk = false ∧
      (parseOne { maxInputLength := 25 } "CREATE TABLE t (a INT)").isOk = true ∧
      (parseOne { maxInputLength := 25 } "UPDATE t SET a = 1 WHERE a = 1").isOk = false := by
  decide +kernel

end SqlReader
