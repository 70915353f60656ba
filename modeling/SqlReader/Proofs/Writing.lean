import SqlReader.Proofs.Writing.Table

/-!
# Every expressible statement is written by a text

The tokens of a statement are written down with blanks between them; a view gets
its query behind its tokens.  Where a final semicolon is ignored, one is put
behind the text, so that a semicolon at the end of a query stays.
-/

namespace SqlReader

open Text

/-! ## Texts that are read to their end -/

/-- Every text without blanks at its end is what is read of some text. -/
theorem exists_cursorText (settings : Settings) {cs : List Char} (h : trimEnd cs = cs) :
    ∃ text, cursorText settings text = cs := by
  cases hmark : settings.trailingSemicolon with
  | false =>
      refine ⟨String.ofList cs, ?_⟩
      simp [cursorText, statementText, hmark, h]
  | true =>
      refine ⟨String.ofList (cs ++ [';']), ?_⟩
      have hsemicolon : trimEnd (cs ++ [';']) = cs ++ [';'] :=
        trimEnd_eq_self_iff.mpr (by simp [isBlank])
      simp [cursorText, statementText, hmark, hsemicolon, dropFinal, h]

/-! ## Text behind tokens -/

section Reads

variable {z : List Char}

theorem spaced_writing_append (ts : List Token) (hz : Spaced z) : Spaced (writing ts ++ z) := by
  cases ts with
  | nil => exact hz
  | cons t ts => exact spaced_blank _

theorem dropWhile_writing_append {t : Token} (h : t.Spelled) (ts : List Token) (z : List Char) :
    (writing (t :: ts) ++ z).dropWhile isSpace = t.spelling ++ (writing ts ++ z) := by
  have hhead : ∀ c ∈ (t.spelling ++ (writing ts ++ z)).head?, isSpace c = false := by
    intro c hc
    rw [List.head?_append_of_ne_nil _ h.spelling_ne_nil] at hc
    exact h.head_spelling c hc
  have hblank : ∀ c ∈ [' '], isSpace c = true := by simp [isSpace]
  simpa using dropWhile_append_gap hblank hhead

/-- Tokens are read before every text that makes no phrase with the last of them. -/
theorem Sayable.reads_before {ts : List Token} (h : Sayable ts) (hz : Spaced z)
    (hlast : ∀ t ∈ ts.getLast?, reserved? [t.spelling, nextWord z] = none) :
    Reads ((writing ts ++ z).dropWhile isSpace) ts (z.dropWhile isSpace) := by
  induction ts with
  | nil => exact .refl _
  | cons t ts ih =>
      have ht : t.Spelled := h.spelled t (by simp)
      have hphrase : reserved? [t.spelling, nextWord (writing ts ++ z)] = none := by
        cases ts with
        | nil => exact hlast t rfl
        | cons u us =>
            have hu : u.Spelled := h.spelled u (by simp)
            rw [nextWord, dropWhile_writing_append hu,
              takeWhile_append_of_wordBreak _ (spaced_writing_append us hz).wordBreak]
            exact h.apart.rel
      have htail : ∀ u ∈ ts.getLast?, reserved? [u.spelling, nextWord z] = none := by
        intro u hu
        apply hlast u
        rw [List.getLast?_cons, Option.mem_def.mp hu]
        rfl
      have hscan := ht.scan_append (spaced_writing_append ts hz) hphrase
      rw [dropWhile_writing_append ht]
      exact Reads.head_of_scan ht.spelling_ne_nil hscan (ih h.tail htail)

/-- Tokens that anything may follow are read before every other text. -/
theorem Shut.reads {ts : List Token} (h : Shut ts) (hz : Spaced z) :
    Reads ((writing ts ++ z).dropWhile isSpace) ts (z.dropWhile isSpace) :=
  h.toSayable.reads_before hz fun t ht => h.last t ht _

end Reads

/-! ## Parsing what is written -/

theorem Statement.Expressible.not_lacksFilter {s : Statement} (h : s.Expressible) :
    ¬ s.LacksFilter := by
  rintro ⟨hkind, hconditions⟩
  cases h with
  | update htable hupdates hkeys hentries hne hfilter => exact hne hconditions
  | delete htable hne hfilter => exact hne hconditions
  | privileges hgrant => rcases hgrant with rfl | rfl <;> simp at hkind
  | _ => simp at hkind

namespace Parser

variable {settings : Settings} {text : String} {ts : List Token} {p q r : Parser} {s : Statement}

theorem Steps.concat (h : Steps p ts q) (hend : q.cursor.atEnd = false)
    (hstep : q.step = .ok () r) :
    Steps p (ts ++ [q.cursor.peek]) r := by
  induction h with
  | refl p => exact .head hend hstep (.refl r)
  | head hlive hfirst _ ih => exact .head hlive hfirst (ih hend hstep)

/-- A run to the end of the text gives the statement that it has read. -/
theorem Steps.parseOne_eq (h : Steps (.ofText settings text) ts q) (hend : q.cursor.atEnd = true)
    (hlimit : WithinLimit settings text) (hq : q.draft.Ended s) (hs : ¬ s.LacksFilter) :
    parseOne settings text = .ok s := by
  have hlong : (ofText settings text).tooLong = false := tooLong_eq_false_iff.mpr hlimit
  obtain ⟨hpictured, hstores⟩ := h.sound (sound_ofText settings text)
  have hnonempty : ∀ name, isIdentifier name = true → name ≠ "" := by
    rintro name hname rfl
    cases hname
  have hfault : q.draft.statement.fault = none := by
    rw [hpictured.fault_eq hstores hnonempty hq.accepting, hq.statement_eq, if_neg hs]
  exact parse_eq_ok_iff.mpr ⟨hlong, ts, q, h, hend,
    finish_eq_ok_iff.mpr ⟨hq.accepting, hfault, hq.statement_eq⟩⟩

theorem ofText_rest (settings : Settings) (text : String) :
    (ofText settings text).cursor.rest = (cursorText settings text).dropWhile isSpace := rfl

end Parser

namespace Statement

open SqlReader.Parser

variable {settings : Settings} {s : Statement}

theorem WrittenAs.exists_text {ts : List Token} (h : s.WrittenAs ts)
    (hlimit : settings.maxInputLength = 0) (hs : ¬ s.LacksFilter) :
    ∃ text, parseOne settings text = .ok s := by
  obtain ⟨d, hrun, hd⟩ := h.brings {} ⟨rfl, rfl⟩
  have hne : ts ≠ [] := by
    rintro rfl
    obtain rfl := Except.ok.inj hrun
    cases hd.accepting
  have hfirm := h.sayable.firm hne
  have htext : cursorText settings (String.ofList (writing ts)) = writing ts := by
    have hnil : ∀ c ∈ ([] : List Char), isBlank c = true := by simp
    simpa using cursorText_of_firm settings hfirm hnil
  have hreads : Reads (ofText settings (String.ofList (writing ts))).cursor.rest ts [] := by
    rw [ofText_rest, htext]
    exact h.sayable.reads
  obtain ⟨q, hsteps, rfl, hrest⟩ := steps_of_run hreads hrun
  exact ⟨_, hsteps.parseOne_eq (by simp [Cursor.atEnd, hrest]) (.inl hlimit) hd hs⟩

/-- The query of a view is taken as it stands. -/
theorem parseOne_createView {text view : String} {query : List Char} {fields : List String}
    (hlimit : settings.maxInputLength = 0) (hview : PlainName view)
    (hfields : ∀ name ∈ fields, PlainName name)
    (hselect : (scan query).token = .keyword .select)
    (hreads : Reads (ofText settings text).cursor.rest (viewTokens view fields) query) :
    parseOne settings text =
      .ok { kind := .createView, tables := [view], fields,
            viewSelect := some (String.ofList query) } := by
  have hne : query ≠ [] := by
    rintro rfl
    cases hselect
  obtain ⟨d, hrun, hd⟩ := Draft.brings_view hview hfields {} ⟨rfl, rfl⟩
  obtain ⟨q, hsteps, rfl, hrest⟩ := steps_of_run hreads hrun
  have hlive : q.cursor.atEnd = false := by simpa [Cursor.atEnd, hrest] using hne
  have htoken : q.cursor.peek = .keyword .select := by
    rw [Cursor.peek, Cursor.lexeme, hrest, hselect]
  have haccept : q.draft.accept q.cursor.peek q.cursor.rest = .ok { q.draft with
      statement :=
        { kind := .createView, tables := [view], fields,
          viewSelect := some (String.ofList query) }
      state := .done } := by
    rw [Draft.accept_query hd.state_eq, htoken, hrest, hd.statement_eq]
    rfl
  have hstep := step_eq_ok_iff.mpr ⟨_, haccept, rfl⟩
  have hend : q.advance.atEnd = true := by
    simp [advance, hd.state_eq, Cursor.popRest, Cursor.atEnd]
  exact (hsteps.concat hlive hstep).parseOne_eq hend (.inl hlimit) ⟨rfl, rfl⟩
    (by simp [LacksFilter])

theorem exists_text_createView {view query : String} {fields : List String}
    (hlimit : settings.maxInputLength = 0) (hview : PlainName view)
    (hfields : ∀ name ∈ fields, PlainName name)
    (hselect : (scan query.toList).token = .keyword .select)
    (htrimmed : trimEnd query.toList = query.toList) :
    ∃ text, parseOne settings text =
      .ok { kind := .createView, tables := [view], fields, viewSelect := some query } := by
  have hne : query.toList ≠ [] := by
    intro hnil
    rw [hnil] at hselect
    cases hselect
  have hread : (scan query.toList).token.Readable := by
    rw [hselect]
    trivial
  have hblank : ∀ c ∈ [' '], isSpace c = true := by simp [isSpace]
  obtain ⟨text, htext⟩ := exists_cursorText settings
    (trimEnd_append_of_trimmed (writing (viewTokens view fields) ++ [' ']) hne htrimmed)
  rw [List.append_assoc] at htext
  have hreads : Reads (ofText settings text).cursor.rest (viewTokens view fields)
      query.toList := by
    have hbehind := (shut_view hview hfields).reads (spaced_blank query.toList)
    have hquery : (' ' :: query.toList).dropWhile isSpace = query.toList :=
      dropWhile_append_gap hblank (isSpace_head_of_readable hread)
    rw [hquery] at hbehind
    rwa [ofText_rest, htext]
  have hparse := parseOne_createView hlimit hview hfields hselect hreads
  rw [String.ofList_toList] at hparse
  exact ⟨text, hparse⟩

/-- An expressible statement is read off some text. -/
theorem Expressible.exists_text (h : s.Expressible) (hlimit : settings.maxInputLength = 0) :
    ∃ text, parseOne settings text = .ok s := by
  have hfilter := h.not_lacksFilter
  cases h with
  | select htables hfields hnames hchain horder =>
      exact (writtenAs_select htables hfields hnames hchain horder).exists_text hlimit hfilter
  | insert htable hfields hinserts hrows hvalues =>
      exact (writtenAs_insert htable hfields hinserts hrows hvalues).exists_text hlimit hfilter
  | update htable hupdates hkeys hentries hconditions hchain =>
      exact (writtenAs_update htable hupdates hkeys hentries hconditions hchain).exists_text hlimit
        hfilter
  | delete htable hconditions hchain =>
      exact (writtenAs_delete htable hconditions hchain).exists_text hlimit hfilter
  | createTable htable hcolumns hcolumn =>
      obtain ⟨ts, hts⟩ := exists_writtenAs_createTable htable hcolumns hcolumn
      exact hts.exists_text hlimit hfilter
  | createView hview hfields hselect htrimmed =>
      exact exists_text_createView hlimit hview hfields hselect htrimmed
  | createIndex htable hapart hname hcolumns hnames =>
      have hwritten : WrittenAs _ _ := ⟨sayable_index htable hapart hname hnames,
        (Draft.brings_index htable hname hcolumns hnames).ended rfl⟩
      exact hwritten.exists_text hlimit hfilter
  | createUser huser hpassword =>
      have hwritten : WrittenAs _ _ :=
        ⟨sayable_user huser hpassword, (Draft.brings_user huser).ended rfl⟩
      exact hwritten.exists_text hlimit hfilter
  | privileges hkind hprivileges hcolumns htables husers =>
      have hwritten : WrittenAs _ _ := ⟨sayable_privileges hcolumns htables.2 husers.2,
        (Draft.brings_privileges hkind hprivileges hcolumns htables husers).ended rfl⟩
      exact hwritten.exists_text hlimit hfilter

end Statement

end SqlReader
