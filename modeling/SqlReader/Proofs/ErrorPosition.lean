import SqlReader.Proofs.History
import SqlReader.Proofs.Position
import SqlReader.Proofs.Shape

/-!
# The position of a syntax error

A syntax error points at the first token that no statement can have there: the
text before it can be completed, except in a row that is already too long, and no
statement begins with the tokens up to it.
-/

namespace SqlReader

open Sentence Text
open scoped Computability

namespace Parser

variable {p q r : Parser} {settings : Settings} {text : String} {ts us : List Token}

/-! ## Runs that have not ended -/

/-- The text has not been taken to its end by the query of a view. -/
def Live (q : Parser) : Prop := q.cursor.atEnd = true → q.draft.state ≠ .done

/-- Induction along a run in which every step takes one token. -/
theorem Steps.live_induction {motive : Parser → List Token → Prop} (h : Steps p ts q)
    (hlive : q.Live) (refl : motive q [])
    (head : ∀ (p r : Parser) (ts : List Token), p.cursor.atEnd = false →
      p.draft.state ≠ .view .query → p.step = .ok () r → motive r ts →
      motive p (p.cursor.peek :: ts)) : motive p ts := by
  induction h with
  | refl => exact refl
  | @head p r q ts hend hstep hrest ih =>
      apply head p r ts hend _ hstep (ih hlive refl)
      intro hquery
      obtain ⟨hdone, hend'⟩ := step_query hquery hstep
      cases hrest with
      | refl => exact hlive hend' hdone
      | head hend'' => simp [hend'] at hend''

theorem step_cursor_of_ne_query (hquery : p.draft.state ≠ .view .query)
    (hstep : p.step = .ok () q) :
    q.cursor = p.cursor.pop := by
  rw [step_cursor hstep, advance, if_neg hquery]

theorem Steps.reads (h : Steps p ts q) (hlive : q.Live) : Reads p.cursor.rest ts q.cursor.rest := by
  refine h.live_induction (motive := fun p ts => Reads p.cursor.rest ts q.cursor.rest) hlive
    (.refl _) ?_
  intro p r ts hend hquery hstep ih
  rw [step_cursor_of_ne_query hquery hstep] at ih
  exact Reads.head (Cursor.rest_ne_nil hend) ih

theorem Steps.tokens (h : Steps p ts q) (hlive : q.Live) :
    ∃ taken, taken.map (·.2) = ts ∧ p.cursor.tokens = taken ++ q.cursor.tokens := by
  refine h.live_induction (motive := fun p ts =>
    ∃ taken, taken.map (·.2) = ts ∧ p.cursor.tokens = taken ++ q.cursor.tokens) hlive
    ⟨[], rfl, rfl⟩ ?_
  rintro p r ts hend hquery hstep ⟨taken, rfl, htokens⟩
  rw [step_cursor_of_ne_query hquery hstep] at htokens
  refine ⟨(p.cursor.offset, p.cursor.peek) :: taken, rfl, ?_⟩
  rw [Cursor.tokens.eq_def, dif_neg (by simp [hend]), htokens]
  rfl

/-- The token at which a run stands is the one after those that it has taken. -/
theorem Steps.exists_token (h : Steps p ts q) (hlive : q.Live) (hend : q.cursor.atEnd = false) :
    ∃ taken, taken.map (·.2) = ts ∧
      p.cursor.tokens = taken ++ (q.cursor.offset, q.cursor.peek) :: q.cursor.pop.tokens := by
  obtain ⟨taken, htaken, htokens⟩ := h.tokens hlive
  refine ⟨taken, htaken, ?_⟩
  rw [htokens, Cursor.tokens.eq_def q.cursor, dif_neg (by simp [hend])]

/-- A draft is completed by what completes the statement after its tokens. -/
theorem Steps.append_mem_residual (h : Steps p ts q) (hlive : q.Live) (hp : p.Sound) :
    ts ++ us ∈ p.draft.residual ↔ us ∈ q.draft.residual := by
  refine h.live_induction (motive := fun p ts =>
    p.Sound → (ts ++ us ∈ p.draft.residual ↔ us ∈ q.draft.residual)) hlive (fun _ => Iff.rfl) ?_ hp
  intro p r ts hend hquery hstep ih hp
  rw [← ih (hp.step hstep), List.cons_append,
    ← Draft.accept_goes p.cursor.rest hp.1 hp.names hquery]
  obtain ⟨draft, hdraft, rfl⟩ := step_eq_ok_iff.mp hstep
  rw [hdraft]
  simp [Goes]

theorem Steps.sound (h : Steps p ts q) (hp : p.Sound) : q.Sound :=
  h.preserves (fun _ _ hp _ hstep => hp.step hstep) hp

theorem Steps.placed (h : Steps p ts q) (hp : p.cursor.Placed) : q.cursor.Placed := by
  refine h.preserves (P := fun p => p.cursor.Placed) ?_ hp
  intro a b ha _ hstep
  rw [step_cursor hstep, advance]
  split
  · exact a.cursor.placed_popRest
  · exact ha.pop

theorem Steps.input (h : Steps p ts q) : q.cursor.input = p.cursor.input := by
  refine h.preserves (P := fun q => q.cursor.input = p.cursor.input) ?_ rfl
  intro a b ha _ hstep
  rw [step_cursor hstep, advance, ← ha]
  split <;> rfl

/-! ## Where a run is stuck -/

/-- The next token is refused, or the text ends too early. -/
structure Stuck (q : Parser) : Prop where
  early : q.cursor.atEnd = true → q.draft.state.isAccepting = false
  refused : q.cursor.atEnd = false →
    ∃ refusal, q.draft.accept q.cursor.peek q.cursor.rest = .error refusal

theorem Stuck.live (h : q.Stuck) : q.Live := by
  intro hend hdone
  have haccepting := h.early hend
  rw [hdone] at haccepting
  cases haccepting

theorem explain_eq_syntactic {refusal : Refusal} {offset : Nat} {reason : Reason}
    (h : q.explain refusal = .syntactic offset reason) : q.cursor.offset = offset := by
  cases refusal with
  | unexpected => exact (Error.syntactic.inj h).1
  | breaks reason' => cases h
  | internal message => cases h

theorem finish_eq_syntactic {offset : Nat} {reason : Reason}
    (h : q.finish = .error (.syntactic offset reason)) :
    q.cursor.offset = offset ∧ q.draft.state.isAccepting = false := by
  unfold finish Statement.validate at h
  cases haccepting : q.draft.state.isAccepting with
  | true =>
      rw [haccepting] at h
      cases hfault : q.draft.statement.fault <;> simp [hfault] at h
  | false =>
      rw [haccepting] at h
      exact ⟨(Error.syntactic.inj (Except.error.inj h)).1, rfl⟩

/-- A syntax error is reported where the run is stuck. -/
theorem exists_stuck {offset : Nat} {reason : Reason}
    (h : p.parse.outcome = .error (.syntactic offset reason)) :
    ∃ ts q, Steps p ts q ∧ q.Stuck ∧ q.cursor.offset = offset := by
  cases hlimit : p.tooLong with
  | true =>
      rw [(parse_tooLong hlimit).1] at h
      cases h
  | false =>
      obtain ⟨ts, q, hsteps, hlast⟩ := run_steps p
      refine ⟨ts, q, hsteps, ?_⟩
      rcases parse_cases hlimit with
        ⟨e, hfailure, houtcome, -⟩ | ⟨hnone, ⟨e, hfinish, houtcome, -⟩ | ⟨s, -, houtcome, -⟩⟩
      · obtain rfl := Except.error.inj (houtcome.symm.trans h)
        rw [hfailure] at hlast
        obtain ⟨hend, hstep⟩ := hlast
        obtain ⟨refusal, hrefusal, hexplain, -⟩ := step_eq_error hstep
        refine ⟨⟨?_, fun _ => ⟨refusal, hrefusal⟩⟩, explain_eq_syntactic hexplain.symm⟩
        intro hend'
        rw [hend'] at hend
        cases hend
      · obtain rfl := Except.error.inj (houtcome.symm.trans h)
        rw [hnone] at hlast
        obtain ⟨rfl, hatEnd⟩ := hlast
        obtain ⟨hoffset, haccepting⟩ := finish_eq_syntactic hfinish
        refine ⟨⟨fun _ => haccepting, ?_⟩, hoffset⟩
        intro hend
        rw [hatEnd] at hend
        cases hend
      · rw [houtcome] at h
        cases h

/-- Nothing that begins with a refused token completes the draft. -/
theorem Stuck.cons_notMem_residual (h : q.Stuck) (hq : q.Sound) (hend : q.cursor.atEnd = false) :
    q.cursor.peek :: us ∉ q.draft.residual := by
  obtain ⟨refusal, hrefusal⟩ := h.refused hend
  by_cases hquery : q.draft.state = .view .query
  · rw [← Draft.accept_query_iff q.cursor.rest hquery, hrefusal]
    simp
  · rw [← Draft.accept_goes q.cursor.rest hq.1 hq.names hquery, hrefusal]
    simp

/-! ## Completing the text -/

theorem Steps.exists_completion (h : Steps (.ofText settings text) ts q)
    (hroom : ¬ q.draft.Overfull) :
    ∃ us ∈ q.draft.residual, Sayable us ∧
      ((∀ u ∈ us.head?, closesPhrase u.firstWord = false) ∨ EndsInSymbol ts) := by
  obtain ⟨hpictured, hstores⟩ :=
    h.stores (V := fun value => Quotable value.toList) Quotable.nil scan_supplies
  have hplain : ∀ s ∈ q.draft.context.names, PlainName s := by
    intro s hs
    obtain ⟨c, hc, rfl⟩ := List.mem_map.mp hs
    exact (hstores.statement.columns c hc).name
  by_cases hnames : q.draft.NamesColumn
  · obtain ⟨us, hus, hsay⟩ := hpictured.writable hplain hnames
    have htraced := h.traced_ofText
    exact ⟨us, hus, hsay, .inr (htraced.endsInSymbol hnames)⟩
  · obtain ⟨us, hus, hfree⟩ := hpictured.completable hplain hroom hnames
    exact ⟨us, hus, hfree.toSayable, .inl hfree.head⟩

end Parser

/-! ## The text before the error -/

theorem nil_notMem_overfullRow : [] ∉ overfullRow := by
  simp [overfullRow, insertHead, Language.mem_iSup]

theorem symbol_of_mem : ∀ e ∈ vocabulary, e.keyword = .leftParen ∨ e.keyword = .comma →
    ∀ w ∈ e.words.map String.toList, w.all isWordChar = false := by
  decide +kernel

theorem all_isWordChar_scan_symbol {cs : List Char} {k : Keyword}
    (hk : k = .leftParen ∨ k = .comma) (h : (scan cs).token = .keyword k) :
    (scan cs).text.all isWordChar = false := by
  cases cs with
  | nil => cases h
  | cons c cs =>
      cases hc : isWordChar c with
      | false =>
          obtain ⟨tail, htail⟩ := exists_scan_text c cs
          simp [htail, hc]
      | true =>
          obtain ⟨w, rest, hcs, hw, hrest⟩ := exists_run cs hc
          rw [hcs] at h ⊢
          rcases scan_run_cases hw hrest with
            ⟨k', hk', hscan⟩ | ⟨-, ⟨k', hk', hscan⟩ | ⟨-, hscan⟩⟩
          · have hnext := ne_nil_of_reserved? hk' (nextWord rest) (by simp)
            rw [hscan]
            exact all_isWordChar_phrase (takeWhile_isSpace_ne_nil hrest hnext)
              (List.all_eq_true.mp List.all_takeWhile)
          · rw [hscan] at h ⊢
            obtain rfl := Token.keyword.inj h
            obtain ⟨e, he, hwords, rfl⟩ := exists_mem_of_reserved? hk'
            rw [← all_isWordChar_upper]
            exact symbol_of_mem e he hk (upper w) (by simp [hwords])
          · rw [hscan] at h
            cases h

theorem EndsInSymbol.reserved?_eq_none {ts : List Token} (h : EndsInSymbol ts) {cs v : List Char}
    (hlast : ts.getLast? = some (scan cs).token) : reserved? [(scan cs).text, v] = none := by
  apply reserved?_pair_eq_none
  rcases h with h | h
  · exact all_isWordChar_scan_symbol (.inl rfl) (Option.some.inj (hlast.symm.trans h))
  · exact all_isWordChar_scan_symbol (.inr rfl) (Option.some.inj (hlast.symm.trans h))

namespace Parser

variable {q : Parser} {settings : Settings} {text : String} {ts us : List Token}
  {before : List Char}

/-- The text that a run has read: white space, the tokens, and the white space
after them.  The tokens are read again in front of other texts. -/
theorem Steps.before_eq (h : Steps (.ofText settings text) ts q) (hlive : q.Live) (hne : ts ≠ [])
    (hbefore : q.cursor.input = before ++ q.cursor.rest) :
    ∃ lead core gap last : List Char, before = lead ++ core ++ gap ∧
      (∀ c ∈ lead, isSpace c = true) ∧ (∀ c ∈ gap, isSpace c = true) ∧ Firm core ∧
      (∀ c ∈ core.head?, isSpace c = false) ∧
      (∃ tail, last = (scan tail).text ∧ ts.getLast? = some (scan tail).token) ∧
      ∀ z, Spaced z → reserved? [last, nextWord z] = none →
        Reads (core ++ z) ts (z.dropWhile isSpace) := by
  obtain ⟨core, gap, last, hrest, hgap, hfirm, hlast, hreads⟩ :=
    (h.reads hlive).transplant hne h.readable
  generalize hlead : (cursorText settings text).takeWhile isSpace = lead
  have hdrop : (cursorText settings text).dropWhile isSpace = core ++ gap ++ q.cursor.rest := hrest
  have hcat : before ++ q.cursor.rest = lead ++ core ++ gap ++ q.cursor.rest := by
    calc before ++ q.cursor.rest = cursorText settings text := hbefore.symm.trans h.input
      _ = lead ++ (core ++ gap ++ q.cursor.rest) := by
        rw [← hlead, ← hdrop, List.takeWhile_append_dropWhile]
      _ = lead ++ core ++ gap ++ q.cursor.rest := by simp only [List.append_assoc]
  have hspace : ∀ c ∈ lead, isSpace c = true := by
    rw [← hlead]
    exact List.all_eq_true.mp List.all_takeWhile
  have hhead : ∀ c ∈ core.head?, isSpace c = false := by
    intro c hc
    apply head_dropWhile_isSpace (cursorText settings text) c
    rwa [hdrop, List.append_assoc, List.head?_append_of_ne_nil _ hfirm.ne_nil]
  exact ⟨lead, core, gap, last, List.append_cancel_right hcat, hspace, hgap, hfirm, hhead, hlast,
    fun z hz hphrase => (hreads z hz hphrase).1⟩

/-- Other tokens can be written behind the position. -/
theorem Steps.reads_completed (h : Steps (.ofText settings text) ts q) (hlive : q.Live)
    (hbefore : q.cursor.input = before ++ q.cursor.rest) (hsay : Sayable us)
    (hapart : (∀ u ∈ us.head?, closesPhrase u.firstWord = false) ∨ EndsInSymbol ts) :
    Reads ((before ++ writing us).dropWhile isSpace) (ts ++ us) [] := by
  by_cases hne : ts = []
  · subst hne
    cases h
    have hcat : (cursorText settings text).takeWhile isSpace ++
        (cursorText settings text).dropWhile isSpace =
          before ++ (cursorText settings text).dropWhile isSpace := by
      rw [List.takeWhile_append_dropWhile]
      exact hbefore
    have hspace : ∀ c ∈ before, isSpace c = true := by
      rw [← List.append_cancel_right hcat]
      exact List.all_eq_true.mp List.all_takeWhile
    rw [List.dropWhile_append_of_pos hspace]
    exact hsay.reads
  · obtain ⟨lead, core, gap, last, rfl, hlead, hgap, hfirm, hhead, ⟨tail, rfl, hlast⟩, hreads⟩ :=
      h.before_eq hlive hne hbefore
    have hphrase : reserved? [(scan tail).text, nextWord (gap ++ writing us)] = none := by
      rw [nextWord_append_gap hgap]
      rcases hapart with hfree | hsymbol
      · exact reserved?_eq_none_of_closesPhrase (hsay.closesPhrase_nextWord hfree)
      · exact hsymbol.reserved?_eq_none hlast
    have hfirst := hreads (gap ++ writing us) ((spaced_writing us).append hgap) hphrase
    rw [List.dropWhile_append_of_pos hgap] at hfirst
    have hcore : ∀ c ∈ (core ++ (gap ++ writing us)).head?, isSpace c = false := by
      rwa [List.head?_append_of_ne_nil _ hfirm.ne_nil]
    rw [List.append_assoc, List.append_assoc, dropWhile_append_gap hlead hcore]
    exact hfirst.append hsay.reads

/-- The text with the tokens that are written behind the position is read as all
these tokens, apart from the blanks at its end. -/
theorem Steps.exists_trimmed (h : Steps (.ofText settings text) ts q) (hlive : q.Live)
    (hbefore : q.cursor.input = before ++ q.cursor.rest) (hsay : Sayable us)
    (hapart : (∀ u ∈ us.head?, closesPhrase u.firstWord = false) ∨ EndsInSymbol ts)
    (hne : ts ++ us ≠ []) :
    ∃ cs gap, before ++ writing us = cs ++ gap ∧ (∀ c ∈ gap, isBlank c = true) ∧ Firm cs ∧
      Reads (cs.dropWhile isSpace) (ts ++ us) [] := by
  by_cases hus : us = []
  · subst hus
    have hts : ts ≠ [] := by simpa using hne
    obtain ⟨lead, core, gap, last, rfl, hlead, hgap, hfirm, hhead, -, hreads⟩ :=
      h.before_eq hlive hts hbefore
    have hnil := hreads [] (by simp [Spaced]) (reserved?_eq_none_of_closesPhrase closesPhrase_nil)
    refine ⟨lead ++ core, gap, List.append_nil _, fun c hc => isBlank_of_isSpace (hgap c hc),
      hfirm.append lead, ?_⟩
    rw [dropWhile_append_gap hlead hhead]
    simpa using hnil
  · exact ⟨before ++ writing us, [], (List.append_nil _).symm, by simp,
      (hsay.firm hus).append before, h.reads_completed hlive hbefore hsay hapart⟩

/-- The text before a position at which the run is stuck can be completed, unless
it ends in a row that is too long. -/
theorem Steps.overfull_or_completed (h : Steps (.ofText settings text) ts q) (hstuck : q.Stuck)
    (hlimit : settings.maxInputLength = 0)
    (hbefore : q.cursor.input = before ++ q.cursor.rest) :
    (tokenize (String.ofList before)).map (·.2) ∈ overfullRow ∨
      ∃ s : String, ∃ statement, parseOne settings (String.ofList before ++ s) = .ok statement := by
  have hsound := h.sound (sound_ofText settings text)
  by_cases hover : q.draft.Overfull
  · left
    have htraced := h.traced_ofText
    have hmem := htraced.overfull hsound.1 hover
    have hne : ts ≠ [] := by
      rintro rfl
      exact nil_notMem_overfullRow hmem
    obtain ⟨cs, gap, htext, hgap, hfirm, hreads⟩ :=
      h.exists_trimmed hstuck.live hbefore Sayable.nil (.inl (by simp)) (by simpa using hne)
    have hbefore' : before = cs ++ gap := by simpa [writing] using htext
    rw [hbefore', tokenize_of_reads hfirm hgap hreads, List.append_nil]
    exact hmem
  · right
    obtain ⟨us, hus, hsay, hapart⟩ := h.exists_completion hover
    have hsentence : ts ++ us ∈ sentence :=
      (h.append_mem_residual hstuck.live (sound_ofText settings text)).mpr hus
    have hne : ts ++ us ≠ [] := by
      intro hnil
      rw [hnil] at hsentence
      exact nil_notMem_sentence hsentence
    obtain ⟨cs, gap, htext, hgap, hfirm, hreads⟩ :=
      h.exists_trimmed hstuck.live hbefore hsay hapart hne
    refine ⟨String.ofList (writing us), ?_⟩
    rw [← String.ofList_append, exists_parseOne_iff, tooLong_eq_false_iff, tokensLeft_ofText,
      htext, tokenize_cursorText_of_reads settings hfirm hgap hreads]
    exact ⟨.inl hlimit, hsentence⟩

end Parser

/-- A position in a text is exactly where it stops being the beginning of a
statement. -/
structure ExactPosition (settings : Settings) (text : String) (offset : Nat) : Prop where
  /-- The text before the position can be completed, unless it ends in a row of an
  insertion that already has as many commas as there are columns. -/
  notTooLate : ∃ before, takeBytes? offset text.toList = some before ∧
    ((tokenize (String.ofList before)).map (·.2) ∈ overfullRow ∨
      ∃ s : String, ∃ statement, parseOne settings (String.ofList before ++ s) = .ok statement)
  /-- Unless the position is the end, a token stands there, and no text is accepted
  whose tokens begin with those up to it. -/
  notTooEarly : offset ≠ byteLength (cursorText settings text) →
    ∃ k t, (tokenize (String.ofList (cursorText settings text)))[k]? = some (offset, t) ∧
      ∀ (settings' : Settings) (text' : String),
        ((tokenize (String.ofList (cursorText settings text))).map (·.2)).take (k + 1) <+:
          (tokenize (String.ofList (cursorText settings' text'))).map (·.2) →
        ¬ ∃ statement, parseOne settings' text' = .ok statement

/-- Without a limit on the length, syntax errors are reported at exact positions. -/
theorem exactPosition_of_syntactic {settings : Settings} {text : String} {offset : Nat}
    {reason : Reason} (hlimit : settings.maxInputLength = 0)
    (h : parseOne settings text = .error (.syntactic offset reason)) :
    ExactPosition settings text offset := by
  obtain ⟨ts, q, hsteps, hstuck, rfl⟩ := Parser.exists_stuck h
  obtain ⟨before, hbefore, hlength⟩ := hsteps.placed (Cursor.placed_ofText _)
  have hinput : cursorText settings text = before ++ q.cursor.rest :=
    hsteps.input.symm.trans hbefore
  constructor
  · obtain ⟨tail, htail⟩ := isPrefix_cursorText settings text
    refine ⟨before, ?_, hsteps.overfull_or_completed hstuck hlimit hbefore⟩
    rw [← hlength, ← htail, hinput, List.append_assoc, takeBytes?_append]
  · intro hoffset
    have hend : q.cursor.atEnd = false := by
      by_contra hend
      apply hoffset
      have hrest : q.cursor.rest = [] := by simpa [Cursor.atEnd] using hend
      rw [← hlength, hinput, hrest, List.append_nil]
    obtain ⟨taken, htaken, htokens⟩ := hsteps.exists_token hstuck.live hend
    rw [tokens_ofText] at htokens
    refine ⟨taken.length, q.cursor.peek, by simp [htokens], ?_⟩
    intro settings' text' hprefix haccepted
    have htake : ((tokenize (String.ofList (cursorText settings text))).map (·.2)).take
        (taken.length + 1) = ts ++ [q.cursor.peek] := by
      rw [htokens, List.map_append, List.map_cons, htaken, List.append_cons]
      exact List.take_left' (by simp [← htaken])
    rw [htake] at hprefix
    obtain ⟨us, hus⟩ := hprefix
    have hsentence := (exists_parseOne_iff.mp haccepted).2
    rw [tokensLeft_ofText, ← hus, List.append_assoc] at hsentence
    have hsound := Parser.sound_ofText settings text
    have hcompletes := (hsteps.append_mem_residual hstuck.live hsound).mp hsentence
    exact hstuck.cons_notMem_residual (hsteps.sound hsound) hend hcompletes

/-- A comma is missing in the second row of an insertion. -/
theorem exactPosition_of_missing_comma :
    parseOne { maxInputLength := 0 } "insert into t (a, b) values (1, 'x'), (2 3)" =
        .error (.syntactic 41 (.expected "',' or ')' in the values" (some "3"))) ∧
      ExactPosition { maxInputLength := 0 } "insert into t (a, b) values (1, 'x'), (2 3)" 41 := by
  have h : parseOne { maxInputLength := 0 } "insert into t (a, b) values (1, 'x'), (2 3)" =
      .error (.syntactic 41 (.expected "',' or ')' in the values" (some "3"))) := by
    decide +kernel
  exact ⟨h, exactPosition_of_syntactic rfl h⟩

end SqlReader
