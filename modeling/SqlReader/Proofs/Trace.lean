import SqlReader.Proofs.ErrorReport
import SqlReader.Proofs.Validation

/-!
# Traces

The transitions of a run are its trace.  A parser finds its tokens one at a time,
each where the one before it ended, and the tokenizer reads the whole text at
once; along the trace the two agree on every token and on every position.
-/

namespace SqlReader

open Text

namespace Parser

variable {p q : Parser} {steps : List Transition} {settings : Settings} {text : String}

/-- The transitions on the way from one configuration to another. -/
inductive Trace : Parser → List Transition → Parser → Prop
  | refl (p : Parser) : Trace p [] p
  | head {p q r : Parser} {steps : List Transition} (hend : p.cursor.atEnd = false)
      (hstep : p.step = .ok () q) (hrest : Trace q steps r) :
      Trace p (⟨p.draft.state, q.draft.state, p.cursor.offset⟩ :: steps) r

theorem run_trace (hp : p.draft.Pictured) : Trace p p.run.steps p.run.parser := by
  fun_induction Parser.run p with
  | case1 p hend => exact .refl p
  | case2 p hend e q hstep =>
      obtain ⟨rfl, -⟩ := step_refused hp hstep
      exact .refl q
  | case3 p hend q hstep later ih =>
      exact .head (by simpa using hend) hstep (ih (step_pictured hp hstep))

/-! ## States -/

theorem Trace.source_eq (h : Trace p steps q) :
    ∀ step ∈ steps.head?, step.source = p.draft.state := by
  cases h with
  | refl => simp
  | head hend hstep hrest => simp

theorem Trace.linked (h : Trace p steps q) :
    steps.IsChain fun step next => step.target = next.source := by
  induction h with
  | refl => exact .nil
  | @head p q r steps hend hstep hrest ih =>
      refine List.isChain_cons.mpr ⟨?_, ih⟩
      intro next hnext
      exact (hrest.source_eq next hnext).symm

/-! ## Positions -/

theorem step_offset_lt (hplaced : p.cursor.Placed) (hend : p.cursor.atEnd = false)
    (hstep : p.step = .ok () q) : p.cursor.offset < q.cursor.offset := by
  rw [step_cursor hstep, advance]
  split
  · exact hplaced.offset_lt_popRest hend
  · exact Cursor.offset_lt_pop hend

theorem Trace.increasing (h : Trace p steps q) (hplaced : p.cursor.Placed) :
    (∀ step ∈ steps, p.cursor.offset ≤ step.offset) ∧
      steps.Pairwise fun step next => step.offset < next.offset := by
  induction h with
  | refl => simp
  | @head p q r steps hend hstep hrest ih =>
      have hnext : q.cursor.Placed := (Steps.head hend hstep (.refl q)).placed hplaced
      obtain ⟨hle, hpairwise⟩ := ih hnext
      have hlt := step_offset_lt hplaced hend hstep
      constructor
      · intro step hmem
        rcases List.mem_cons.mp hmem with rfl | hmem
        · exact Nat.le_refl _
        · have hstep := hle step hmem
          omega
      · refine List.pairwise_cons.mpr ⟨?_, hpairwise⟩
        intro step hmem
        have hstep := hle step hmem
        exact Nat.lt_of_lt_of_le hlt hstep

/-! ## Tokens -/

theorem tokens_of_not_atEnd (hend : p.cursor.atEnd = false) :
    p.cursor.tokens = (p.cursor.offset, p.cursor.peek) :: p.cursor.pop.tokens := by
  rw [Cursor.tokens.eq_def, dif_neg (by simp [hend])]

/-- A step that does not take the rest of the text takes its first token. -/
theorem tokens_of_step (hend : p.cursor.atEnd = false) (hstep : p.step = .ok () q)
    (hquery : p.draft.state ≠ .view .query) :
    p.cursor.tokens = (p.cursor.offset, p.cursor.peek) :: q.cursor.tokens := by
  rw [tokens_of_not_atEnd hend, step_cursor_of_ne_query hquery hstep]

/-- Transition number `i` is made on token number `i`. -/
theorem Trace.onToken (h : Trace p steps q) {i : Nat} {step : Transition}
    (hi : steps[i]? = some step) :
    ∃ a b, Steps p ((p.cursor.tokens.take i).map (·.2)) a ∧ a.step = .ok () b ∧
      p.cursor.tokens[i]? = some (a.cursor.offset, a.cursor.peek) ∧
      step = ⟨a.draft.state, b.draft.state, a.cursor.offset⟩ := by
  induction h generalizing i with
  | refl => simp at hi
  | @head p q r steps hend hstep hrest ih =>
      cases i with
      | zero =>
          refine ⟨p, q, by simpa using .refl p, hstep, ?_, by simpa using hi.symm⟩
          rw [tokens_of_not_atEnd hend]
          rfl
      | succ i =>
          have hi : steps[i]? = some step := by simpa using hi
          -- after the query of a view no token is left
          have hquery : p.draft.state ≠ .view .query := by
            intro hquery
            have hend' := (step_query hquery hstep).2
            cases hrest with
            | refl => simp at hi
            | head hlive => simp [hend'] at hlive
          obtain ⟨a, b, hsteps, hab, htoken, heq⟩ := ih hi
          have htokens := tokens_of_step hend hstep hquery
          refine ⟨a, b, ?_, hab, ?_, heq⟩
          · rw [htokens, List.take_succ_cons, List.map_cons]
            exact .head hend hstep hsteps
          · rw [htokens, List.getElem?_cons_succ, htoken]

/-- The last transition is made on the query of a view and takes what is left. -/
def TakesQuery (steps : List Transition) (tokens : List (Nat × Token)) : Prop :=
  ∃ before step, steps = before ++ [step] ∧ step.source = .view .query ∧ step.target = .done ∧
    tokens[before.length]? = some (step.offset, .keyword .select)

theorem peek_of_query (hquery : p.draft.state = .view .query) (hstep : p.step = .ok () q) :
    p.cursor.peek = .keyword .select := by
  obtain ⟨draft, hdraft, -⟩ := step_eq_ok_iff.mp hstep
  simp only [Draft.accept, Draft.move?, hquery, Draft.follow_eq_ok_iff, ViewPlace.move?,
    Option.ite_none_right_eq_some] at hdraft
  obtain ⟨_, _, ⟨hselect, -⟩, -⟩ := hdraft
  apply Sentence.keyword?_eq_some_iff.mp
  simpa [Token.is] using hselect

/-- A trace takes a token per transition, or ends with the query of a view. -/
theorem Trace.tokens_eq (h : Trace p steps q) :
    (∃ taken : List (Nat × Token), taken.length = steps.length ∧
        p.cursor.tokens = taken ++ q.cursor.tokens) ∨
      TakesQuery steps p.cursor.tokens ∧ q.cursor.atEnd = true := by
  induction h with
  | refl => exact .inl ⟨[], rfl, rfl⟩
  | @head p q r steps hend hstep hrest ih =>
      by_cases hquery : p.draft.state = .view .query
      · obtain ⟨hdone, hend'⟩ := step_query hquery hstep
        cases hrest with
        | head hlive => simp [hend'] at hlive
        | refl =>
            refine .inr ⟨⟨[], _, rfl, hquery, hdone, ?_⟩, hend'⟩
            rw [tokens_of_not_atEnd hend, peek_of_query hquery hstep]
            rfl
      · have htokens := tokens_of_step hend hstep hquery
        rcases ih with ⟨taken, hlength, htaken⟩ | ⟨⟨before, step, hsteps, hlast⟩, hend'⟩
        · refine .inl ⟨(p.cursor.offset, p.cursor.peek) :: taken, by simp [hlength], ?_⟩
          rw [htokens, htaken, List.cons_append]
        · refine .inr ⟨⟨_ :: before, step, by rw [hsteps]; rfl, hlast.1, hlast.2.1, ?_⟩, hend'⟩
          rw [htokens, List.length_cons, List.getElem?_cons_succ]
          exact hlast.2.2

/-! ## Calls -/

/-- The three ways in which a run over a list of tokens ends. -/
inductive Ends (p : Parser) (tokens : List (Nat × Token)) : Prop
  /-- There is a transition for every token. -/
  | all (hread : p.run.failure = none) (hlength : p.run.steps.length = tokens.length)
  /-- The query of a view takes the rest of the text. -/
  | query (hread : p.run.failure = none) (hquery : TakesQuery p.run.steps tokens)
      (hrest : p.run.parser.cursor.atEnd = true)
  /-- The next token is refused, and the error stands at its position. -/
  | refused {e : Error} {offset : Nat} {t : Token} (hfailure : p.run.failure = some e)
      (houtcome : p.parse.outcome = .error e)
      (htoken : tokens[p.run.steps.length]? = some (offset, t)) (hoffset : e.offset? = some offset)

/-- A call goes along the tokens of a text of that many bytes. -/
structure Follows (p : Parser) (tokens : List (Nat × Token)) (length : Nat) : Prop where
  /-- The trace records of the call are those of the transitions. -/
  logged : p.parse.log.filter (·.level = .trace) = p.run.steps.map (·.record)
  /-- After the first `i` tokens, transition `i` is made on token `i` at its position. -/
  onTokens : ∀ i step, p.run.steps[i]? = some step →
    ∃ a b, Steps p ((tokens.take i).map (·.2)) a ∧ a.step = .ok () b ∧
      tokens[i]? = some (a.cursor.offset, a.cursor.peek) ∧
      step = ⟨a.draft.state, b.draft.state, a.cursor.offset⟩
  begins : ∀ step ∈ p.run.steps.head?, step.source = .beginning
  linked : p.run.steps.IsChain fun step next => step.target = next.source
  increasing : p.run.steps.Pairwise fun step next => step.offset < next.offset
  ends : p.Ends tokens
  /-- What is found wrong after the last token stands at the end of the text. -/
  afterwards : p.run.failure = none → ∀ e, p.parse.outcome = .error e → e.offset? = some length

theorem filter_trace_append (steps : List Transition) {records : List Record}
    (h : ∀ record ∈ records, record.level ≠ .trace) :
    (steps.map (·.record) ++ records).filter (·.level = .trace) = steps.map (·.record) := by
  have hsteps : (steps.map (·.record)).filter (·.level = .trace) = steps.map (·.record) := by
    rw [List.filter_eq_self]
    intro record hrecord
    obtain ⟨step, -, rfl⟩ := List.mem_map.mp hrecord
    rfl
  have hrecords : records.filter (·.level = .trace) = [] := by
    rw [List.filter_eq_nil_iff]
    intro record hrecord
    simpa using h record hrecord
  rw [List.filter_append, hsteps, hrecords, List.append_nil]

theorem fail_log (p : Parser) (steps : List Transition) (e : Error) :
    (p.fail steps e).log.filter (·.level = .trace) = steps.map (·.record) := by
  apply filter_trace_append
  intro record hrecord
  split at hrecord
  · obtain rfl := List.mem_singleton.mp hrecord
    unfold failureRecord
    split <;> simp
  · cases hrecord

theorem parse_log (hlimit : p.tooLong = false) :
    p.parse.log.filter (·.level = .trace) = p.run.steps.map (·.record) := by
  unfold parse
  rw [if_neg (by simp [hlimit])]
  dsimp only
  split
  · exact fail_log _ _ _
  · split
    · exact fail_log _ _ _
    · exact filter_trace_append _ (by simp [successRecord])

theorem ends_ofText (hlimit : (ofText settings text).tooLong = false) :
    (ofText settings text).Ends (ofText settings text).cursor.tokens := by
  obtain ⟨ts, hsteps, hlast⟩ := steps_run (p := ofText settings text) rfl
  have htrace := run_trace (p := ofText settings text) rfl
  cases hfailure : (ofText settings text).run.failure with
  | none =>
      rw [hfailure] at hlast
      rcases htrace.tokens_eq with ⟨taken, hlength, htokens⟩ | ⟨hquery, hend⟩
      · refine .all hfailure ?_
        rw [Cursor.tokens.eq_def (ofText settings text).run.parser.cursor, dif_pos hlast,
          List.append_nil] at htokens
        rw [htokens, hlength]
      · exact .query hfailure hquery hend
  | some e =>
      rw [hfailure] at hlast
      obtain ⟨hend, hstep⟩ := hlast
      have hpictured := (Reachable.start.steps hsteps).pictured hend
      rcases htrace.tokens_eq with ⟨taken, hlength, htokens⟩ | ⟨-, hend'⟩
      · refine .refused (t := (ofText settings text).run.parser.cursor.peek) hfailure ?_ ?_
          (raises_of_step hpictured hstep).offset?_eq
        · rcases parse_cases hlimit with ⟨e', he', houtcome, -⟩ | ⟨hnone, -⟩
          · rwa [← Option.some.inj (hfailure.symm.trans he')] at houtcome
          · simp [hfailure] at hnone
        · rw [htokens, tokens_of_not_atEnd hend, ← hlength]
          simp
      · simp [hend'] at hend

theorem finish_offset_ofText (hlimit : (ofText settings text).tooLong = false)
    (hread : (ofText settings text).run.failure = none) {e : Error}
    (he : (ofText settings text).parse.outcome = .error e) :
    e.offset? = some (byteLength (cursorText settings text)) := by
  obtain ⟨ts, hsteps, hend⟩ := steps_run (p := ofText settings text) rfl
  rw [hread] at hend
  rw [← hsteps.offset_eq hend]
  rcases parse_cases hlimit with
    ⟨e', he', -⟩ | ⟨-, ⟨e', hfinish, houtcome, -⟩ | ⟨s, -, houtcome, -⟩⟩
  · simp [hread] at he'
  · obtain rfl := Except.error.inj (houtcome.symm.trans he)
    exact (raises_of_finish hend hfinish).offset?_eq
  · rw [houtcome] at he
    cases he

end Parser

/-- The first call on the parser of a text within the limit goes along the tokens
that the tokenizer finds in the part that is read: a transition for a token, in
their order and at their positions, until the tokens end, the query of a view
takes the rest, or a token is refused. -/
theorem parse_follows_tokens {settings : Settings} {text : String}
    (hlimit : WithinLimit settings text) :
    (Parser.ofText settings text).Follows
      (tokenize (String.ofList (cursorText settings text)))
      (byteLength (cursorText settings text)) := by
  have hlimit : (Parser.ofText settings text).tooLong = false := tooLong_eq_false_iff.mpr hlimit
  have htrace := Parser.run_trace (p := Parser.ofText settings text) rfl
  rw [← tokens_ofText]
  exact
    { logged := Parser.parse_log hlimit
      onTokens := fun i step hi => htrace.onToken hi
      begins := htrace.source_eq
      linked := htrace.linked
      increasing := (htrace.increasing (Cursor.placed_ofText _)).2
      ends := Parser.ends_ofText hlimit
      afterwards := fun hread e he => Parser.finish_offset_ofText hlimit hread he }

/-- A view, the query of which is no query. -/
theorem parse_follows_tokens_view :
    WithinLimit {} " create  view v (a) as select 'x' ; " ∧
      (Parser.ofText {} " create  view v (a) as select 'x' ; ").Follows
        [(1, .keyword .createView), (14, .word "v"), (16, .keyword .leftParen), (17, .word "a"),
          (18, .keyword .rightParen), (20, .keyword .as), (23, .keyword .select),
          (30, .literal "x")] 33 := by
  have hlimit : WithinLimit {} " create  view v (a) as select 'x' ; " := .inr (by decide +kernel)
  have htokens : tokenize (String.ofList (cursorText {} " create  view v (a) as select 'x' ; ")) =
      [(1, .keyword .createView), (14, .word "v"), (16, .keyword .leftParen), (17, .word "a"),
        (18, .keyword .rightParen), (20, .keyword .as), (23, .keyword .select),
        (30, .literal "x")] := by
    decide +kernel
  have hlength : byteLength (cursorText {} " create  view v (a) as select 'x' ; ") = 33 := by
    decide +kernel
  refine ⟨hlimit, ?_⟩
  rw [← htokens, ← hlength]
  exact parse_follows_tokens hlimit

end SqlReader
