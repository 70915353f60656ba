import SqlReader.Proofs.Trace
import SqlReader.Proofs.Writing.Taking

/-!
# What the tokens decide

`Draft.judge` comes to a verdict on a list of tokens without any text around
them.  A parser tells the verdict on its tokens: it adds only positions, the
spelling of a refused token and the query of a view.
-/

namespace SqlReader

open Text

inductive Verdict
  /-- The tokens are a statement, up to the query of a view. -/
  | statement (s : Statement)
  /-- The tokens end in a statement that breaks a rule. -/
  | invalid (reason : Reason)
  /-- The tokens end where a statement may not end. -/
  | unfinished (state : State)
  /-- The token with this number is refused. -/
  | refused (index : Nat) (state : State) (refusal : Refusal)

def Verdict.later : Verdict → Verdict
  | refused index state refusal => refused (index + 1) state refusal
  | verdict => verdict

namespace Draft

/-- The verdict on a draft when no token is left. -/
def conclude (d : Draft) : Verdict :=
  if d.state.isAccepting then
    match d.statement.fault with
    | none => .statement d.statement
    | some reason => .invalid reason
  else .unfinished d.state

/-- The verdict on the tokens that are left.  Nothing behind the first token of
the query of a view is looked at. -/
def judge (d : Draft) : List Token → Verdict
  | [] => d.conclude
  | t :: ts =>
    match d.accept t [] with
    | .error refusal => .refused 0 d.state refusal
    | .ok d' => if d.state = .view .query then d'.conclude else (d'.judge ts).later

variable {d : Draft}

/-! ## The query of a view -/

/-- A token is refused for what it is, not for what follows it. -/
theorem accept_error {t : Token} {rest : List Char} {refusal : Refusal}
    (h : d.accept t rest = .error refusal) : d.accept t [] = .error refusal := by
  by_cases hquery : d.state = .view .query
  · rw [accept_query hquery] at h ⊢
    cases hselect : t.is .select with
    | true => simp [hselect] at h
    | false => simpa [hselect] using h
  · rwa [← accept_congr hquery]

theorem Pictured.kind_of_query (hd : d.Pictured) (hquery : d.state = .view .query) :
    d.statement.kind = .createView := by
  unfold Pictured at hd
  rw [hquery] at hd
  obtain ⟨view, fields, hs⟩ := hd
  rw [hs]

end Draft

/-! ## Telling a verdict -/

/-- The outcome says what the verdict is, for a text with these tokens and that
many bytes. -/
inductive Verdict.Told (tokens : List (Nat × Token)) (length : Nat) :
    Verdict → Except Error Statement → Prop
  | statement (s : Statement) : Told tokens length (.statement s) (.ok s)
  | view {s : Statement} (hkind : s.kind = .createView) (query : Option String) :
      Told tokens length (.statement s) (.ok { s with viewSelect := query })
  | invalid (reason : Reason) :
      Told tokens length (.invalid reason) (.error (.semantic length reason))
  | unfinished (state : State) :
      Told tokens length (.unfinished state)
        (.error (.syntactic length (.expected state.expectation none)))
  | unexpected {index offset : Nat} {t : Token} (htoken : tokens[index]? = some (offset, t))
      (state : State) (found : String) :
      Told tokens length (.refused index state .unexpected)
        (.error (.syntactic offset (.expected state.expectation (some found))))
  | breaks {index offset : Nat} {t : Token} (htoken : tokens[index]? = some (offset, t))
      (state : State) (reason : Reason) :
      Told tokens length (.refused index state (.breaks reason)) (.error (.semantic offset reason))

theorem Verdict.Told.later {tokens : List (Nat × Token)} {length : Nat} {verdict : Verdict}
    {outcome : Except Error Statement} (h : verdict.Told tokens length outcome)
    (first : Nat × Token) : verdict.later.Told (first :: tokens) length outcome := by
  cases h with
  | statement s => exact .statement s
  | view hkind query => exact .view hkind query
  | invalid reason => exact .invalid reason
  | unfinished state => exact .unfinished state
  | unexpected htoken state found => exact .unexpected (by simpa using htoken) state found
  | breaks htoken state reason => exact .breaks (by simpa using htoken) state reason

namespace Parser

variable {p q : Parser} {tokens : List (Nat × Token)} {length : Nat}

def answer (p : Parser) : Except Error Statement :=
  match p.run.failure with
  | some e => .error e
  | none => p.run.parser.finish

theorem outcome_eq_answer (hlimit : p.tooLong = false) : p.parse.outcome = p.answer := by
  unfold answer
  rcases parse_cases hlimit with
    ⟨e, hfailure, houtcome, -⟩ | ⟨hnone, ⟨e, hfinish, houtcome, -⟩ | ⟨s, hfinish, houtcome, -⟩⟩
  · rw [houtcome, hfailure]
  · rw [houtcome, hnone, hfinish]
  · rw [houtcome, hnone, hfinish]

theorem answer_of_atEnd (hend : p.cursor.atEnd = true) : p.answer = p.finish := by
  rw [answer, run_of_atEnd hend]

theorem answer_of_step (hend : p.cursor.atEnd = false) (hstep : p.step = .ok () q) :
    p.answer = q.answer := by
  obtain ⟨hparser, hfailure⟩ := (Steps.head hend hstep (.refl q)).run_eq
  rw [answer, answer, hparser, hfailure]

theorem answer_of_error {e : Error} (hend : p.cursor.atEnd = false) (hstep : p.step = .error e q) :
    p.answer = .error e := by
  rw [answer, run_of_error hend hstep]

theorem finish_told (h : p.cursor.offset = length) :
    p.draft.conclude.Told tokens length p.finish := by
  subst h
  unfold Draft.conclude finish Statement.validate
  cases p.draft.state.isAccepting with
  | false => exact .unfinished p.draft.state
  | true =>
      cases p.draft.statement.fault with
      | none => exact .statement p.draft.statement
      | some reason => exact .invalid reason

/-- A refused token is told at its position. -/
theorem explain_told {refusal : Refusal} (hend : p.cursor.atEnd = false)
    (hinternal : ∀ message, refusal ≠ .internal message) :
    Verdict.Told ((p.cursor.offset, p.cursor.peek) :: tokens) length
      (.refused 0 p.draft.state refusal) (.error (p.explain refusal)) := by
  cases refusal with
  | unexpected =>
      rw [explain, if_neg (by simp [hend])]
      exact .unexpected rfl _ _
  | breaks reason => exact .breaks rfl _ reason
  | internal message => exact absurd rfl (hinternal message)

/-! ## Every parser tells the verdict on its tokens -/

theorem query_told (hp : p.draft.Pictured) (hend : p.cursor.atEnd = false)
    (hquery : p.draft.state = .view .query)
    (hstep : p.step = .ok () q) (us : List Token) :
    (p.draft.judge (p.cursor.peek :: us)).Told tokens (byteLength p.cursor.input) p.answer := by
  have hatEnd := (step_query hquery hstep).2
  obtain ⟨draft, hdraft, rfl⟩ := step_eq_ok_iff.mp hstep
  rw [answer_of_step hend hstep, answer_of_atEnd hatEnd]
  have hselect : p.cursor.peek.is .select = true := by
    rw [peek_of_query hquery hstep]
    rfl
  rw [Draft.accept_query hquery, if_pos hselect] at hdraft
  obtain rfl := Except.ok.inj hdraft
  rw [Draft.judge, Draft.accept_query hquery, if_pos hselect]
  simp only [if_pos hquery]
  have hoffset : p.advance.offset = byteLength p.cursor.input := by
    rw [advance, if_pos hquery]
    rfl
  -- the rules for statements do not look at the query
  have hfault : ∀ query : Option String,
      ({ p.draft.statement with viewSelect := query } : Statement).fault =
        p.draft.statement.fault := fun _ => rfl
  simp only [Draft.conclude, finish, Statement.validate, State.isAccepting, if_true, hoffset,
    hfault]
  cases p.draft.statement.fault with
  | some reason => exact .invalid reason
  | none =>
      exact .view (s := { p.draft.statement with viewSelect := some (String.ofList []) })
        (hp.kind_of_query hquery) _

theorem judge_told (hp : p.draft.Pictured) (hplaced : p.cursor.Placed) :
    (p.draft.judge p.tokensLeft).Told p.cursor.tokens (byteLength p.cursor.input) p.answer := by
  induction p using Parser.run.induct with
  | case1 p hend =>
      rw [tokensLeft_of_atEnd hend, answer_of_atEnd hend]
      apply finish_told
      obtain ⟨before, hinput, hoffset⟩ := hplaced
      have hrest : p.cursor.rest = [] := by simpa [Cursor.atEnd] using hend
      rw [hinput, hrest, List.append_nil, hoffset]
  | case2 p hend e q hstep =>
      have hend : p.cursor.atEnd = false := by simpa using hend
      obtain ⟨refusal, hrefusal, rfl, -⟩ := step_eq_error hstep
      rw [tokensLeft_of_not_atEnd hend, tokens_of_not_atEnd hend, answer_of_error hend hstep,
        Draft.judge, Draft.accept_error hrefusal]
      apply explain_told hend
      rintro message rfl
      exact step_ne_internal hp message hstep
  | case3 p hend q hstep ih =>
      have hend : p.cursor.atEnd = false := by simpa using hend
      by_cases hquery : p.draft.state = .view .query
      · rw [tokensLeft_of_not_atEnd hend]
        exact query_told hp hend hquery hstep _
      · have hsteps := Steps.head hend hstep (.refl q)
        have htold := ih (step_pictured hp hstep) (hsteps.placed hplaced)
        have htokens := tokens_of_step hend hstep hquery
        have hdraft : p.draft.accept p.cursor.peek [] = .ok q.draft := by
          obtain ⟨draft, hdraft, rfl⟩ := step_eq_ok_iff.mp hstep
          rwa [← Draft.accept_congr hquery]
        have hjudge : p.draft.judge p.tokensLeft = (q.draft.judge q.tokensLeft).later := by
          rw [tokensLeft, htokens, List.map_cons, Draft.judge, hdraft]
          simp only [if_neg hquery]
          rfl
        rw [hjudge, htokens, answer_of_step hend hstep, ← hsteps.input]
        exact htold.later _

end Parser

theorem parseOne_eq_answer {settings : Settings} {text : String}
    (hlimit : WithinLimit settings text) :
    parseOne settings text = (Parser.ofText settings text).answer :=
  Parser.outcome_eq_answer (tooLong_eq_false_iff.mpr hlimit)

end SqlReader
