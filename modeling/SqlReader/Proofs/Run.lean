import SqlReader.Parser

/-!
# Runs of a parser

A run is a chain of steps.  `Parser.Steps` keeps the tokens that were taken;
the lemmas here say once how `Parser.run` and `Parser.parse` follow such a
chain, so that later proofs induct on the chain and not on the program.
-/

namespace SqlReader

theorem eq_ok_of_toOption {ε α : Type} {x : Except ε α} {a : α} (h : x.toOption = some a) :
    x = .ok a := by
  cases x with
  | error e => cases h
  | ok b => rw [Option.some.inj h]

namespace Parser

/-- From `p` the tokens `ts` are taken one after the other, up to `q`. -/
inductive Steps : Parser → List Token → Parser → Prop
  | refl (p : Parser) : Steps p [] p
  | head {p q r : Parser} {ts : List Token} (hend : p.cursor.atEnd = false)
      (hstep : p.step = .ok () q) (hrest : Steps q ts r) : Steps p (p.cursor.peek :: ts) r

/-- The configurations that the parser of a text can come to: it takes tokens, it is
left by a token that is refused, and its statement is taken away after a success. -/
inductive Reachable (settings : Settings) (text : String) : Parser → Prop
  | start : Reachable settings text (.ofText settings text)
  | step {p q : Parser} (hp : Reachable settings text p) (hend : p.cursor.atEnd = false)
      (hstep : p.step = .ok () q) : Reachable settings text q
  | refuse {p q : Parser} {e : Error} (hp : Reachable settings text p)
      (hend : p.cursor.atEnd = false) (hstep : p.step = .error e q) : Reachable settings text q
  | release {p : Parser} {s : Statement} (hp : Reachable settings text p)
      (hend : p.cursor.atEnd = true) (hfinish : p.finish = .ok s) :
      Reachable settings text p.release

variable {p q : Parser} {ts : List Token} {settings : Settings} {text : String}

theorem Reachable.steps (hp : Reachable settings text p) (h : Steps p ts q) :
    Reachable settings text q := by
  induction h with
  | refl => exact hp
  | head hend hstep _ ih => exact ih (hp.step hend hstep)

/-- What a step keeps, a run keeps. -/
theorem Steps.preserves {P : Parser → Prop} (h : Steps p ts q)
    (hkeep : ∀ a b, P a → a.cursor.atEnd = false → a.step = .ok () b → P b) (hp : P p) : P q := by
  induction h with
  | refl => exact hp
  | head hend hstep _ ih => exact ih (hkeep _ _ hp hend hstep)

theorem step_eq_ok_iff :
    p.step = .ok () q ↔
      ∃ draft, p.draft.accept p.cursor.peek p.cursor.rest = .ok draft ∧
        q = { p with draft, cursor := p.advance } := by
  have hspec := p.step_spec
  cases haccept : p.draft.accept p.cursor.peek p.cursor.rest with
  | ok draft =>
      simp only [haccept] at hspec
      simp [hspec, eq_comm]
  | error refusal =>
      simp only [haccept] at hspec
      split at hspec
      next h => cases h
      · obtain ⟨r, hr⟩ := hspec
        simp [hr]
      · simp [hspec]

/-- A step fails where its draft refuses the token, and then changes nothing, unless the
draft lacks a part. -/
theorem step_eq_error {e : Error} (h : p.step = .error e q) :
    ∃ refusal, p.draft.accept p.cursor.peek p.cursor.rest = .error refusal ∧
      e = p.explain refusal ∧ (q = p ∨ ∃ message, refusal = .internal message) := by
  have hspec := p.step_spec
  rw [h] at hspec
  cases haccept : p.draft.accept p.cursor.peek p.cursor.rest with
  | ok draft => simp [haccept] at hspec
  | error refusal =>
      refine ⟨refusal, rfl, ?_⟩
      simp only [haccept] at hspec
      split at hspec
      next hok => cases hok
      next message hmessage =>
        obtain rfl := Except.error.inj hmessage
        obtain ⟨r, hr⟩ := hspec
        cases hr
        exact ⟨rfl, .inr ⟨message, rfl⟩⟩
      next hrefusal =>
        obtain rfl := Except.error.inj hrefusal
        cases hspec
        exact ⟨rfl, .inl rfl⟩

theorem step_of_refused {refusal : Refusal}
    (h : p.draft.accept p.cursor.peek p.cursor.rest = .error refusal)
    (hplain : ∀ message, refusal ≠ .internal message) : p.step = .error (p.explain refusal) p := by
  have hspec := p.step_spec
  simpa only [h] using hspec

theorem exists_step_error {refusal : Refusal}
    (h : p.draft.accept p.cursor.peek p.cursor.rest = .error refusal) :
    ∃ q, p.step = .error (p.explain refusal) q := by
  cases refusal with
  | internal message => simpa only [h, explain] using p.step_spec
  | unexpected => exact ⟨p, step_of_refused h (by simp)⟩
  | breaks reason => exact ⟨p, step_of_refused h (by simp)⟩

/-- A run takes tokens until the text ends, or until a step fails and leaves the parser
to it. -/
theorem run_steps (p : Parser) :
    ∃ ts q, Steps p ts q ∧
      match p.run.failure with
      | none => p.run.parser = q ∧ q.cursor.atEnd = true
      | some e => q.cursor.atEnd = false ∧ q.step = .error e p.run.parser := by
  fun_induction Parser.run p with
  | case1 p hend => exact ⟨[], p, .refl p, rfl, hend⟩
  | case2 p hend e q hstep => exact ⟨[], p, .refl p, by simpa using hend, hstep⟩
  | case3 p hend q hstep later ih =>
      obtain ⟨ts, r, hsteps, hlast⟩ := ih
      exact ⟨p.cursor.peek :: ts, r, .head (by simpa using hend) hstep hsteps, hlast⟩

/-- The three ways in which a call ends when the text is not too long. -/
theorem parse_cases (hlimit : p.tooLong = false) :
    (∃ e, p.run.failure = some e ∧ p.parse.outcome = .error e ∧
        p.parse.parser = p.run.parser) ∨
      p.run.failure = none ∧
        ((∃ e, p.run.parser.finish = .error e ∧ p.parse.outcome = .error e ∧
            p.parse.parser = p.run.parser) ∨
          ∃ s, p.run.parser.finish = .ok s ∧ p.parse.outcome = .ok s ∧
            p.parse.parser = p.run.parser.release) := by
  cases hfailure : p.run.failure with
  | some e =>
      left
      refine ⟨e, rfl, ?_, ?_⟩
      · simp [parse, hlimit, hfailure, fail]
      · simp [parse, hlimit, hfailure, fail]
  | none =>
      right
      refine ⟨rfl, ?_⟩
      cases hfinish : p.run.parser.finish with
      | error e =>
          left
          refine ⟨e, rfl, ?_, ?_⟩
          · simp [parse, hlimit, hfailure, hfinish, fail]
          · simp [parse, hlimit, hfailure, hfinish, fail]
      | ok s =>
          right
          refine ⟨s, rfl, ?_, ?_⟩
          · simp [parse, hlimit, hfailure, hfinish]
          · simp [parse, hlimit, hfailure, hfinish]

theorem parse_tooLong (hlimit : p.tooLong = true) :
    p.parse.outcome = .error (.inputTooLong p.length p.settings.maxInputLength.toNat) ∧
      p.parse.parser = p := by
  unfold parse
  rw [if_pos hlimit]
  exact ⟨rfl, rfl⟩

/-- A run that takes a token goes on as the run behind it. -/
theorem run_of_ok (hend : p.cursor.atEnd = false) (hstep : p.step = .ok () q) :
    p.run =
      { q.run with steps := ⟨p.draft.state, q.draft.state, p.cursor.offset⟩ :: q.run.steps } := by
  rw [run.eq_def p, dif_neg (by simp [hend])]
  split
  next e r he =>
    rw [hstep] at he
    cases he
  next q' hq' =>
    rw [hstep] at hq'
    cases hq'
    rfl

/-- A run goes on as it does from any configuration on its way. -/
theorem Steps.run_eq (h : Steps p ts q) :
    p.run.parser = q.run.parser ∧ p.run.failure = q.run.failure := by
  induction h with
  | refl => exact ⟨rfl, rfl⟩
  | @head p q r ts hend hstep _ ih =>
      rw [run_of_ok hend hstep]
      exact ih

theorem run_of_atEnd (hend : p.cursor.atEnd = true) : p.run = ⟨[], p, none⟩ := by
  rw [run.eq_def, dif_pos hend]

theorem run_of_error {e : Error} (hend : p.cursor.atEnd = false) (hstep : p.step = .error e q) :
    p.run = ⟨[], q, some e⟩ := by
  rw [run.eq_def, dif_neg (by simp [hend])]
  split
  next e' q' h =>
    rw [hstep] at h
    cases h
    rfl
  next q' hq =>
    rw [hstep] at hq
    cases hq

theorem finish_eq_ok_iff {s : Statement} :
    p.finish = .ok s ↔
      p.draft.state.isAccepting = true ∧ p.draft.statement.fault = none ∧
        p.draft.statement = s := by
  unfold finish Statement.validate
  cases p.draft.state.isAccepting with
  | false => simp
  | true => cases p.draft.statement.fault <;> simp

/-- A call succeeds when the tokens of the text lead to a statement. -/
theorem parse_eq_ok_iff {s : Statement} :
    p.parse.outcome = .ok s ↔
      p.tooLong = false ∧
        ∃ ts q, Steps p ts q ∧ q.cursor.atEnd = true ∧ q.finish = .ok s := by
  constructor
  · intro hok
    cases hlimit : p.tooLong with
    | true =>
        rw [(parse_tooLong hlimit).1] at hok
        cases hok
    | false =>
        obtain ⟨ts, q, hsteps, hlast⟩ := run_steps p
        rcases parse_cases hlimit with ⟨e, _, ho, _⟩ | ⟨hnone, ⟨e, _, ho, _⟩ | ⟨s', hs', ho, _⟩⟩
        · rw [ho] at hok
          cases hok
        · rw [ho] at hok
          cases hok
        · rw [ho] at hok
          obtain rfl := Except.ok.inj hok
          rw [hnone] at hlast
          obtain ⟨rfl, hend⟩ := hlast
          exact ⟨rfl, ts, _, hsteps, hend, hs'⟩
  · rintro ⟨hlimit, ts, q, hsteps, hend, hfinish⟩
    obtain ⟨hparser, hfailure⟩ := hsteps.run_eq
    rw [run_of_atEnd hend] at hparser hfailure
    rcases parse_cases hlimit with ⟨e, he, _⟩ | ⟨_, ⟨e, he, _⟩ | ⟨s', hs', ho, _⟩⟩
    · rw [hfailure] at he
      cases he
    · rw [hparser, hfinish] at he
      cases he
    · rw [hparser, hfinish] at hs'
      rw [ho, Except.ok.inj hs']

/-- Calls do not leave the reachable configurations. -/
theorem Reachable.parse (hp : Reachable settings text p) :
    Reachable settings text p.parse.parser := by
  obtain ⟨ts, q, hsteps, hlast⟩ := run_steps p
  have hq := hp.steps hsteps
  cases hlimit : p.tooLong with
  | true => rwa [(parse_tooLong hlimit).2]
  | false =>
      rcases parse_cases hlimit with
        ⟨e, he, _, hparser⟩ | ⟨hnone, ⟨e, _, _, hparser⟩ | ⟨s, hs, _, hparser⟩⟩
      · rw [he] at hlast
        rw [hparser]
        exact hq.refuse hlast.1 hlast.2
      · rw [hnone] at hlast
        rwa [hparser, hlast.1]
      · rw [hnone] at hlast
        obtain ⟨rfl, hend⟩ := hlast
        rw [hparser]
        exact hq.release hend hs

end Parser

end SqlReader
