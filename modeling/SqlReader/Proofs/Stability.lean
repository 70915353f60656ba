import SqlReader.Proofs.Validation

/-!
# Repeated calls

A parser keeps its draft and its position between calls.  A token that is refused
changes nothing, so a call that fails stops where a further call stops at once; after a
call that succeeds the statement is gone, and every further call says so.
-/

namespace SqlReader

open Text

namespace Parser

variable {p : Parser} {e : Error} {s : Statement} {settings : Settings} {text : String}

def after (p : Parser) : Nat → Parser
  | 0 => p
  | calls + 1 => p.parse.parser.after calls

/-! ## Configurations that a call does not change -/

/-- A call fails and leaves the parser as it is. -/
def Fixed (p : Parser) (e : Error) : Prop := p.parse.outcome = .error e ∧ p.parse.parser = p

theorem Fixed.after (h : p.Fixed e) (calls : Nat) : p.after calls = p := by
  induction calls with
  | zero => rfl
  | succ calls ih => rw [Parser.after, h.2, ih]

theorem Fixed.parseRepeatedly (h : p.Fixed e) (times : Nat) :
    p.parseRepeatedly times = List.replicate times (.error e) := by
  induction times with
  | zero => rfl
  | succ times ih => rw [Parser.parseRepeatedly, h.1, h.2, ih, List.replicate_succ]

/-- A token that is refused is refused again. -/
theorem fixed_of_refused (hlimit : p.tooLong = false) (hend : p.cursor.atEnd = false)
    (hstep : p.step = .error e p) : p.Fixed e := by
  have hrun := run_of_error hend hstep
  rcases parse_cases hlimit with ⟨e', hfailure, houtcome, hparser⟩ | ⟨hnone, -⟩
  · rw [hrun] at hfailure hparser
    obtain rfl := Option.some.inj hfailure
    exact ⟨houtcome, hparser⟩
  · simp [hrun] at hnone

/-- A text that ends too early, or in a statement that is not valid, does so again. -/
theorem fixed_of_finish (hlimit : p.tooLong = false) (hend : p.cursor.atEnd = true)
    (hfinish : p.finish = .error e) : p.Fixed e := by
  have hrun := run_of_atEnd hend
  rcases parse_cases hlimit with
    ⟨e', hfailure, -⟩ | ⟨-, ⟨e', he', houtcome, hparser⟩ | ⟨s, hs, -⟩⟩
  · simp [hrun] at hfailure
  · rw [hrun] at he' hparser
    obtain rfl := Except.error.inj (he'.symm.trans hfinish)
    exact ⟨houtcome, hparser⟩
  · rw [hrun, hfinish] at hs
    cases hs

theorem Steps.tooLong_eq {ts : List Token} {q : Parser} (h : Steps p ts q) :
    q.tooLong = p.tooLong := by
  refine h.preserves (P := fun q => q.tooLong = p.tooLong) ?_ rfl
  intro a b ha _ hstep
  obtain ⟨draft, -, rfl⟩ := step_eq_ok_iff.mp hstep
  exact ha

/-- A call that fails leaves a parser that fails in the same way. -/
theorem fixed_of_error (hp : p.draft.Pictured) (h : p.parse.outcome = .error e) :
    p.parse.parser.Fixed e := by
  cases hlimit : p.tooLong with
  | true =>
      obtain ⟨houtcome, hparser⟩ := parse_tooLong hlimit
      rw [hparser]
      exact ⟨h, hparser⟩
  | false =>
      obtain ⟨ts, hsteps, hlast⟩ := steps_run hp
      have hlong : p.run.parser.tooLong = false := hsteps.tooLong_eq.trans hlimit
      rcases parse_cases hlimit with
        ⟨e', hfailure, houtcome, hparser⟩ |
          ⟨hnone, ⟨e', hfinish, houtcome, hparser⟩ | ⟨s, -, houtcome, -⟩⟩
      · obtain rfl := Except.error.inj (houtcome.symm.trans h)
        rw [hfailure] at hlast
        rw [hparser]
        exact fixed_of_refused hlong hlast.1 hlast.2
      · obtain rfl := Except.error.inj (houtcome.symm.trans h)
        rw [hnone] at hlast
        rw [hparser]
        exact fixed_of_finish hlong hlast hfinish
      · rw [houtcome] at h
        cases h

/-! ## After a success -/

theorem finish_release (hend : p.draft.state.isAccepting = true) :
    p.release.finish = .error (.semantic p.cursor.offset .unknownKind) := by
  have hstate : p.release.draft.state.isAccepting = true := hend
  rw [finish, if_pos hstate]
  rfl

/-- A parser whose statement is taken away has no kind of statement left. -/
theorem fixed_of_ok (h : (ofText settings text).parse.outcome = .ok s) :
    (ofText settings text).parse.parser.Fixed
      (.semantic (byteLength (cursorText settings text)) .unknownKind) := by
  obtain ⟨hlimit, -⟩ := parse_eq_ok_iff.mp h
  obtain ⟨ts, hsteps, hlast⟩ := steps_run (p := ofText settings text) rfl
  rcases parse_cases hlimit with
    ⟨e, -, houtcome, -⟩ | ⟨hnone, ⟨e, -, houtcome, -⟩ | ⟨s', hfinish, -, hparser⟩⟩
  · rw [houtcome] at h
    cases h
  · rw [houtcome] at h
    cases h
  · rw [hnone] at hlast
    have haccepting := (finish_eq_ok_iff.mp hfinish).1
    rw [hparser, ← hsteps.offset_eq hlast]
    exact fixed_of_finish (hsteps.tooLong_eq.trans hlimit) hlast (finish_release haccepting)

end Parser

/-- A step that fails leaves the position, the state, the statement and the open parts
as it finds them, wherever the parser of a text has come to.  If the first call fails,
all later ones fail with its error, and each leaves the parser as it finds it.  If the
first call succeeds, all later ones fail at the end of the text, because no statement is
left. -/
theorem later_calls_stable (settings : Settings) (text : String) :
    (∀ p q e, Parser.Reachable settings text p → p.cursor.atEnd = false →
      p.step = .error e q → q = p) ∧
      (∀ e, (Parser.ofText settings text).parse.outcome = .error e →
        (∀ times, (Parser.ofText settings text).parseRepeatedly times =
          List.replicate times (.error e)) ∧
        ∀ calls, ((Parser.ofText settings text).after (calls + 1)).parse.parser =
          (Parser.ofText settings text).after (calls + 1)) ∧
      (∀ s, (Parser.ofText settings text).parse.outcome = .ok s → ∀ times,
        (Parser.ofText settings text).parseRepeatedly (times + 1) =
          .ok s :: List.replicate times
            (.error (.semantic (byteLength (cursorText settings text)) .unknownKind))) ∧
      Reason.unknownKind.message = "statement kind is not recognized" := by
  refine ⟨?_, ?_, ?_, rfl⟩
  · intro p q e hp hend hstep
    exact hp.refused hend hstep
  · intro e he
    have hfixed := Parser.fixed_of_error (p := .ofText settings text) rfl he
    constructor
    · intro times
      cases times with
      | zero => rfl
      | succ times => rw [Parser.parseRepeatedly, he, hfixed.parseRepeatedly]; rfl
    · intro calls
      rw [Parser.after, hfixed.after]
      exact hfixed.2
  · intro s hs times
    have hfixed := Parser.fixed_of_ok hs
    rw [Parser.parseRepeatedly, hs, hfixed.parseRepeatedly]

/-- An update whose filter is missing, and a deletion: each is asked for three
times. -/
theorem later_calls_stable_thrice :
    (Parser.ofText {} "UPDATE t SET a = 1").parseRepeatedly 3 =
        List.replicate 3 (.error (.semantic 18 .missingFilter)) ∧
      (Parser.ofText {} "DELETE FROM t WHERE a = 1 ;").parseRepeatedly 3 =
        [.ok { kind := .delete, tables := ["t"],
               conditions := [⟨.field "a", some (.compare .eq (.literal "1"))⟩] },
          .error (.semantic 25 .unknownKind), .error (.semantic 25 .unknownKind)] := by
  have hfails : (Parser.ofText {} "UPDATE t SET a = 1").parse.outcome =
      .error (.semantic 18 .missingFilter) := by
    decide +kernel
  have hreads : (Parser.ofText {} "DELETE FROM t WHERE a = 1 ;").parse.outcome =
      .ok { kind := .delete, tables := ["t"],
            conditions := [⟨.field "a", some (.compare .eq (.literal "1"))⟩] } := by
    decide +kernel
  have hlength : byteLength (cursorText {} "DELETE FROM t WHERE a = 1 ;") = 25 := by
    decide +kernel
  have hafter := (later_calls_stable {} "DELETE FROM t WHERE a = 1 ;").2.2.1 _ hreads 2
  rw [hlength] at hafter
  exact ⟨((later_calls_stable {} "UPDATE t SET a = 1").2.1 _ hfails).1 3, hafter⟩

end SqlReader
