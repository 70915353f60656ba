import SqlReader.Log
import SqlReader.Statement.Validity
import SqlReader.Text.Quoted
import SqlReader.Transitions

/-!
# Parsing

A parser runs the grammar over a text until the text ends or a token is refused, and
goes on from what the last step leaves.  Each call also tells what it did: the
transitions that it made and the records that it logs.
-/

namespace SqlReader

open Text

structure Transition where
  source : State
  target : State
  offset : Nat
  deriving DecidableEq

def Transition.record (t : Transition) : Record :=
  ⟨.trace, t.source.name ++ " -> " ++ t.target.name ++ s!" at offset {t.offset}"⟩

/-- What became of the tokens of a text: the steps made, the parser that they leave,
and the error of the token that stopped it. -/
structure Run where
  steps : List Transition
  parser : Parser
  failure : Option Error

structure Report where
  outcome : Except Error Statement
  log : List Record
  parser : Parser

/-- The part of a text that is read as a statement. -/
def statementText (settings : Settings) (text : List Char) : List Char :=
  if settings.trailingSemicolon then dropFinal ';' (trimEnd text) else trimEnd text

namespace Parser

def ofText (settings : Settings) (text : String) : Parser where
  settings
  length := byteLength text.toList
  cursor := .ofText (statementText settings text.toList)
  draft := {}

def explain (p : Parser) : Refusal → Error
  | .unexpected =>
    let found := if p.cursor.atEnd then none else some (String.ofList p.cursor.fragment)
    .syntactic p.cursor.offset (.expected p.draft.state.expectation found)
  | .breaks reason => .semantic p.cursor.offset reason
  | .internal text => .internal text

def step (p : Parser) : EStateM.Result Error Parser Unit :=
  match (ParserM.step p.cursor.peek).run p with
  | .ok next q => .ok () { q with draft := { q.draft with state := next } }
  | .error refusal q => .error (q.explain refusal) q

/-- A step does to the parser what its draft does with the token, and leaves the parser
alone when the token is refused. -/
theorem step_spec (p : Parser) :
    match p.draft.accept p.cursor.peek p.cursor.rest with
    | .ok draft => p.step = .ok () { p with draft, cursor := p.advance }
    | .error (.internal text) => ∃ q, p.step = .error (.internal text) q
    | .error refusal => p.step = .error (p.explain refusal) p := by
  have hmakes := step_makes p p.cursor.peek
  unfold Draft.accept Draft.follow step
  cases hmove : p.draft.move? p.cursor.peek p.cursor.rest with
  | none =>
      rw [hmove] at hmakes
      rw [show (ParserM.step p.cursor.peek).run p = .error .unexpected p from hmakes]
  | some m =>
      rw [hmove] at hmakes
      unfold Makes at hmakes
      cases happly : p.draft.apply m.change with
      | ok draft =>
          simp only [happly] at hmakes
          rw [hmakes]
          simp [bind, Except.bind, happly, Draft.goto]
      | error refusal =>
          simp only [happly] at hmakes
          cases refusal with
          | internal text =>
              obtain ⟨q, hq⟩ := hmakes
              rw [hq]
              simp [bind, Except.bind, happly, explain]
          | _ =>
              rw [hmakes]
              simp [bind, Except.bind, happly]

theorem advance_rest_length_lt {p : Parser} (h : p.cursor.atEnd = false) :
    p.advance.rest.length < p.cursor.rest.length := by
  unfold advance
  split
  · have : p.cursor.rest ≠ [] := by
      intro h'
      simp [Cursor.atEnd, h'] at h
    simpa [Cursor.popRest] using List.length_pos_iff.2 this
  · exact Cursor.pop_rest_length_lt h

theorem step_cursor {p q : Parser} (h : p.step = .ok () q) : q.cursor = p.advance := by
  have hspec := p.step_spec
  rw [h] at hspec
  split at hspec
  · cases hspec
    rfl
  · obtain ⟨q, hq⟩ := hspec
    cases hq
  · cases hspec

/-- Takes tokens until the text ends or a token is refused. -/
def run (p : Parser) : Run :=
  if _hend : p.cursor.atEnd then ⟨[], p, none⟩
  else
    match _hstep : p.step with
    | .error e q => ⟨[], q, some e⟩
    | .ok () q =>
      let later := q.run
      { later with steps := ⟨p.draft.state, q.draft.state, p.cursor.offset⟩ :: later.steps }
termination_by p.cursor.rest.length
decreasing_by
  rw [step_cursor _hstep]
  exact advance_rest_length_lt (by simpa using _hend)

def finish (p : Parser) : Except Error Statement :=
  if p.draft.state.isAccepting then
    match p.draft.statement.validate p.cursor.offset with
    | .ok () => .ok p.draft.statement
    | .error e => .error e
  else .error (.syntactic p.cursor.offset (.expected p.draft.state.expectation none))

def tooLong (p : Parser) : Bool :=
  p.settings.maxInputLength ≠ 0 && p.settings.maxInputLength.toNat < p.length

/-- Takes the finished statement away. -/
def release (p : Parser) : Parser := { p with draft := { p.draft with statement := {} } }

def successRecord (s : Statement) : Record :=
  ⟨.debug, "parsed " ++ s.kind.display ++ " statement on " ++ Quoted.list s.tables⟩

def failureRecord (p : Parser) (e : Error) : Record :=
  match e.pointer? (String.ofList p.cursor.input) with
  | some pointer => ⟨.debug, pointer ++ "\n" ++ e.message⟩
  | none => ⟨.debug, e.message⟩

def fail (p : Parser) (steps : List Transition) (e : Error) : Report where
  outcome := .error e
  log := steps.map (·.record) ++ (if p.settings.logErrors then [p.failureRecord e] else [])
  parser := p

def parse (p : Parser) : Report :=
  if p.tooLong then p.fail [] (.inputTooLong p.length p.settings.maxInputLength.toNat)
  else
    let run := p.run
    match run.failure with
    | some e => run.parser.fail run.steps e
    | none =>
      match run.parser.finish with
      | .error e => run.parser.fail run.steps e
      | .ok statement =>
        { outcome := .ok statement
          log := run.steps.map (·.record) ++ [successRecord statement]
          parser := run.parser.release }

/-- The outcomes of `times` calls, one after the other on the same parser. -/
def parseRepeatedly (p : Parser) : Nat → List (Except Error Statement)
  | 0 => []
  | times + 1 =>
    let report := p.parse
    report.outcome :: report.parser.parseRepeatedly times

end Parser

/-- The statement that a text spells. -/
def parseOne (settings : Settings) (text : String) : Except Error Statement :=
  (Parser.ofText settings text).parse.outcome

end SqlReader
