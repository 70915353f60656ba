import SqlReader.Grammar.Draft
import SqlReader.Lexicon.Cursor

/-!
# The monad of the parser

The steps of the grammar work on a parser in place: they look at its draft, change
parts of it, and move its cursor past what they have taken.  A refusal ends a step
where it stands, and whatever the step has changed until then stays changed.
-/

namespace SqlReader

structure Settings where
  /-- Longest statement in bytes; 0 means no limit. -/
  maxInputLength : UInt64 := 65536
  /-- Whether one final semicolon is ignored. -/
  trailingSemicolon : Bool := true
  /-- Whether refused statements are logged. -/
  logErrors : Bool := true
  deriving DecidableEq

structure Parser where
  settings : Settings
  /-- Length of the given text in bytes, before anything is trimmed. -/
  length : Nat
  cursor : Cursor
  draft : Draft
  deriving DecidableEq

/-- Work on a parser.  Both ways of ending leave the parser as it then is. -/
abbrev ParserM := EStateM Refusal Parser

namespace ParserM

variable {α β : Type}

def refuse (refusal : Refusal) : ParserM α := throw refusal

def unexpected : ParserM α := refuse .unexpected

def identifier (t : Token) : ParserM String :=
  match t.identifier? with
  | some name => return name
  | none => unexpected

def value (t : Token) : ParserM String :=
  match t.value? with
  | some text => return text
  | none => unexpected

def look (f : Draft → α) : ParserM α := return f (← get).draft

def change (f : Draft → Draft) : ParserM Unit := modify fun p => { p with draft := f p.draft }

/-- Changes a part of the draft that is found first. -/
def attempt (f : Draft → Except Refusal Draft) : ParserM Unit := do
  match f (← get).draft with
  | .ok draft => change fun _ => draft
  | .error refusal => refuse refusal

def require (f : Draft → Except Refusal α) : ParserM α := do
  match f (← get).draft with
  | .ok a => return a
  | .error refusal => refuse refusal

/-- Moves past the token; the grammar goes on in `next`. -/
def advance (next : State) : ParserM State := do
  modify fun p => { p with cursor := p.cursor.pop }
  return next

/-- Takes the text from the token on, up to the end. -/
def takeRest : ParserM (List Char) := do
  let rest := (← get).cursor.rest
  modify fun p => { p with cursor := p.cursor.popRest }
  return rest

def expect (t : Token) (k : Keyword) (next : State) : ParserM State :=
  if t.is k then advance next else unexpected

/-! ## What they do to a parser -/

section Equations

variable (p : Parser) {t : Token} {f : Draft → Except Refusal Draft}

theorem run_get_bind (g : Parser → ParserM β) : (get >>= g).run p = (g p).run p := rfl

@[simp] theorem run_pure_bind (a : α) (g : α → ParserM β) : (pure a >>= g).run p = (g a).run p :=
  rfl

@[simp] theorem run_identifier_bind (g : String → ParserM β) :
    (identifier t >>= g).run p =
      match t.identifier? with
      | some name => (g name).run p
      | none => .error .unexpected p := by
  unfold identifier
  cases t.identifier? <;> rfl

@[simp] theorem run_value_bind (g : String → ParserM β) :
    (value t >>= g).run p =
      match t.value? with
      | some text => (g text).run p
      | none => .error .unexpected p := by
  unfold value
  cases t.value? <;> rfl

@[simp] theorem run_look_bind (g : Draft → α) (h : α → ParserM β) :
    (look g >>= h).run p = (h (g p.draft)).run p := rfl

@[simp] theorem run_change_bind (g : Draft → Draft) (h : Unit → ParserM β) :
    (change g >>= h).run p = (h ()).run { p with draft := g p.draft } := rfl

@[simp] theorem run_attempt_bind (h : Unit → ParserM β) :
    (attempt f >>= h).run p =
      match f p.draft with
      | .ok draft => (h ()).run { p with draft }
      | .error refusal => .error refusal p := by
  rw [attempt, bind_assoc, run_get_bind]
  cases f p.draft <;> rfl

@[simp] theorem run_require_bind {g : Draft → Except Refusal α} (h : α → ParserM β) :
    (require g >>= h).run p =
      match g p.draft with
      | .ok a => (h a).run p
      | .error refusal => .error refusal p := by
  rw [require, bind_assoc, run_get_bind]
  cases g p.draft <;> rfl

@[simp] theorem run_advance (next : State) :
    (advance next).run p = .ok next { p with cursor := p.cursor.pop } := rfl

end Equations

end ParserM

end SqlReader
