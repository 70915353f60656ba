import SqlReader.Parser
import SqlReader.Proofs.Bytes.Scan

/-!
# Cursors that count bytes

A `ByteCursor` knows nothing but its text and its position.  What follows the
position is cut out of the text, and nothing follows a position inside a character:
there no token would be found, and no loop over the tokens would come to an end.
The main statement is that this never comes about.  Between operations the cursor
stands at a character that is no white space, or at the end; each token moves it on;
and the loops over the tokens of a text need no more rounds than the text has bytes.
-/

namespace SqlReader

open Text

structure ByteCursor where
  /-- The whole text. -/
  input : List Char
  /-- Position in bytes. -/
  offset : Nat

namespace ByteCursor

/-- What follows the position; nothing, if it lies inside a character. -/
def rest (c : ByteCursor) : List Char := (dropBytes? c.offset c.input).getD []

def atEnd (c : ByteCursor) : Bool := byteLength c.input ≤ c.offset

def skipSpace (c : ByteCursor) : ByteCursor :=
  { c with offset := c.offset + ((bytes c.rest).takeWhile isSpaceByte).length }

def ofText (text : List Char) : ByteCursor := skipSpace ⟨trimEnd text, 0⟩

def lexeme? (c : ByteCursor) : Option (Token × Nat) := scanBytes? c.rest

def fragment? (c : ByteCursor) : Option (List Char) :=
  c.lexeme?.bind fun found => takeBytes? found.2 c.rest

def pop? (c : ByteCursor) : Option (Token × ByteCursor) :=
  c.lexeme?.map fun found => (found.1, skipSpace { c with offset := c.offset + found.2 })

def popRest (c : ByteCursor) : ByteCursor := { c with offset := byteLength c.input }

end ByteCursor

/-! ## Operations -/

inductive Cursor.Operation
  | peek | peekWithLength | pop | peekRest | popRest | fragment
  deriving DecidableEq

inductive Cursor.Answer
  | token (t : Token)
  | lexeme (t : Token) (length : Nat)
  | text (cs : List Char)
  deriving DecidableEq

def Cursor.Operation.peeks : Operation → Bool
  | pop | popRest => false
  | peek | peekWithLength | peekRest | fragment => true

namespace Cursor

def perform (c : Cursor) : Operation → Answer × Cursor
  | .peek => (.token c.peek, c)
  | .peekWithLength => (.lexeme c.peek c.lexeme.size, c)
  | .pop => (.token c.peek, c.pop)
  | .peekRest => (.text c.rest, c)
  | .popRest => (.text c.rest, c.popRest)
  | .fragment => (.text c.fragment, c)

def performAll (c : Cursor) : List Operation → List Answer × Cursor
  | [] => ([], c)
  | op :: ops =>
    let (answer, next) := c.perform op
    let (answers, last) := next.performAll ops
    (answer :: answers, last)

end Cursor

namespace ByteCursor

open Cursor (Operation Answer)

def perform? (c : ByteCursor) : Operation → Option (Answer × ByteCursor)
  | .peek => c.lexeme?.map fun found => (.token found.1, c)
  | .peekWithLength => c.lexeme?.map fun found => (.lexeme found.1 found.2, c)
  | .pop => c.pop?.map fun popped => (.token popped.1, popped.2)
  | .peekRest => some (.text c.rest, c)
  | .popRest => some (.text c.rest, c.popRest)
  | .fragment => c.fragment?.map fun text => (.text text, c)

def performAll? (c : ByteCursor) : List Operation → Option (List Answer × ByteCursor)
  | [] => some ([], c)
  | op :: ops =>
    match c.perform? op with
    | none => none
    | some (answer, next) =>
      (next.performAll? ops).map fun done => (answer :: done.1, done.2)

/-! ## Loops -/

/-- The tokens from the cursor on, if at most `rounds` rounds lead to the end. -/
def tokens? (c : ByteCursor) (rounds : Nat) : Option (List (Nat × Token)) :=
  if c.atEnd then some []
  else
    match rounds with
    | 0 => none
    | rounds + 1 =>
      match c.pop? with
      | none => none
      | some (t, next) => (next.tokens? rounds).map fun ts => (c.offset, t) :: ts

end ByteCursor

/-- What a parser reads and changes from one token to the next. -/
structure ByteParser where
  cursor : ByteCursor
  draft : Draft

structure ByteRun where
  steps : List Transition
  parser : ByteParser
  failure : Option Error

namespace ByteParser

def explain? (p : ByteParser) : Refusal → Option Error
  | .unexpected =>
    if p.cursor.atEnd then
      some (.syntactic p.cursor.offset (.expected p.draft.state.expectation none))
    else
      p.cursor.fragment?.map fun text =>
        .syntactic p.cursor.offset (.expected p.draft.state.expectation (some (String.ofList text)))
  | .breaks reason => some (.semantic p.cursor.offset reason)
  | .internal text => some (.internal text)

def advance? (p : ByteParser) : Option ByteCursor :=
  if p.draft.state = .view .query then some p.cursor.popRest else p.cursor.pop?.map (·.2)

/-- Takes tokens until the text ends or a token is refused, if at most `rounds`
rounds lead there. -/
def run? (p : ByteParser) (rounds : Nat) : Option ByteRun :=
  if p.cursor.atEnd then some ⟨[], p, none⟩
  else
    match rounds with
    | 0 => none
    | rounds + 1 =>
      match p.cursor.lexeme? with
      | none => none
      | some (t, _) =>
        match p.draft.accept t p.cursor.rest with
        | .error refusal => (p.explain? refusal).map fun e => ⟨[], p, some e⟩
        | .ok draft =>
          match p.advance? with
          | none => none
          | some cursor =>
            (run? { cursor, draft } rounds).map fun later =>
              { later with
                steps := ⟨p.draft.state, draft.state, p.cursor.offset⟩ :: later.steps }

end ByteParser

def Cursor.inBytes (c : Cursor) : ByteCursor := ⟨c.input, c.offset⟩

def Parser.inBytes (p : Parser) : ByteParser := ⟨p.cursor.inBytes, p.draft⟩

def Run.inBytes (r : Run) : ByteRun := ⟨r.steps, r.parser.inBytes, r.failure⟩

/-! ## The two cursors -/

namespace Cursor

variable {c : Cursor}

theorem Placed.dropBytes? (h : c.Placed) : dropBytes? c.offset c.input = some c.rest := by
  obtain ⟨before, hinput, hoffset⟩ := h
  rw [hinput, ← hoffset, dropBytes?_append]

theorem Placed.rest_inBytes (h : c.Placed) : c.inBytes.rest = c.rest := by
  rw [ByteCursor.rest, inBytes, h.dropBytes?, Option.getD_some]

theorem Placed.atEnd_inBytes (h : c.Placed) : c.inBytes.atEnd = c.atEnd := by
  have hlength := h.byteLength_input
  rw [Bool.eq_iff_iff, ByteCursor.atEnd, decide_eq_true_iff, atEnd, List.isEmpty_iff]
  change byteLength c.input ≤ c.offset ↔ c.rest = []
  constructor
  · intro hle
    by_contra hne
    have hpos := byteLength_pos hne
    omega
  · intro hnil
    rw [hlength, hnil, byteLength_nil]
    exact Nat.le_refl _

theorem Placed.skipSpace_inBytes (h : c.Placed) : c.inBytes.skipSpace = c.skipSpace.inBytes := by
  rw [ByteCursor.skipSpace, h.rest_inBytes, sameClass_space.length_takeWhile_bytes,
    byteLength_takeWhile_isSpace]
  rfl

theorem ofText_inBytes (text : List Char) : ByteCursor.ofText text = (ofText text).inBytes := by
  have hplaced : Placed ⟨trimEnd text, 0, trimEnd text⟩ := ⟨[], rfl, rfl⟩
  exact hplaced.skipSpace_inBytes

theorem Placed.lexeme?_inBytes (h : c.Placed) :
    c.inBytes.lexeme? = some (c.peek, c.lexeme.size) := by
  rw [ByteCursor.lexeme?, h.rest_inBytes, scanBytes?_eq]
  rfl

theorem Placed.fragment?_inBytes (h : c.Placed) : c.inBytes.fragment? = some c.fragment := by
  have htake := takeBytes?_append c.lexeme.text c.lexeme.rest
  rw [lexeme, scan_append] at htake
  rw [ByteCursor.fragment?, h.lexeme?_inBytes, h.rest_inBytes]
  exact htake

theorem Placed.pop?_inBytes (h : c.Placed) : c.inBytes.pop? = some (c.peek, c.pop.inBytes) := by
  rw [ByteCursor.pop?, h.lexeme?_inBytes, Option.map_some, Option.some.injEq, Prod.mk.injEq]
  exact ⟨rfl, h.behind.skipSpace_inBytes⟩

/-- Every operation gives the same on both cursors. -/
theorem Placed.perform?_inBytes (h : c.Placed) (op : Operation) :
    c.inBytes.perform? op = some ((c.perform op).1, (c.perform op).2.inBytes) := by
  cases op with
  | peek => rw [ByteCursor.perform?, h.lexeme?_inBytes]; rfl
  | peekWithLength => rw [ByteCursor.perform?, h.lexeme?_inBytes]; rfl
  | pop => rw [ByteCursor.perform?, h.pop?_inBytes]; rfl
  | peekRest => rw [ByteCursor.perform?, h.rest_inBytes]; rfl
  | popRest => rw [ByteCursor.perform?, h.rest_inBytes]; rfl
  | fragment => rw [ByteCursor.perform?, h.fragment?_inBytes]; rfl

end Cursor

end SqlReader
