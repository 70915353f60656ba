import SqlReader.Proofs.Bytes.Cursor
import SqlReader.Proofs.Stability
import SqlReader.Proofs.Trace

/-!
# Progress of a cursor

A cursor that counts bytes would never leave the inside of a character.  It never
comes there: between operations it stands at a character that is no white space, or
at the end of its text.  From there every token moves it on, so that the loops over
the tokens of a text need no more rounds than the text has bytes.
-/

namespace SqlReader

open Text

/-! ## What operations keep -/

namespace Cursor

variable {c : Cursor}

structure Ready (c : Cursor) : Prop where
  placed : c.Placed
  settled : c.Settled

theorem ready_ofText (text : List Char) : (ofText text).Ready :=
  ⟨placed_ofText text, settled_skipSpace _⟩

theorem Ready.perform (h : c.Ready) (op : Operation) : (c.perform op).2.Ready := by
  cases op with
  | pop => exact ⟨h.placed.pop, settled_skipSpace _⟩
  | popRest => exact ⟨c.placed_popRest, c.settled_popRest⟩
  | _ => exact h

theorem perform_input (c : Cursor) (op : Operation) : (c.perform op).2.input = c.input := by
  cases op <;> rfl

theorem perform_of_peeks {op : Operation} (hop : op.peeks = true) : (c.perform op).2 = c := by
  cases op with
  | pop => cases hop
  | popRest => cases hop
  | _ => rfl

theorem Placed.offset_le_perform (h : c.Placed) (op : Operation) :
    c.offset ≤ (c.perform op).2.offset := by
  cases op with
  | pop =>
      have hpop : c.offset + c.lexeme.size ≤ c.pop.offset := Nat.le_add_right _ _
      exact Nat.le_trans (Nat.le_add_right _ _) hpop
  | popRest => exact h.offset_le_byteLength
  | _ => exact Nat.le_refl _

/-- Several operations give the same on both cursors. -/
theorem Ready.performAll (h : c.Ready) (ops : List Operation) :
    (c.performAll ops).2.Ready ∧ (c.performAll ops).2.input = c.input ∧
      c.inBytes.performAll? ops =
        some ((c.performAll ops).1, (c.performAll ops).2.inBytes) := by
  induction ops generalizing c with
  | nil => exact ⟨h, rfl, rfl⟩
  | cons op ops ih =>
      obtain ⟨hready, hinput, hrest⟩ := ih (h.perform op)
      refine ⟨hready, hinput.trans (c.perform_input op), ?_⟩
      rw [ByteCursor.performAll?, h.placed.perform?_inBytes op]
      simp only [hrest, Option.map_some]
      rfl

end Cursor

/-! ## Inside a character -/

namespace ByteCursor

variable {c : ByteCursor}

theorem rest_of_not_isBoundary (h : ¬ IsBoundary c.input c.offset) : c.rest = [] := by
  have hnone : dropBytes? c.offset c.input = none := by
    rwa [← Option.not_isSome_iff_eq_none, isSome_dropBytes?_iff]
  rw [rest, hnone, Option.getD_none]

theorem pop?_of_not_isBoundary (h : ¬ IsBoundary c.input c.offset) :
    c.pop? = some (.endOfText, c) := by
  have hrest := rest_of_not_isBoundary h
  have hlexeme : c.lexeme? = some (.endOfText, 0) := by
    rw [lexeme?, hrest]
    rfl
  have hstays : skipSpace { c with offset := c.offset + 0 } = c := by
    rw [Nat.add_zero, skipSpace, hrest]
    rfl
  rw [pop?, hlexeme, Option.map_some, hstays]

/-- No number of rounds leads out of a character: there the cursor finds no token,
and does not move. -/
theorem tokens?_of_not_isBoundary (h : ¬ IsBoundary c.input c.offset) (hend : c.atEnd = false)
    (rounds : Nat) : c.tokens? rounds = none := by
  induction rounds with
  | zero => rw [tokens?, if_neg (by simp [hend])]
  | succ rounds ih =>
      rw [tokens?, if_neg (by simp [hend])]
      simp only [pop?_of_not_isBoundary h, ih, Option.map_none]

end ByteCursor

/-! ## The invariant -/

namespace ByteCursor

/-- How an operation may change a cursor. -/
structure Follows (op : Cursor.Operation) (c next : ByteCursor) : Prop where
  input_eq : next.input = c.input
  le : c.offset ≤ next.offset
  stays : op.peeks = true → next = c

/-- Where a cursor stands between operations, and where they lead it. -/
structure Sound (c : ByteCursor) : Prop where
  /-- It stands at a character or at the end. -/
  boundary : IsBoundary c.input c.offset
  le_length : c.offset ≤ byteLength c.input
  /-- It does not stand on white space. -/
  at_token : c.offset < byteLength c.input →
    ∃ b, (bytes c.input)[c.offset]? = some b ∧ isSpaceByte b = false
  /-- What follows it is cut out of the text. -/
  rest_cut : dropBytes? c.offset c.input = some c.rest
  /-- Every operation has an answer. -/
  goes_on : ∀ op, ∃ answer next, c.perform? op = some (answer, next) ∧ Follows op c next
  /-- Before the end there is a token, and it moves the cursor on. -/
  moves_on : c.atEnd = false →
    ∃ t length next, c.lexeme? = some (t, length) ∧ 0 < length ∧ length ≤ byteLength c.rest ∧
      IsBoundary c.rest length ∧ c.pop? = some (t, next) ∧ c.offset < next.offset

end ByteCursor

namespace Cursor

variable {c : Cursor}

theorem Placed.follows_perform (h : c.Placed) (op : Operation) :
    ByteCursor.Follows op c.inBytes (c.perform op).2.inBytes where
  input_eq := c.perform_input op
  le := h.offset_le_perform op
  stays hop := by rw [perform_of_peeks hop]

theorem Ready.exists_byte (h : c.Ready) (hlt : c.offset < byteLength c.input) :
    ∃ b, (bytes c.input)[c.offset]? = some b ∧ isSpaceByte b = false := by
  obtain ⟨before, hinput, hoffset⟩ := h.placed
  have hne : c.rest ≠ [] := by
    intro hnil
    rw [hinput, hnil, List.append_nil, hoffset] at hlt
    exact Nat.lt_irrefl _ hlt
  obtain ⟨d, ds, hrest⟩ := List.exists_cons_of_ne_nil hne
  obtain ⟨b, bs, hbytes, hb⟩ := sameClass_space.exists_utf8EncodeChar d
  refine ⟨b, ?_, hb.trans (h.settled d (by rw [hrest]; rfl))⟩
  rw [hinput, ← hoffset, ← List.head?_drop, drop_bytes, hrest, bytes_cons, hbytes]
  rfl

theorem isBoundary_lexeme (c : Cursor) : IsBoundary c.rest c.lexeme.size := by
  have happend := isBoundary_append c.lexeme.text c.lexeme.rest
  rwa [lexeme, scan_append] at happend

theorem Ready.sound (h : c.Ready) : c.inBytes.Sound where
  boundary := by
    obtain ⟨before, hinput, hoffset⟩ := h.placed
    exact ⟨before, c.rest, hinput, hoffset⟩
  le_length := h.placed.offset_le_byteLength
  at_token := h.exists_byte
  rest_cut := by
    rw [h.placed.rest_inBytes]
    exact h.placed.dropBytes?
  goes_on op := ⟨_, _, h.placed.perform?_inBytes op, h.placed.follows_perform op⟩
  moves_on hend := by
    rw [h.placed.atEnd_inBytes] at hend
    rw [h.placed.rest_inBytes]
    exact ⟨c.peek, c.lexeme.size, c.pop.inBytes, h.placed.lexeme?_inBytes, lexeme_size_pos hend,
      c.isBoundary_lexeme.le_byteLength, c.isBoundary_lexeme, h.placed.pop?_inBytes,
      offset_lt_pop hend⟩

/-! ## Loops over tokens -/

/-- As the cursor moves on, less of the text is left. -/
theorem Placed.byteLength_rest_lt {next : Cursor} (h : c.Placed) (hnext : next.Placed)
    (hinput : next.input = c.input) (hlt : c.offset < next.offset) :
    byteLength next.rest < byteLength c.rest := by
  have hlength := h.byteLength_input
  have hlength' := hnext.byteLength_input
  rw [hinput] at hlength'
  omega

theorem Placed.byteLength_rest_le (h : c.Placed) : byteLength c.rest ≤ byteLength c.input := by
  rw [h.byteLength_input]
  exact Nat.le_add_left _ _

/-- With no byte left there is no token left. -/
theorem atEnd_of_byteLength_rest (h : byteLength c.rest ≤ 0) : c.atEnd = true := by
  by_contra hend
  have hpos := byteLength_pos (rest_ne_nil (Bool.eq_false_of_not_eq_true hend))
  omega

theorem Placed.tokens?_inBytes (h : c.Placed) {rounds : Nat}
    (hrounds : byteLength c.rest ≤ rounds) : c.inBytes.tokens? rounds = some c.tokens := by
  induction rounds generalizing c with
  | zero =>
      have hend := atEnd_of_byteLength_rest hrounds
      rw [ByteCursor.tokens?, h.atEnd_inBytes, if_pos hend, tokens.eq_def, dif_pos hend]
  | succ rounds ih =>
      rw [ByteCursor.tokens?, h.atEnd_inBytes, tokens.eq_def]
      cases hend : c.atEnd with
      | true => rfl
      | false =>
          have hlt : byteLength c.pop.rest < byteLength c.rest :=
            h.byteLength_rest_lt h.pop rfl (offset_lt_pop hend)
          have hlater := ih h.pop (by omega)
          simp only [h.pop?_inBytes, hlater, Option.map_some]
          rfl

end Cursor

namespace Parser

variable {p : Parser} {settings : Settings} {text : String}

@[simp] theorem cursor_inBytes (p : Parser) : p.inBytes.cursor = p.cursor.inBytes := rfl

@[simp] theorem draft_inBytes (p : Parser) : p.inBytes.draft = p.draft := rfl

theorem explain?_inBytes (h : p.cursor.Placed) (refusal : Refusal) :
    p.inBytes.explain? refusal = some (p.explain refusal) := by
  cases refusal with
  | unexpected =>
      rw [ByteParser.explain?, cursor_inBytes, h.atEnd_inBytes, h.fragment?_inBytes, explain]
      cases p.cursor.atEnd <;> rfl
  | breaks reason => rfl
  | internal message => rfl

theorem advance?_inBytes (h : p.cursor.Placed) :
    p.inBytes.advance? = some p.advance.inBytes := by
  rw [ByteParser.advance?, cursor_inBytes, h.pop?_inBytes, draft_inBytes, advance]
  split <;> rfl

/-- A run ends after at most as many tokens as bytes are left. -/
theorem run?_inBytes (h : p.cursor.Placed)
    (hdraft : p.cursor.atEnd = false → p.draft.Pictured) {rounds : Nat}
    (hrounds : byteLength p.cursor.rest ≤ rounds) :
    p.inBytes.run? rounds = some p.run.inBytes := by
  induction rounds generalizing p with
  | zero =>
      have hend := Cursor.atEnd_of_byteLength_rest hrounds
      rw [ByteParser.run?, cursor_inBytes, h.atEnd_inBytes, if_pos hend, run_of_atEnd hend]
      rfl
  | succ rounds ih =>
      rw [ByteParser.run?, cursor_inBytes, h.atEnd_inBytes]
      cases hend : p.cursor.atEnd with
      | true =>
          rw [run_of_atEnd hend]
          rfl
      | false =>
          simp only [h.lexeme?_inBytes, h.rest_inBytes, draft_inBytes]
          cases haccept : p.draft.accept p.cursor.peek p.cursor.rest with
          | error refusal =>
              obtain ⟨q, hstep⟩ := exists_step_error haccept
              obtain rfl := (step_refused (hdraft hend) hstep).1
              rw [run_of_error hend hstep]
              simp only [explain?_inBytes h, Option.map_some]
              rfl
          | ok draft =>
              have hstep := step_eq_ok_iff.mpr ⟨draft, haccept, rfl⟩
              have hsteps := Steps.head hend hstep (.refl _)
              have hlt := h.byteLength_rest_lt (hsteps.placed h) hsteps.input
                (step_offset_lt h hend hstep)
              have hlater := ih (hsteps.placed h) (fun _ => step_pictured (hdraft hend) hstep)
                (by omega)
              rw [inBytes] at hlater
              rw [run_of_ok hend hstep]
              simp only [advance?_inBytes h, hlater, Option.map_some]
              rfl

theorem Reachable.placed (h : Reachable settings text p) :
    p.cursor.Placed ∧ p.cursor.input = cursorText settings text := by
  induction h with
  | start => exact ⟨Cursor.placed_ofText _, rfl⟩
  | step _ hend hstep ih =>
      have hsteps := Steps.head hend hstep (.refl _)
      exact ⟨hsteps.placed ih.1, hsteps.input.trans ih.2⟩
  | refuse hp hend hstep ih => rwa [hp.refused hend hstep]
  | release _ _ _ ih => exact ih

theorem Reachable.after (h : Reachable settings text p) (calls : Nat) :
    Reachable settings text (p.after calls) := by
  induction calls generalizing p with
  | zero => exact h
  | succ calls ih => exact ih h.parse

theorem ofText_inBytes (settings : Settings) (text : String) :
    (ofText settings text).inBytes =
      ⟨ByteCursor.ofText (statementText settings text.toList), {}⟩ := by
  rw [Cursor.ofText_inBytes]
  rfl

end Parser

/-- Whatever is asked of a cursor, it stays on a token or at the end of its text, it
never goes back, and each token moves it on.  The cursor that counts bytes therefore
cuts its text between characters only and never goes without an answer, and its loops
over the tokens of a text and over the steps of a parser, on any call, come to an
end after at most as many rounds as there are bytes to read. -/
theorem cursor_progresses (text : String) :
    (∀ ops,
      (ByteCursor.ofText text.toList).performAll? ops =
          some (((Cursor.ofText text.toList).performAll ops).1,
            ((Cursor.ofText text.toList).performAll ops).2.inBytes) ∧
        ((Cursor.ofText text.toList).performAll ops).2.input = trimEnd text.toList ∧
        ((Cursor.ofText text.toList).performAll ops).2.inBytes.Sound) ∧
      (ByteCursor.ofText text.toList).tokens? (byteLength (trimEnd text.toList)) =
        some (tokenize text) ∧
      ∀ settings,
        (Parser.ofText settings text).inBytes =
            ⟨ByteCursor.ofText (statementText settings text.toList), {}⟩ ∧
          ∀ calls,
            ((Parser.ofText settings text).after calls).inBytes.run?
                (byteLength (cursorText settings text)) =
              some ((Parser.ofText settings text).after calls).run.inBytes := by
  have hready := Cursor.ready_ofText text.toList
  refine ⟨?_, ?_, fun settings => ⟨Parser.ofText_inBytes settings text, ?_⟩⟩
  · intro ops
    obtain ⟨hlast, hinput, hanswers⟩ := hready.performAll ops
    rw [Cursor.ofText_inBytes]
    exact ⟨hanswers, hinput, hlast.sound⟩
  · rw [Cursor.ofText_inBytes]
    exact hready.placed.tokens?_inBytes hready.placed.byteLength_rest_le
  · intro calls
    have hreachable : Parser.Reachable settings text ((Parser.ofText settings text).after calls) :=
      Parser.Reachable.start.after calls
    obtain ⟨hplaced, hinput⟩ := hreachable.placed
    rw [← hinput]
    exact Parser.run?_inBytes hplaced hreachable.pictured hplaced.byteLength_rest_le

end SqlReader
