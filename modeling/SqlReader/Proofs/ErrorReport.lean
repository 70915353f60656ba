import SqlReader.Proofs.ErrorPosition

/-!
# Reports of errors

An error is reported where a token starts or where the text ends, and its message
shows that token or says that the text has ended.  The text is reported as it
was given, although blanks and a semicolon were cut off its end before reading.
-/

namespace SqlReader

open Text

/-! ## Where a cursor stands -/

namespace Cursor

def Settled (c : Cursor) : Prop := ∀ d ∈ c.rest.head?, isSpace d = false

theorem settled_skipSpace (c : Cursor) : c.skipSpace.Settled := head_dropWhile_isSpace c.rest

theorem settled_popRest (c : Cursor) : c.popRest.Settled := by
  rintro d ⟨⟩

end Cursor

namespace Parser

variable {p q : Parser} {settings : Settings} {text : String} {ts : List Token} {e : Error}

theorem Steps.settled (h : Steps p ts q) (hp : p.cursor.Settled) : q.cursor.Settled := by
  refine h.preserves (P := fun p => p.cursor.Settled) ?_ hp
  intro a b _ _ hstep
  rw [step_cursor hstep, advance]
  split
  · exact a.cursor.settled_popRest
  · exact Cursor.settled_skipSpace _

/-! ## Who raises an error -/

/-- The error is a refusal of the parser where it stands. -/
inductive Raises (q : Parser) : Error → Prop
  | unexpected : Raises q (q.explain .unexpected)
  | breaks (reason : Reason) : Raises q (q.explain (.breaks reason))

theorem Raises.offset?_eq (h : q.Raises e) : e.offset? = some q.cursor.offset := by
  cases h with
  | unexpected => rfl
  | breaks reason => rfl

theorem raises_of_step (hq : q.draft.Pictured) (h : q.step = .error e p) : q.Raises e := by
  obtain ⟨-, refusal, -, hplain, rfl⟩ := step_refused hq h
  cases refusal with
  | unexpected => exact .unexpected
  | breaks reason => exact .breaks reason
  | internal message => exact absurd rfl (hplain message)

theorem raises_of_finish (hend : q.cursor.atEnd = true) (h : q.finish = .error e) : q.Raises e := by
  unfold finish Statement.validate at h
  cases haccepting : q.draft.state.isAccepting with
  | true =>
      rw [if_pos haccepting] at h
      cases hfault : q.draft.statement.fault with
      | none => simp [hfault] at h
      | some reason =>
          rw [hfault] at h
          obtain rfl := Except.error.inj h
          exact .breaks reason
  | false =>
      rw [if_neg (by simp [haccepting])] at h
      obtain rfl := Except.error.inj h
      have hraises := Raises.unexpected (q := q)
      rwa [explain, if_pos hend] at hraises

/-- An error with a position is raised somewhere on the way through the text. -/
theorem exists_raises {offset : Nat} (h : parseOne settings text = .error e)
    (hoffset : e.offset? = some offset) :
    ∃ ts q, Steps (.ofText settings text) ts q ∧ q.Raises e := by
  cases hlimit : (ofText settings text).tooLong with
  | true =>
      obtain rfl := Except.error.inj ((parse_tooLong hlimit).1.symm.trans h)
      cases hoffset
  | false =>
      obtain ⟨ts, hsteps, hlast⟩ := steps_run (p := ofText settings text) rfl
      refine ⟨ts, _, hsteps, ?_⟩
      rcases parse_cases hlimit with
        ⟨e', hfailure, houtcome, -⟩ | ⟨hnone, ⟨e', hfinish, houtcome, -⟩ | ⟨s, -, houtcome, -⟩⟩
      · obtain rfl := Except.error.inj (houtcome.symm.trans h)
        rw [hfailure] at hlast
        exact raises_of_step ((Reachable.start.steps hsteps).pictured hlast.1) hlast.2
      · obtain rfl := Except.error.inj (houtcome.symm.trans h)
        rw [hnone] at hlast
        exact raises_of_finish hlast hfinish
      · simp [parseOne, houtcome] at h

end Parser

/-! ## The last words of a message -/

namespace Reason

theorem message_expected_none (wanted : String) :
    (expected wanted none).message = "expected " ++ wanted ++ ", " ++ "found end of input" := by
  rw [String.append_assoc]
  rfl

theorem message_expected_some (wanted fragment : String) :
    (expected wanted (some fragment)).message =
      "expected " ++ wanted ++ ", " ++ ("found '" ++ fragment ++ "'") := by
  have hcut : ", found '" = ", " ++ "found '" := rfl
  calc "expected " ++ wanted ++ ", found '" ++ fragment ++ "'"
    _ = "expected " ++ wanted ++ ", " ++ ("found '" ++ fragment ++ "'") := by
      simp only [hcut, String.append_assoc]

theorem ends_expected_none (wanted : String) :
    "found end of input".toList <:+ (expected wanted none).message.toList :=
  ⟨("expected " ++ wanted ++ ", ").toList, by rw [message_expected_none, ← String.toList_append]⟩

theorem ends_expected_some (wanted fragment : String) :
    ("found '" ++ fragment ++ "'").toList <:+ (expected wanted (some fragment)).message.toList :=
  ⟨("expected " ++ wanted ++ ", ").toList, by rw [message_expected_some, ← String.toList_append]⟩

/-- A message that shows a token ends in a quote. -/
theorem not_ends_expected_some (wanted fragment : String) :
    ¬ "found end of input".toList <:+ (expected wanted (some fragment)).message.toList := by
  rintro ⟨front, hfront⟩
  have hlast := congrArg List.getLast? hfront
  rw [message_expected_some, ← String.append_assoc, String.toList_append,
    List.getLast?_append_of_ne_nil _ (by decide),
    List.getLast?_append_of_ne_nil _ (by decide)] at hlast
  exact absurd hlast (by decide)

end Reason

namespace Parser

variable {q : Parser} {offset : Nat} {reason : Reason}

theorem Raises.eq_expected (h : q.Raises (.syntactic offset reason)) :
    reason = .expected q.draft.state.expectation
      (if q.cursor.atEnd then none else some (String.ofList q.cursor.fragment)) := by
  generalize he : Error.syntactic offset reason = e at h
  cases h with
  | unexpected => exact (Error.syntactic.inj he).2
  | breaks reason => cases he

/-- The message says that the text has ended, or shows the next token, as the case is. -/
theorem Raises.says (h : q.Raises (.syntactic offset reason)) :
    q.cursor.rest = [] ∧ "found end of input".toList <:+ reason.message.toList ∨
      q.cursor.rest ≠ [] ∧ ¬ "found end of input".toList <:+ reason.message.toList ∧
        ("found '" ++ String.ofList q.cursor.fragment ++ "'").toList <:+
          reason.message.toList := by
  rw [h.eq_expected]
  cases hend : q.cursor.atEnd with
  | true => exact .inl ⟨by simpa [Cursor.atEnd] using hend, Reason.ends_expected_none _⟩
  | false =>
      exact .inr ⟨by simpa [Cursor.atEnd] using hend, Reason.not_ends_expected_some _ _,
        Reason.ends_expected_some _ _⟩

end Parser

/-! ## Reports -/

/-- What a reader of the text sees of an error: `before` is the text in front of
its position, and `after` what was read from there on. -/
structure Located (settings : Settings) (text : String) (e : Error) (offset : Nat)
    (before after : List Char) : Prop where
  read : cursorText settings text <+: text.toList
  cut : cursorText settings text = before ++ after
  position : byteLength before = offset
  inside : offset ≤ byteLength (cursorText settings text)
  /-- The position is one in the given text, between two characters. -/
  boundary : takeBytes? offset text.toList = some before
  unclamped : offset ≤ byteLength text.toList
  token : ∀ c ∈ after.head?, isSpace c = false
  /-- The message of a syntax error ends in what was found at the position. -/
  ended : ∀ reason, e = .syntactic offset reason →
    ("found end of input".toList <:+ reason.message.toList ↔
      offset = byteLength (cursorText settings text))
  found : ∀ reason, e = .syntactic offset reason → offset ≠ byteLength (cursorText settings text) →
    (scan after).text ≠ [] ∧ (scan after).text <+: after ∧
      ("found '" ++ String.ofList (scan after).text ++ "'").toList <:+ reason.message.toList
  pointer : e.pointer? text =
    some (text ++ "\n" ++ String.ofList (List.replicate before.length ' ') ++ "^")

/-- Every error with a position is shown at a place in the text: where the text
that is read ends, or at the first character of a token. -/
theorem exists_located {settings : Settings} {text : String} {e : Error} {offset : Nat}
    (h : parseOne settings text = .error e) (hoffset : e.offset? = some offset) :
    ∃ before after, Located settings text e offset before after := by
  obtain ⟨ts, q, hsteps, hraises⟩ := Parser.exists_raises h hoffset
  obtain rfl : q.cursor.offset = offset := Option.some.inj (hraises.offset?_eq.symm.trans hoffset)
  obtain ⟨before, hinput, hlength⟩ := hsteps.placed (Cursor.placed_ofText _)
  have hcut : cursorText settings text = before ++ q.cursor.rest := hsteps.input.symm.trans hinput
  have hbytes : byteLength (cursorText settings text) =
      q.cursor.offset + byteLength q.cursor.rest := by
    rw [hcut, byteLength_append, hlength]
  obtain ⟨tail, htail⟩ := isPrefix_cursorText settings text
  have hboundary : takeBytes? q.cursor.offset text.toList = some before := by
    rw [← hlength, ← htail, hcut, List.append_assoc, takeBytes?_append]
  have hunclamped : q.cursor.offset ≤ byteLength text.toList := by
    rw [← htail, byteLength_append, hbytes]
    omega
  refine ⟨before, q.cursor.rest, ⟨tail, htail⟩, hcut, hlength, by omega, hboundary, hunclamped,
    hsteps.settled (Cursor.settled_skipSpace _), ?ended, ?found, ?pointer⟩
  case ended =>
    rintro reason rfl
    rcases hraises.says with ⟨hrest, hends⟩ | ⟨hrest, hends, -⟩
    · exact iff_of_true hends (by simp [hbytes, hrest])
    · have hpos := byteLength_pos hrest
      exact iff_of_false hends (by omega)
  case found =>
    rintro reason rfl hne
    rcases hraises.says with ⟨hrest, -⟩ | ⟨hrest, -, hfound⟩
    · exact absurd (by simp [hbytes, hrest]) hne
    · exact ⟨List.length_pos_iff.mp (scan_text_length_pos hrest),
        ⟨_, scan_append q.cursor.rest⟩, hfound⟩
  case pointer =>
    rw [Error.pointer?, hoffset, Option.map_some, Error.pointerColumn, hboundary]
    rfl

/-- A character of two bytes stands before the error and one after it, and what
is cut off the end has blanks of several bytes. -/
theorem exists_located_oder :
    parseOne {} "DELETE FROM t WHERE a = 'é' oder b = 'ü';\u2003" =
        .error (.syntactic 29 (.expected "AND, OR or end of statement" (some "oder"))) ∧
      ∃ before after, Located {} "DELETE FROM t WHERE a = 'é' oder b = 'ü';\u2003"
        (.syntactic 29 (.expected "AND, OR or end of statement" (some "oder"))) 29
        before after := by
  have h : parseOne {} "DELETE FROM t WHERE a = 'é' oder b = 'ü';\u2003" =
      .error (.syntactic 29 (.expected "AND, OR or end of statement" (some "oder"))) := by
    decide +kernel
  exact ⟨h, exists_located h rfl⟩

end SqlReader
