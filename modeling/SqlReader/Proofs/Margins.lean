import SqlReader.Proofs.Verdict

/-!
# The margins of a text

White space in front of a statement moves the positions of its errors and does
nothing else; blanks behind it, with one final semicolon among them where the
settings ignore it, do nothing at all.  Two runs that differ in their positions
only are followed side by side.
-/

namespace SqlReader

open Text

/-! ## Positions that are moved -/

def Error.moved (n : Nat) : Error → Error
  | .syntactic offset reason => .syntactic (offset + n) reason
  | .semantic offset reason => .semantic (offset + n) reason
  | e => e

@[simp] theorem Error.moved_zero (e : Error) : e.moved 0 = e := by
  cases e <;> rfl

namespace Parser

variable {n : Nat} {p q p' : Parser}

/-- The parsers have the same draft and the same text left, but `q` has `n` bytes
more behind it. -/
structure Displaced (n : Nat) (p q : Parser) : Prop where
  draft : q.draft = p.draft
  rest : q.cursor.rest = p.cursor.rest
  offset : q.cursor.offset = p.cursor.offset + n
  input : byteLength q.cursor.input = byteLength p.cursor.input + n

namespace Displaced

variable (h : Displaced n p q)
include h

theorem atEnd : q.cursor.atEnd = p.cursor.atEnd := by
  rw [Cursor.atEnd, Cursor.atEnd, h.rest]

theorem lexeme : q.cursor.lexeme = p.cursor.lexeme := by
  rw [Cursor.lexeme, Cursor.lexeme, h.rest]

theorem accept : q.draft.accept q.cursor.peek q.cursor.rest =
    p.draft.accept p.cursor.peek p.cursor.rest := by
  rw [Cursor.peek, Cursor.peek, h.lexeme, h.draft, h.rest]

theorem explain (refusal : Refusal) : q.explain refusal = (p.explain refusal).moved n := by
  cases refusal with
  | unexpected =>
      rw [Parser.explain, Parser.explain, h.atEnd, h.draft, h.offset, Cursor.fragment, h.lexeme]
      rfl
  | breaks reason =>
      rw [Parser.explain, Parser.explain, h.offset]
      rfl
  | internal text => rfl

theorem advance (d : Draft) :
    Displaced n { p with draft := d, cursor := p.advance }
      { q with draft := d, cursor := q.advance } := by
  unfold Parser.advance
  rw [h.draft]
  split
  -- the query of a view is passed in one go, to an offset that is the length of the text
  · exact ⟨rfl, rfl, h.input, h.input⟩
  · refine ⟨rfl, ?_, ?_, h.input⟩
    · rw [Cursor.pop, Cursor.pop, h.lexeme]
      rfl
    · simp only [Cursor.pop, Cursor.skipSpace, h.lexeme, h.offset]
      omega

theorem step_ok (hstep : p.step = .ok () p') : ∃ q', q.step = .ok () q' ∧ Displaced n p' q' := by
  obtain ⟨d, haccept, rfl⟩ := step_eq_ok_iff.mp hstep
  exact ⟨_, step_eq_ok_iff.mpr ⟨d, h.accept.trans haccept, rfl⟩, h.advance d⟩

theorem step_error {e : Error} (hstep : p.step = .error e p') :
    ∃ q', q.step = .error (e.moved n) q' := by
  obtain ⟨refusal, haccept, rfl, -⟩ := step_eq_error hstep
  rw [← h.explain]
  exact exists_step_error (h.accept.trans haccept)

theorem finish : q.finish = p.finish.mapError (Error.moved n) := by
  unfold Parser.finish Statement.validate
  rw [h.draft, h.offset]
  cases p.draft.state.isAccepting with
  | false => rfl
  | true => cases p.draft.statement.fault <;> rfl

omit h in
/-- Along the whole run the parsers stay displaced, so only errors tell them apart. -/
theorem answer (h : Displaced n p q) : q.answer = p.answer.mapError (Error.moved n) := by
  induction p using Parser.run.induct generalizing q with
  | case1 p hend => rw [answer_of_atEnd hend, answer_of_atEnd (h.atEnd.trans hend), h.finish]
  | case2 p hend e p' hstep =>
      have hend : p.cursor.atEnd = false := by simpa using hend
      obtain ⟨q', hstep'⟩ := h.step_error hstep
      rw [answer_of_error hend hstep, answer_of_error (h.atEnd.trans hend) hstep']
      rfl
  | case3 p hend p' hstep ih =>
      have hend : p.cursor.atEnd = false := by simpa using hend
      obtain ⟨q', hstep', h'⟩ := h.step_ok hstep
      rw [answer_of_step hend hstep, answer_of_step (h.atEnd.trans hend) hstep', ih h']

end Displaced

end Parser

/-! ## Texts that are read alike -/

section CursorText

variable {settings settings' : Settings} {cs before gap u : List Char} {text x y : String}

theorem byteLength_of_isSpace (h : ∀ c ∈ gap, isSpace c = true) : byteLength gap = gap.length := by
  rw [← List.takeWhile_eq_self_iff.mpr h, Cursor.byteLength_takeWhile_isSpace]

/-- White space in front of what is read moves the errors and changes no statement. -/
theorem parseOne_of_cursorText (hx : WithinLimit settings x) (hy : WithinLimit settings' y)
    (hu : ∀ c ∈ u, isSpace c = true)
    (h : cursorText settings' y = u ++ cursorText settings x) :
    parseOne settings' y = (parseOne settings x).mapError (Error.moved (byteLength u)) := by
  rw [parseOne_eq_answer hx, parseOne_eq_answer hy]
  apply Parser.Displaced.answer
  constructor
  · rfl
  · calc (cursorText settings' y).dropWhile isSpace
      _ = (cursorText settings x).dropWhile isSpace := by rw [h, List.dropWhile_append_of_pos hu]
  · calc 0 + ((cursorText settings' y).takeWhile isSpace).length
      _ = 0 + ((cursorText settings x).takeWhile isSpace).length + byteLength u := by
        rw [h, List.takeWhile_append_of_pos hu, List.length_append, byteLength_of_isSpace hu]
        omega
  · calc byteLength (cursorText settings' y)
      _ = byteLength (cursorText settings x) + byteLength u := by
        rw [h, byteLength_append, Nat.add_comm]

/-- The part of a text that is read decides the result. -/
theorem parseOne_congr (hx : WithinLimit settings x) (hy : WithinLimit settings' y)
    (h : cursorText settings' y = cursorText settings x) :
    parseOne settings' y = parseOne settings x := by
  rw [parseOne_of_cursorText (u := []) hx hy (by simp) h]
  cases parseOne settings x with
  | ok s => rfl
  | error e => exact congrArg Except.error e.moved_zero

/-! ## Cutting off the end of a longer text -/

theorem dropFinal_append (mark : Char) (before : List Char) (hne : cs ≠ []) :
    dropFinal mark (before ++ cs) = before ++ dropFinal mark cs := by
  unfold dropFinal
  rw [List.getLast?_append_of_ne_nil _ hne, List.dropLast_append_of_ne_nil hne]
  split <;> rfl

theorem cursorText_of_not_trailing (hmark : settings.trailingSemicolon = false) (text : String) :
    cursorText settings text = trimEnd text.toList := by
  simp [cursorText, statementText, hmark, trimEnd_trimEnd]

theorem cursorText_of_trailing (hmark : settings.trailingSemicolon = true) (text : String) :
    cursorText settings text = trimEnd (dropFinal ';' (trimEnd text.toList)) := by
  simp [cursorText, statementText, hmark]

/-- What is cut off a text is cut off every text that ends in it, if something is left. -/
theorem cursorText_append (before : String) (h : cursorText settings text ≠ []) :
    cursorText settings (before ++ text) = before.toList ++ cursorText settings text := by
  cases hmark : settings.trailingSemicolon with
  | false =>
      rw [cursorText_of_not_trailing hmark] at h
      simp only [cursorText_of_not_trailing hmark, String.toList_append]
      exact trimEnd_append_of_ne_nil _ h
  | true =>
      rw [cursorText_of_trailing hmark] at h
      have hne : trimEnd text.toList ≠ [] := by
        intro hnil
        exact h (by rw [hnil]; rfl)
      simp only [cursorText_of_trailing hmark, String.toList_append]
      rw [trimEnd_append_of_ne_nil _ hne, dropFinal_append ';' _ hne, trimEnd_append_of_ne_nil _ h]

/-- A text of which nothing is left stays so behind blanks. -/
theorem cursorText_append_eq_nil {before : String} (hbefore : ∀ c ∈ before.toList, isBlank c = true)
    (h : cursorText settings text = []) : cursorText settings (before ++ text) = [] := by
  have hnil : trimEnd before.toList = [] := trimEnd_eq_nil_iff.mpr hbefore
  cases hmark : settings.trailingSemicolon with
  | false =>
      rw [cursorText_of_not_trailing hmark] at h ⊢
      rw [String.toList_append, trimEnd_append_of_eq_nil _ h, hnil]
  | true =>
      rw [cursorText_of_trailing hmark] at h ⊢
      rw [String.toList_append]
      by_cases htext : trimEnd text.toList = []
      · rw [trimEnd_append_of_eq_nil _ htext, hnil]
        rfl
      · rw [trimEnd_append_of_ne_nil _ htext, dropFinal_append ';' _ htext,
          trimEnd_append_of_eq_nil _ h, hnil]

/-- The final semicolon is cut off with the blanks around it. -/
theorem cursorText_semicolon (hmark : settings.trailingSemicolon = true)
    (hmark' : settings'.trailingSemicolon = false) {w₁ w₂ : String}
    (h₁ : ∀ c ∈ w₁.toList, isBlank c = true) (h₂ : ∀ c ∈ w₂.toList, isBlank c = true) :
    cursorText settings (text ++ w₁ ++ ";" ++ w₂) = cursorText settings' text := by
  have hsemicolon : trimEnd (text ++ w₁ ++ ";" ++ w₂).toList = (text ++ w₁).toList ++ [';'] := by
    rw [String.toList_append, trimEnd_append_of_eq_nil _ (trimEnd_eq_nil_iff.mpr h₂),
      String.toList_append]
    exact trimEnd_append_of_ne_nil _ (by decide)
  have hdrop : dropFinal ';' ((text ++ w₁).toList ++ [';']) = (text ++ w₁).toList := by
    simp [dropFinal]
  rw [cursorText_of_trailing hmark, cursorText_of_not_trailing hmark', hsemicolon, hdrop,
    String.toList_append, trimEnd_append_of_eq_nil _ (trimEnd_eq_nil_iff.mpr h₁)]

/-- Nothing is expected to be a statement. -/
theorem parseOne_of_cursorText_eq_nil (hlimit : WithinLimit settings text)
    (h : cursorText settings text = []) :
    parseOne settings text =
      .error (.syntactic 0 (.expected State.beginning.expectation none)) := by
  have hcursor : (Parser.ofText settings text).cursor = .ofText [] := by
    calc (Parser.ofText settings text).cursor
      _ = Cursor.skipSpace ⟨cursorText settings text, 0, cursorText settings text⟩ := rfl
      _ = Cursor.ofText [] := by
        rw [h]
        rfl
  have hend : (Parser.ofText settings text).cursor.atEnd = true := by
    rw [hcursor]
    rfl
  rw [parseOne_eq_answer hlimit, Parser.answer_of_atEnd hend, Parser.finish, hcursor]
  rfl

end CursorText

/-- Without a limit on the length, one semicolon behind a text can be read over
with the blanks around it, and white space in front of it only moves its errors;
where nothing is left of the text, the error stays at the beginning. -/
theorem parseOne_margins {settings : Settings} (hlimit : settings.maxInputLength = 0)
    (text : String) :
    (∀ w₁ w₂ : String, (∀ c ∈ w₁.toList, isBlank c = true) →
        (∀ c ∈ w₂.toList, isBlank c = true) →
        parseOne { settings with trailingSemicolon := true } (text ++ w₁ ++ ";" ++ w₂) =
          parseOne { settings with trailingSemicolon := false } text) ∧
      ∀ u : String, (∀ c ∈ u.toList, isSpace c = true) →
        if cursorText settings text = [] then
          parseOne settings (u ++ text) = parseOne settings text ∧
            parseOne settings text =
              .error (.syntactic 0 (.expected State.beginning.expectation none))
        else
          parseOne settings (u ++ text) =
            (parseOne settings text).mapError (Error.moved (byteLength u.toList)) := by
  constructor
  · intro w₁ w₂ h₁ h₂
    exact parseOne_congr (.inl hlimit) (.inl hlimit) (cursorText_semicolon rfl rfl h₁ h₂)
  · intro u hu
    split
    next hnil =>
      have hblank : ∀ c ∈ u.toList, isBlank c = true := fun c hc => isBlank_of_isSpace (hu c hc)
      rw [parseOne_of_cursorText_eq_nil (.inl hlimit) hnil,
        parseOne_of_cursorText_eq_nil (.inl hlimit) (cursorText_append_eq_nil hblank hnil)]
      exact ⟨rfl, rfl⟩
    next hne =>
      exact parseOne_of_cursorText (.inl hlimit) (.inl hlimit) hu (cursorText_append u hne)

/-- A deletion without a filter, once behind two characters and once with a
semicolon between blanks of several bytes behind it. -/
theorem parseOne_margins_deletion :
    parseOne { maxInputLength := 0 } ("DELETE FROM t" ++ "\u00a0" ++ ";" ++ "\u2003 ") =
        .error (.semantic 13 .missingFilter) ∧
      parseOne { maxInputLength := 0 } ("\t\n" ++ "DELETE FROM t ;") =
        .error (.semantic 15 .missingFilter) := by
  have hlimit : ({ maxInputLength := 0 } : Settings).maxInputLength = 0 := rfl
  constructor
  · have h := (parseOne_margins hlimit "DELETE FROM t").1 "\u00a0" "\u2003 "
      (List.all_eq_true.mp rfl) (List.all_eq_true.mp rfl)
    rw [h]
    decide +kernel
  · have h := (parseOne_margins hlimit "DELETE FROM t ;").2 "\t\n" (List.all_eq_true.mp rfl)
    rw [if_neg (by decide)] at h
    rw [h]
    decide +kernel

end SqlReader
