import Mathlib.Data.List.DropRight
import SqlReader.Proofs.Residual
import SqlReader.Proofs.Validity

/-!
# The parser accepts its grammar

A statement may end where nothing needs to follow, and the steps of the grammar
take sentences apart token by token.  Along a run this gives the main result: a
text is accepted exactly when its tokens are a sentence.
-/

namespace SqlReader

open Sentence
open scoped Computability

/-! ## Where a statement may end -/

namespace Sentence

variable {A B : Language Token} {names : List String} {P : Token → Prop}

@[simp] theorem nil_mem_mul : [] ∈ A * B ↔ [] ∈ A ∧ [] ∈ B := by
  rw [Language.mem_mul]
  constructor
  · rintro ⟨a, ha, b, hb, heq⟩
    obtain ⟨rfl, rfl⟩ := List.append_eq_nil_iff.mp heq
    exact ⟨ha, hb⟩
  · rintro ⟨ha, hb⟩
    exact ⟨[], ha, [], hb, rfl⟩

theorem nil_notMem_one : [] ∉ one P := by
  rintro ⟨t, -, h⟩
  cases h

@[simp] theorem nil_notMem_kw {k : Keyword} : [] ∉ kw k := nil_notMem_one

@[simp] theorem nil_notMem_anyOf {ks : List Keyword} : [] ∉ anyOf ks := nil_notMem_one

@[simp] theorem nil_notMem_name : [] ∉ name := nil_notMem_one

@[simp] theorem nil_notMem_value : [] ∉ value := nil_notMem_one

@[simp] theorem nil_notMem_nameIn : [] ∉ nameIn names := nil_notMem_one

@[simp] theorem nil_notMem_typeName : [] ∉ typeName := nil_notMem_one

@[simp] theorem nil_notMem_typeLength : [] ∉ typeLength := nil_notMem_one

@[simp] theorem nil_notMem_selected : [] ∉ selected := by
  rw [selected, Language.mem_add]
  rintro (h | h)
  · exact nil_notMem_one h
  · exact nil_notMem_one h

@[simp] theorem nil_notMem_checkOperation : [] ∉ checkOperation := by
  rw [checkOperation, Language.mem_add]
  simp

@[simp] theorem nil_notMem_operation : [] ∉ operation := by
  rw [operation, Language.mem_add]
  simp

@[simp] theorem nil_notMem_fromColumn : [] ∉ fromColumn names := by
  rw [fromColumn, Language.mem_iSup]
  rintro ⟨s, h⟩
  simp [nil_notMem_one] at h

@[simp] theorem nil_notMem_elements : [] ∉ elements names := by
  intro h
  cases h

@[simp] theorem nil_notMem_tableConstraint : [] ∉ tableConstraint names := by
  rw [tableConstraint, Language.mem_add, Language.mem_add]
  simp

@[simp] theorem nil_notMem_filter : [] ∉ filter := by
  simp [filter]

@[simp] theorem nil_mem_afterFilter {kind : Kind} : [] ∈ afterFilter kind := by
  rw [afterFilter, nil_mem_mul]
  refine ⟨Language.nil_mem_kstar _, ?_⟩
  split <;> simp

@[simp] theorem nil_notMem_grantees {kind : Kind} : [] ∉ grantees kind := by
  cases kind <;> simp [grantees, Language.notMem_zero]

@[simp] theorem nil_notMem_sentence : [] ∉ sentence := by
  simp only [sentence, Language.mem_add, Sentence.insert, Language.mem_iSup]
  simp [select, insertInto, update, delete, createTable, createView, createIndex, createUser,
    grant, revoke]

end Sentence

/-- A statement may end in the accepting states, where an update or a deletion
has its filter. -/
theorem nil_mem_residual_iff {c : Context} {state : State} :
    [] ∈ state.residual c ↔
      state.isAccepting = true ∧ state ≠ .update .commaOrWhere ∧
        state ≠ .delete .whereKeyword := by
  have hstar : ∀ A : Language Token, [] ∈ A∗ := Language.nil_mem_kstar
  cases state with
  | beginning => simp [State.residual, State.isAccepting]
  | select place =>
      cases place <;> simp [State.residual, State.isAccepting, selectRest, listOf, clauses, hstar]
  | order place =>
      cases place <;> simp [State.residual, State.isAccepting, orderRest, listOf, sorted, hstar]
  | insert place =>
      cases place with
      | value =>
          simp only [State.residual, insertRest]
          split <;> simp [State.isAccepting, Language.notMem_zero]
      | valuesNext =>
          simp only [State.residual, insertRest]
          split <;> simp [State.isAccepting, Language.notMem_zero]
      | _ =>
          simp [State.residual, State.isAccepting, insertRest, Language.mem_iSup, allRows,
            moreRows, parens, hstar]
  | update place =>
      cases place <;>
        simp [State.residual, State.isAccepting, updateRest, listOf, assignment, moreAssignments]
  | delete place => cases place <;> simp [State.residual, State.isAccepting, deleteRest]
  | filter place =>
      cases place <;>
        simp [State.residual, State.isAccepting, filterRest, condition, parens, listOf]
  | table place =>
      cases place <;>
        simp [State.residual, State.isAccepting, tableRest, columnType, Context.columnRest]
  | check place =>
      cases place <;>
        simp [State.residual, State.isAccepting, checkRest, parens, listOf, Context.checkTail]
  | primaryKey place =>
      cases place <;>
        simp [State.residual, State.isAccepting, primaryKeyRest, parens, listOf]
  | foreignKey place =>
      cases place <;>
        simp [State.residual, State.isAccepting, foreignKeyRest, parens, target]
  | view place =>
      cases place <;> simp [State.residual, State.isAccepting, viewRest, viewQuery, listOf]
  | index place =>
      cases place <;> simp [State.residual, State.isAccepting, indexRest, parens, listOf, sorted]
  | user place => cases place <;> simp [State.residual, State.isAccepting, userRest]
  | privilege place =>
      cases place <;>
        simp [State.residual, State.isAccepting, privilegeRest, privilege, morePrivileges, listOf,
          hstar]
  | done => simp [State.residual, State.isAccepting]

theorem Draft.Pictured.nil_mem_residual_iff {d : Draft} (h : d.Pictured) {V : String → Prop}
    (hstores : d.Stores (isIdentifier · = true) V) :
    [] ∈ d.residual ↔ d.state.isAccepting = true ∧ d.statement.fault = none := by
  rw [Draft.residual, SqlReader.nil_mem_residual_iff]
  refine and_congr_right fun haccepting => ?_
  constructor
  · rintro ⟨hupdate, hdelete⟩
    refine h.fault_eq_none hstores ?_ haccepting hupdate hdelete
    rintro name hname rfl
    cases hname
  · intro hfault
    unfold Pictured at h
    constructor
    · intro hstate
      rw [hstate] at h
      obtain ⟨table, updates, -, hs⟩ := h
      exact fault_ne_none (by simp [hs]) (by simp [hs]) hfault
    · intro hstate
      rw [hstate] at h
      obtain ⟨table, hs⟩ := h
      exact fault_ne_none (by simp [hs]) (by simp [hs]) hfault

/-! ## Along a run -/

namespace Parser

variable {p q : Parser}

def tokensLeft (p : Parser) : List Token := p.cursor.tokens.map (·.2)

/-- The draft holds what its state says, and its names are names. -/
def Sound (p : Parser) : Prop :=
  p.draft.Pictured ∧ p.draft.Stores (isIdentifier · = true) (fun _ => True)

def Accepted (p : Parser) : Prop :=
  ∃ ts q, Steps p ts q ∧ q.cursor.atEnd = true ∧ ∃ s, q.finish = .ok s

theorem sound_ofText (settings : Settings) (text : String) : Sound (.ofText settings text) :=
  ⟨rfl, Draft.stores_default⟩

theorem isIdentifier_of_identifier? {t : Token} {name : String} (h : t.identifier? = some name) :
    isIdentifier name = true := by
  cases t with
  | word s =>
      simp only [Token.identifier?] at h
      split at h
      next hs => rwa [← Option.some.inj h]
      · cases h
  | _ => cases h

theorem Sound.step (h : p.Sound) (hstep : p.step = .ok () q) : q.Sound :=
  step_stores trivial (fun _ => ⟨fun _ => isIdentifier_of_identifier?, fun _ _ => trivial⟩) h hstep

theorem Sound.names (h : p.Sound) : ∀ s ∈ p.draft.context.names, isIdentifier s = true := by
  intro s hs
  obtain ⟨c, hc, rfl⟩ := List.mem_map.mp hs
  exact (h.2.statement.columns c hc).name

theorem accepted_of_atEnd (hend : p.cursor.atEnd = true) :
    p.Accepted ↔ ∃ s, p.finish = .ok s := by
  constructor
  · rintro ⟨ts, q, hsteps, -, hs⟩
    cases hsteps with
    | refl => exact hs
    | head hend' => simp [hend] at hend'
  · intro hs
    exact ⟨[], p, .refl p, hend, hs⟩

theorem accepted_of_not_atEnd (hend : p.cursor.atEnd = false) :
    p.Accepted ↔ ∃ q, p.step = .ok () q ∧ q.Accepted := by
  constructor
  · rintro ⟨ts, q, hsteps, hq, hs⟩
    cases hsteps with
    | refl => simp [hend] at hq
    | head _ hstep hrest => exact ⟨_, hstep, _, _, hrest, hq, hs⟩
  · rintro ⟨q, hstep, ts, r, hrest, hr, hs⟩
    exact ⟨_, r, .head hend hstep hrest, hr, hs⟩

theorem tokensLeft_of_atEnd (hend : p.cursor.atEnd = true) : p.tokensLeft = [] := by
  rw [tokensLeft, Cursor.tokens.eq_def, dif_pos hend]
  rfl

theorem tokensLeft_of_not_atEnd (hend : p.cursor.atEnd = false) :
    p.tokensLeft = p.cursor.peek :: p.cursor.pop.tokens.map (·.2) := by
  rw [tokensLeft, Cursor.tokens.eq_def, dif_neg (by simp [hend])]
  rfl

theorem step_query (hquery : p.draft.state = .view .query) (hstep : p.step = .ok () q) :
    q.draft.state = .done ∧ q.cursor.atEnd = true := by
  obtain ⟨draft, hdraft, rfl⟩ := step_eq_ok_iff.mp hstep
  constructor
  · simp only [Draft.accept, Draft.move?, hquery, Draft.follow_eq_ok_iff, ViewPlace.move?,
      Option.ite_none_right_eq_some] at hdraft
    obtain ⟨_, _, ⟨-, ⟨⟩⟩, -, rfl⟩ := hdraft
    rfl
  · simp [advance, hquery, Cursor.popRest, Cursor.atEnd]

/-- After its query a view is complete. -/
theorem accepted_of_query (hp : p.Sound) (hquery : p.draft.state = .view .query)
    (hstep : p.step = .ok () q) : q.Accepted := by
  have hq := hp.step hstep
  obtain ⟨hdone, hend⟩ := step_query hquery hstep
  have hnil : [] ∈ q.draft.residual := by
    rw [Draft.residual, hdone]
    exact Language.nil_mem_one
  obtain ⟨haccepting, hfault⟩ := (hq.1.nil_mem_residual_iff hq.2).mp hnil
  exact (accepted_of_atEnd hend).mpr ⟨_, finish_eq_ok_iff.mpr ⟨haccepting, hfault, rfl⟩⟩

/-- A parser accepts what is left of its text if that completes its draft. -/
theorem accepted_iff (hp : p.Sound) : p.Accepted ↔ p.tokensLeft ∈ p.draft.residual := by
  induction p using Parser.run.induct with
  | case1 p hend =>
      rw [accepted_of_atEnd hend, tokensLeft_of_atEnd hend, hp.1.nil_mem_residual_iff hp.2]
      simp [finish_eq_ok_iff]
  | case2 p hend e q hstep =>
      have hend : p.cursor.atEnd = false := by simpa using hend
      rw [accepted_of_not_atEnd hend, tokensLeft_of_not_atEnd hend]
      obtain ⟨refusal, hrefusal, -⟩ := step_eq_error hstep
      by_cases hquery : p.draft.state = .view .query
      · rw [← Draft.accept_query_iff p.cursor.rest hquery, hstep, hrefusal]
        simp
      · rw [← Draft.accept_goes p.cursor.rest hp.1 hp.names hquery, hstep, hrefusal]
        simp
  | case3 p hend q hstep ih =>
      have hend : p.cursor.atEnd = false := by simpa using hend
      have hnext : p.Accepted ↔ q.Accepted := by
        rw [accepted_of_not_atEnd hend, hstep]
        simp
      rw [hnext, tokensLeft_of_not_atEnd hend]
      by_cases hquery : p.draft.state = .view .query
      · rw [← Draft.accept_query_iff p.cursor.rest hquery]
        obtain ⟨draft, hdraft, -⟩ := step_eq_ok_iff.mp hstep
        exact iff_of_true (accepted_of_query hp hquery hstep) ⟨draft, hdraft⟩
      · rw [ih (hp.step hstep), ← Draft.accept_goes p.cursor.rest hp.1 hp.names hquery]
        obtain ⟨draft, hdraft, rfl⟩ := step_eq_ok_iff.mp hstep
        have hadvance : p.advance = p.cursor.pop := by simp [advance, hquery]
        rw [tokensLeft, hadvance, hdraft]
        simp [Goes]

end Parser

/-! ## Texts -/

open Text

/-- The part of a text that is read: without the blanks at its end, and without
the final semicolon where the settings ignore it. -/
def cursorText (settings : Settings) (text : String) : List Char :=
  trimEnd (statementText settings text.toList)

def WithinLimit (settings : Settings) (text : String) : Prop :=
  settings.maxInputLength = 0 ∨ byteLength text.toList ≤ settings.maxInputLength.toNat

theorem trimEnd_trimEnd (cs : List Char) : trimEnd (trimEnd cs) = trimEnd cs := by
  rw [trimEnd, trimEnd, List.reverse_reverse, List.dropWhile_idempotent]

theorem tooLong_eq_false_iff {p : Parser} :
    p.tooLong = false ↔
      p.settings.maxInputLength = 0 ∨ p.length ≤ p.settings.maxInputLength.toNat := by
  unfold Parser.tooLong
  by_cases hzero : p.settings.maxInputLength = 0
  · simp [hzero]
  · simp only [ne_eq, hzero, not_false_eq_true, decide_true, Bool.true_and, false_or]
    rw [decide_eq_false_iff_not, Nat.not_lt]

theorem tokens_ofText (settings : Settings) (text : String) :
    (Parser.ofText settings text).cursor.tokens =
      tokenize (String.ofList (cursorText settings text)) := by
  simp only [Parser.ofText, tokenize, cursorText, Cursor.ofText, String.toList_ofList,
    trimEnd_trimEnd]

/-- A parser reads the tokens of its cursor text. -/
theorem tokensLeft_ofText (settings : Settings) (text : String) :
    (Parser.ofText settings text).tokensLeft =
      (tokenize (String.ofList (cursorText settings text))).map (·.2) := by
  rw [Parser.tokensLeft, tokens_ofText]

/-- A text is read as a statement if its tokens are a sentence. -/
theorem exists_parseOne_iff {settings : Settings} {text : String} :
    (∃ s, parseOne settings text = .ok s) ↔
      (Parser.ofText settings text).tooLong = false ∧
        (Parser.ofText settings text).tokensLeft ∈ sentence := by
  have haccepted := Parser.accepted_iff (Parser.sound_ofText settings text)
  simp only [parseOne, Parser.parse_eq_ok_iff]
  constructor
  · rintro ⟨s, hlimit, ts, q, hsteps, hend, hs⟩
    exact ⟨hlimit, haccepted.mp ⟨ts, q, hsteps, hend, s, hs⟩⟩
  · rintro ⟨hlimit, hleft⟩
    obtain ⟨ts, q, hsteps, hend, s, hs⟩ := haccepted.mpr hleft
    exact ⟨s, hlimit, ts, q, hsteps, hend, hs⟩

/-- The parser accepts its grammar: a text within the limit is read as a
statement exactly when the tokens of the part that is read are a sentence. -/
theorem parseOne_accepts_iff_sentence (settings : Settings) (text : String) :
    (∃ s, parseOne settings text = .ok s) ↔
      WithinLimit settings text ∧
        (tokenize (String.ofList (cursorText settings text))).map (·.2) ∈ sentence := by
  rw [exists_parseOne_iff, tooLong_eq_false_iff, tokensLeft_ofText]
  rfl

end SqlReader
