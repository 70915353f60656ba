import SqlReader.Proofs.Writing

/-!
# What the words of a text keep apart

A phrase is always read to its end, so two tokens that would make a phrase are
never next to each other.  Here this is followed through a run: a condition is
never read as the column `NOT` with a plain `IN`, `LIKE` or `BETWEEN` behind it,
and an index is never on a table called `TABLE`.
-/

namespace SqlReader

open Text

/-! ## The first word of a token -/

/-- A reserved word that is one word is spelled by the first word of the text. -/
theorem scan_text_of_keyword {cs w : List Char} {k : Keyword} (hw : IsWord w)
    (hk : ∀ e ∈ vocabulary, e.keyword = k → e.words.map String.toList = [w])
    (h : (scan cs).token = .keyword k) :
    upper (scan cs).text = w ∧ upper (cs.takeWhile isWordChar) = w := by
  cases cs with
  | nil => cases h
  | cons c cs =>
      cases hc : isWordChar c with
      | true =>
          obtain ⟨v, rest, hcs, hv, hrest⟩ := exists_run cs hc
          rw [hcs] at h ⊢
          rcases scan_run_cases hv hrest with ⟨k', hk', hscan⟩ | ⟨-, ⟨k', hk', hscan⟩ | ⟨-, hscan⟩⟩
          · rw [hscan] at h
            obtain rfl := Token.keyword.inj h
            obtain ⟨e, he, hwords, hkey⟩ := exists_mem_of_reserved? hk'
            rw [hk e he hkey] at hwords
            simp at hwords
          · rw [hscan] at h ⊢
            obtain rfl := Token.keyword.inj h
            obtain ⟨e, he, hwords, hkey⟩ := exists_mem_of_reserved? hk'
            rw [hk e he hkey] at hwords
            obtain rfl : w = upper v := by simpa using hwords
            exact ⟨rfl, by rw [takeWhile_run hv.2 hrest]⟩
          · rw [hscan] at h
            cases h
      | false =>
          cases hm : longestMatch (c :: cs) with
          | some m =>
              obtain ⟨e, he, hme⟩ := exists_entry_of_longestIn hm
              obtain ⟨hs, -, hk'⟩ := match?_symbol_cases he hc hme
              have hscan : (scan (c :: cs)).token = .keyword m.keyword := by simp only [scan, hm]
              rw [hscan] at h
              obtain rfl := Token.keyword.inj h
              obtain ⟨e', he', hwords, hkey⟩ := exists_mem_of_reserved? hk'
              rw [hk e' he' hkey] at hwords
              obtain rfl : w = upper m.text := by simpa using hwords
              -- a symbol is not a word
              obtain ⟨d, ds, hd⟩ := List.exists_cons_of_ne_nil hs.1
              have hall := hw.2
              rw [all_isWordChar_upper, hd] at hall
              simp [(hs.2.2 d (by simp [hd])).1] at hall
          | none =>
              simp only [scan, hm] at h
              split at h
              · rw [scanQuoted] at h
                split at h <;> cases h
              · simp [scanWord, hc] at h

/-! ## Conditions of a statement -/

def Statement.allConditions (s : Statement) : List Condition :=
  s.conditions ++ s.columns.flatMap (·.checks)

theorem Edited.mem_cases {α : Type} {New : α → Prop} {Edit : α → α → Prop} {as bs : List α} {b : α}
    (h : Edited New Edit as bs) (hb : b ∈ bs) : b ∈ as ∨ New b ∨ ∃ a ∈ as, Edit a b := by
  cases h with
  | keep => exact .inl hb
  | add hnew =>
      rcases List.mem_append.mp hb with hb | hb
      · exact .inl hb
      · obtain rfl := List.mem_singleton.mp hb
        exact .inr (.inl hnew)
  | @set a b' i hget hedit =>
      rcases List.mem_or_eq_of_mem_set hb with hb | rfl
      · exact .inl hb
      · exact .inr (.inr ⟨a, List.mem_of_getElem? hget, hedit⟩)

theorem addCheck_checks (fresh : Bool) (field : String) (c : Column) :
    (Draft.addCheck fresh field c).checks = c.checks ++ [⟨.field field, none⟩] := by
  cases fresh <;> rfl

theorem Column.Edit.mem_checks {t : Token} {c c' : Column} {b : Condition} (h : Column.Edit t c c')
    (hb : b ∈ c'.checks) :
    b ∈ c.checks ∨ Condition.New t b ∨ ∃ a ∈ c.checks, Condition.Edit t a b := by
  cases h with
  | @check fresh field hfield hfresh =>
      rw [addCheck_checks] at hb
      rcases List.mem_append.mp hb with hb | hb
      · exact .inl hb
      · obtain rfl := List.mem_singleton.mp hb
        exact .inr (.inl ⟨field, hfield, rfl⟩)
  | @condition a b' i hget hedit hrange =>
      rcases List.mem_or_eq_of_mem_set hb with hb | rfl
      · exact .inl hb
      · exact .inr (.inr ⟨a, List.mem_of_getElem? hget, hedit⟩)
  | _ => exact .inl hb

/-- Where a condition comes from in a step. -/
theorem Statement.Edited.mem_allConditions {t : Token} {s s' : Statement} {b : Condition}
    (h : Statement.Edited t s s') (hb : b ∈ s'.allConditions) :
    b ∈ s.allConditions ∨ Condition.New t b ∨ ∃ a ∈ s.allConditions, Condition.Edit t a b := by
  simp only [allConditions, List.mem_append, List.mem_flatMap] at hb ⊢
  rcases hb with hb | ⟨c', hc', hb⟩
  · rcases h.conditions.mem_cases hb with hb | hnew | ⟨a, ha, hedit⟩
    · exact .inl (.inl hb)
    · exact .inr (.inl hnew)
    · exact .inr (.inr ⟨a, .inl ha, hedit⟩)
  · rcases h.columns.mem_cases hc' with hc | ⟨name, -, rfl⟩ | ⟨c, hc, hedit⟩
    · exact .inl (.inr ⟨c', hc, hb⟩)
    · cases hb
    · rcases hedit.mem_checks hb with hb | hnew | ⟨a, ha, hcondition⟩
      · exact .inl (.inr ⟨c, hc, hb⟩)
      · exact .inr (.inl hnew)
      · exact .inr (.inr ⟨a, .inr ⟨c, hc, ha⟩, hcondition⟩)

/-! ## States and the parts of a statement -/

namespace State

/-- The kinds of statement that a state may read. -/
def kinds : State → List Kind
  | .beginning => [.unknown]
  | .select _ | .order _ => [.select]
  | .insert _ => [.insert]
  | .update _ => [.update]
  | .delete _ => [.delete]
  | .filter _ => [.select, .update, .delete]
  | .table _ | .check _ | .primaryKey _ | .foreignKey _ => [.createTable]
  | .view _ => [.createView]
  | .index _ => [.createIndex]
  | .user _ => [.createUser]
  | .privilege _ => [.grant, .revoke]
  | .done => [.createTable, .createView, .createIndex, .createUser]

def isFiltered : State → Bool
  | .filter _ | .order _ => true
  | _ => false

/-- The parts that a statement has in a state. -/
structure Admits (state : State) (s : Statement) : Prop where
  kind : s.kind ∈ state.kinds
  conditions : state.isFiltered = false → s.conditions = []
  viewSelect : ∀ query ∈ s.viewSelect, state = .done ∧ s.kind = .createView

end State

theorem Finished.admitted {s : Statement} (h : Finished s) : State.Admits .done s := by
  cases h with
  | index _ hs =>
      obtain ⟨table, name, rfl⟩ := hs
      exact ⟨by simp [State.kinds], fun _ => rfl, by simp⟩
  | _ => exact ⟨by simp [State.kinds], fun _ => rfl, by simp⟩

theorem Draft.Pictured.admitted {d : Draft} (h : d.Pictured) : d.state.Admits d.statement := by
  unfold Pictured at h
  generalize d.state = state at h
  cases state with
  | beginning => exact ⟨by simp [h, State.kinds], by simp [h], by simp [h]⟩
  | select place => cases place <;> constructor <;> grind [SelectPlace.Pictured, State.kinds]
  | order place =>
      cases place <;> constructor <;>
        grind [OrderPlace.Pictured, Sorting, State.kinds, State.isFiltered]
  | insert place => cases place <;> constructor <;> grind [InsertPlace.Pictured, State.kinds]
  | update place => cases place <;> constructor <;> grind [UpdatePlace.Pictured, State.kinds]
  | delete place => cases place <;> constructor <;> grind [DeletePlace.Pictured, State.kinds]
  | filter place =>
      obtain ⟨s, conditions, connectives, hs, hd, -⟩ := h
      rw [hd]
      cases hs <;> exact ⟨by simp [State.kinds], by simp [State.isFiltered], by simp⟩
  | table place =>
      cases place <;> constructor <;> grind [TablePlace.Pictured, IsTable, State.kinds]
  | check place | primaryKey place | foreignKey place =>
      obtain ⟨⟨table, columns, hs⟩, -⟩ := h
      exact ⟨by simp [hs, State.kinds], by simp [hs], by simp [hs]⟩
  | view place => cases place <;> constructor <;> grind [ViewPlace.Pictured, State.kinds]
  | index place =>
      cases place <;> constructor <;> grind [IndexPlace.Pictured, Indexing, State.kinds]
  | user place => cases place <;> constructor <;> grind [UserPlace.Pictured, State.kinds]
  | privilege place =>
      cases place <;> constructor <;> grind [PrivilegePlace.Pictured, Granting, State.kinds]
  | done => exact Finished.admitted h

/-! ## Conditions without a predicate -/

def Condition.Begun (c : Condition) : Prop := c.predicate ≠ none

theorem Condition.Complete.begun {c : Condition} (h : c.Complete) : c.Begun := by
  obtain ⟨name, p, rfl, -⟩ := h
  simp [Begun]

theorem ChainPending.begun {Q : Option Predicate → Prop} {cs : List Condition}
    {ls : List Connective} (h : ChainPending Q cs ls) (hQ : ∀ p, Q p → p ≠ none) :
    ∀ c ∈ cs, c.Begun := by
  obtain ⟨before, name, p, rfl, hbefore, -, hp⟩ := h
  exact Draft.forall_mem_concat (fun c hc => (hbefore c hc).begun) (hQ p hp)

theorem TakesValue.ne_none {p : Option Predicate} (h : TakesValue p) : p ≠ none := by
  rcases h with ⟨op, right, -, rfl⟩ | ⟨negated, pattern, rfl⟩ <;> simp

theorem TakesBounds.ne_none {p : Option Predicate} (h : TakesBounds p) : p ≠ none := by
  obtain ⟨negated, low, high, rfl⟩ := h
  simp

theorem TakesItems.ne_none {p : Option Predicate} (h : TakesItems p) : p ≠ none := by
  obtain ⟨negated, values, rfl⟩ := h
  simp

theorem HasItems.ne_none {p : Option Predicate} (h : HasItems p) : p ≠ none := by
  obtain ⟨negated, values, -, rfl⟩ := h
  simp

def State.awaitsOperator : State → Bool
  | .filter .operator | .check .operator => true
  | _ => false

namespace Draft

variable {d : Draft}

theorem filterPlace_begun {place : FilterPlace} (h : place.Pictured d)
    (hplace : place ≠ .operator) : ∀ c ∈ d.statement.conditions, c.Begun := by
  obtain ⟨s, conditions, connectives, -, hs, h⟩ := h
  rw [hs]
  cases place with
  | operator => exact absurd rfl hplace
  | field => exact fun c hc => (h.1 c hc).begun
  | conjunction => exact fun c hc => (h.2.1 c hc).begun
  | value => exact h.1.begun fun _ => TakesValue.ne_none
  | betweenLow | betweenAnd | betweenHigh => exact h.1.begun fun _ => TakesBounds.ne_none
  | listOpen | listValue => exact h.1.begun fun _ => TakesItems.ne_none
  | listNext => exact h.1.begun fun _ => HasItems.ne_none

theorem Pictured.conditions_begun (h : d.Pictured) (hstate : d.state.awaitsOperator = false) :
    ∀ c ∈ d.statement.conditions, c.Begun := by
  have hnil := h.admitted.conditions
  unfold Pictured at h
  generalize d.state = state at h hnil hstate
  cases state with
  | filter place =>
      refine filterPlace_begun h ?_
      rintro rfl
      cases hstate
  | order place =>
      have hsorting : ∃ orderBy, Sorting orderBy d.statement := by
        cases place <;> grind [OrderPlace.Pictured]
      obtain ⟨orderBy, tables, fields, conditions, connectives, -, -, hchain, hs⟩ := hsorting
      rw [hs]
      exact fun c hc => (hchain.1 c hc).begun
  | _ => simp [hnil rfl]

def ChecksBegun (c : Column) : Prop := ∀ condition ∈ c.checks, condition.Begun

theorem checksBegun_of_chained {c : Column} (h : c.Chained) : ChecksBegun c :=
  fun condition hcondition => (h.1 condition hcondition).begun

theorem checksBegun_of_focus {i : Option Nat} {Q : Column → Prop} {cs : List Column}
    (h : Focus i Q cs) (hQ : ∀ c, Q c → ChecksBegun c) : ∀ c ∈ cs, ChecksBegun c := by
  obtain ⟨before, b, after, rfl, -, hb, hothers⟩ := h
  intro c hc
  rcases List.mem_append.mp hc with hc | hc
  · exact checksBegun_of_chained (hothers c (by simp [hc])).chained
  · rcases List.mem_cons.mp hc with rfl | hc
    · exact hQ _ hb
    · exact checksBegun_of_chained (hothers c (by simp [hc])).chained

theorem checksBegun_of_allSettled {cs : List Column} (h : AllSettled cs) :
    ∀ c ∈ cs, ChecksBegun c :=
  fun c hc => checksBegun_of_chained (h.2 c hc).chained

theorem CheckPending.checksBegun {Q : Option Predicate → Prop} (h : d.CheckPending Q)
    (hQ : ∀ p, Q p → p ≠ none) : ∀ c ∈ d.statement.columns, ChecksBegun c := by
  obtain ⟨-, before, b, after, hcs, -, -, hb, hothers⟩ := h
  refine checksBegun_of_focus (i := some before.length) ⟨before, b, after, hcs, rfl, hb, hothers⟩ ?_
  exact fun c hc => hc.2.2.begun hQ

theorem tablePlace_checksBegun {place : TablePlace} (h : place.Pictured d) :
    ∀ c ∈ d.statement.columns, ChecksBegun c := by
  cases place with
  | name =>
      change d.statement = _ at h
      simp [h]
  | opening | field =>
      obtain ⟨table, hs⟩ := h
      simp [hs]
  | fieldType => exact checksBegun_of_focus h.2 fun c hc => checksBegun_of_chained hc.2
  | typeSuffix | fieldLength | lengthClose | columnTail | defaultValue =>
      exact checksBegun_of_focus h.2 fun c hc => checksBegun_of_chained hc.chained
  | element | constraintEnd => exact checksBegun_of_allSettled h.2

theorem checkPlace_checksBegun {place : CheckPlace} (h : place.Pictured d)
    (hplace : place ≠ .operator) : ∀ c ∈ d.statement.columns, ChecksBegun c := by
  obtain ⟨-, -, h⟩ := h
  cases place with
  | operator => exact absurd rfl hplace
  | opening => exact checksBegun_of_allSettled h.2.1
  | field =>
      rcases h with h | ⟨-, h⟩
      · exact checksBegun_of_allSettled h.2.1
      · exact checksBegun_of_focus h fun c hc condition hcondition =>
          (hc.2.2.2.1 condition hcondition).begun
  | value => exact CheckPending.checksBegun h fun _ => TakesValue.ne_none
  | listOpen | listValue => exact CheckPending.checksBegun h fun _ => TakesItems.ne_none
  | listNext => exact CheckPending.checksBegun h fun _ => HasItems.ne_none
  | conjunctionOrClose =>
      exact checksBegun_of_focus h.2 fun c hc => checksBegun_of_chained hc.2.chained

theorem foreignKeyPlace_checksBegun {place : ForeignKeyPlace} (h : place.Pictured d) :
    ∀ c ∈ d.statement.columns, ChecksBegun c := by
  obtain ⟨-, h⟩ := h
  cases place with
  | opening | field | columnClose => exact checksBegun_of_allSettled h.2
  | close | references | table =>
      exact checksBegun_of_focus h.2 fun c hc => checksBegun_of_chained hc.2.1
  | tableOpen | column =>
      exact checksBegun_of_focus h.2 fun c hc => checksBegun_of_chained hc.1.2.1

/-- A condition waits for its operator only in the state that reads it. -/
theorem Pictured.begun (h : d.Pictured) (hstate : d.state.awaitsOperator = false) :
    ∀ c ∈ d.statement.allConditions, c.Begun := by
  have hchecks : ∀ c ∈ d.statement.columns, ChecksBegun c := by
    have hnil := h.columns_eq_nil
    have hpicture := h
    unfold Pictured at hpicture
    generalize d.state = state at hpicture hnil hstate
    cases state with
    | table place => exact tablePlace_checksBegun hpicture
    | check place =>
        refine checkPlace_checksBegun hpicture ?_
        rintro rfl
        cases hstate
    | primaryKey place => exact checksBegun_of_allSettled hpicture.2
    | foreignKey place => exact foreignKeyPlace_checksBegun hpicture
    | done => exact fun c hc => checksBegun_of_chained (Finished.settled hpicture c hc).chained
    | _ => simp [hnil rfl (by simp)]
  intro c hc
  simp only [Statement.allConditions, List.mem_append, List.mem_flatMap] at hc
  rcases hc with hc | ⟨column, hcolumn, hc⟩
  · exact h.conditions_begun hstate c hc
  · exact hchecks column hcolumn c hc

/-- Behind an operator no other is read. -/
theorem accept_awaitsOperator {t : Token} {rest : List Char} (h : d.state.awaitsOperator = true) :
    Yields (fun d' => d'.state.awaitsOperator = false) (d.accept t rest) := by
  have hstate : d.state = .filter .operator ∨ d.state = .check .operator := by
    revert h
    cases d.state with
    | filter place => cases place <;> simp [State.awaitsOperator]
    | check place => cases place <;> simp [State.awaitsOperator]
    | _ => simp [State.awaitsOperator]
  unfold accept
  rcases hstate with hstate | hstate
  · simp only [move?, hstate, FilterPlace.move?, yields_follow_map]
    rintro ⟨p, shape⟩ -
    refine yields_follow.mpr fun d' _ => ?_
    cases shape <;> rfl
  · simp only [move?, hstate, CheckPlace.move?]
    cases t.keyword?.bind Keyword.predicate? with
    | none => exact yields_follow_none.mpr trivial
    | some found =>
        obtain ⟨p, shape⟩ := found
        refine yields_follow_map.mpr fun place hplace => yields_follow.mpr fun d' _ => ?_
        cases shape <;> cases hplace <;> rfl

/-- A condition that a step leaves as it is has its operator. -/
theorem begun_of_kept {t : Token} {rest : List Char} {d' : Draft} (hd : d.Pictured)
    (hd' : d'.Pictured) (haccept : d.accept t rest = .ok d') {c : Condition}
    (hc : c ∈ d.statement.allConditions) (hc' : c ∈ d'.statement.allConditions) : c.Begun := by
  cases hstate : d.state.awaitsOperator with
  | false => exact hd.begun hstate c hc
  | true => exact hd'.begun (accept_awaitsOperator hstate d' haccept) c hc'

end Draft

/-! ## Conditions that stay apart -/

/-- The condition is not fused, nor will it be by the word behind its column. -/
def Condition.Unfused (rest : List Char) (c : Condition) : Prop :=
  ¬ c.Fused ∧
    (c.predicate = none → reserved? [c.left.text.toList, rest.takeWhile isWordChar] = none)

namespace Condition

variable {cs : List Char} {a b : Condition}

theorem Begun.unfused {c : Condition} (h : c.Begun) (hfused : ¬ c.Fused) (rest : List Char) :
    c.Unfused rest := ⟨hfused, fun hnone => absurd hnone h⟩

/-- A name does not make a phrase of the word behind it. -/
theorem New.unfused (h : Condition.New (scan cs).token b) :
    b.Unfused ((scan cs).rest.dropWhile isSpace) := by
  obtain ⟨name, hname, rfl⟩ := h
  refine ⟨?_, fun _ => ?_⟩
  · rintro ⟨-, p, hp, -⟩
    cases hp
  · have hpair := reserved?_scan_pair cs
    rwa [(scan_of_identifier hname).2.1] at hpair

/-- The reserved words that `NOT` makes phrases of. -/
theorem keyword_of_operator {k : Keyword} {p : Predicate} {shape : PredicateShape}
    (hk : k.predicate? = some (p, shape)) (hp : p.operator ∈ [Operator.inList, .like, .between]) :
    k = .inList ∨ k = .like ∨ k = .between := by
  cases k <;> simp_all [Keyword.predicate?] <;> grind [Predicate.operator]

/-- A word behind `NOT` that makes a phrase of it is not read by itself. -/
theorem not_scan_of_phrase {name : String} {k : Keyword} (w : String)
    (hname : reserved? [name.toList, cs.takeWhile isWordChar] = none)
    (hnot : upperString name = "NOT")
    (hk : ∀ e ∈ vocabulary, e.keyword = k → e.words.map String.toList = [w.toList])
    (hw : IsWord w.toList) (hself : upper w.toList = w.toList)
    (hphrase : reserved? ["NOT".toList, w.toList] ≠ none) : (scan cs).token ≠ .keyword k := by
  intro htoken
  have hupper : upper name.toList = upper "NOT".toList :=
    (upperString_eq_iff.mp hnot).trans (by decide +kernel)
  have hfirst := (scan_text_of_keyword hw hk htoken).2
  have hcongr : reserved? [name.toList, cs.takeWhile isWordChar] =
      reserved? ["NOT".toList, w.toList] :=
    reserved?_congr (by simp [hupper, hfirst, hself])
  exact hphrase (hcongr.symm.trans hname)

/-- Behind the column `NOT` an operator is not one that `NOT` negates. -/
theorem not_fused_of_operator {p : Predicate} {shape : PredicateShape}
    (hname : reserved? [a.left.text.toList, cs.takeWhile isWordChar] = none)
    (hp : (scan cs).token.predicate? = some (p, shape)) :
    ¬ Fused { a with predicate := some p } := by
  rintro ⟨hnot, q, hq, hoperator⟩
  obtain rfl : p = q := Option.some.inj hq
  cases htoken : (scan cs).token with
  | keyword k =>
      rw [htoken] at hp
      rcases keyword_of_operator hp hoperator with rfl | rfl | rfl
      · exact not_scan_of_phrase "IN" hname hnot (by decide +kernel)
          (by decide +kernel) (by decide +kernel) (by decide +kernel) htoken
      · exact not_scan_of_phrase "LIKE" hname hnot (by decide +kernel)
          (by decide +kernel) (by decide +kernel) (by decide +kernel) htoken
      · exact not_scan_of_phrase "BETWEEN" hname hnot (by decide +kernel)
          (by decide +kernel) (by decide +kernel) (by decide +kernel) htoken
  | _ =>
      rw [htoken] at hp
      cases hp

theorem Edit.unfused (h : Condition.Edit (scan cs).token a b) (ha : a.Unfused cs)
    (rest : List Char) : b.Unfused rest := by
  cases h with
  | operator hnone hp =>
      refine Begun.unfused (by simp [Begun]) ?_ rest
      exact not_fused_of_operator (ha.2 hnone) hp
  | value hsome hq =>
      refine Begun.unfused (by simp [Begun]) ?_ rest
      rintro ⟨hnot, q', hq', hoperator⟩
      obtain rfl := Option.some.inj hq'
      exact ha.1 ⟨hnot, _, hsome, hq ▸ hoperator⟩

end Condition

namespace Parser

variable {p q : Parser}

/-- The conditions of the parser are not fused by the text behind its position. -/
def Unfused (p : Parser) : Prop :=
  ∀ c ∈ p.draft.statement.allConditions, c.Unfused p.cursor.rest

theorem step_unfused (hp : p.draft.Pictured) (h : p.Unfused) (hstep : p.step = .ok () q) :
    q.Unfused := by
  have hq := step_pictured hp hstep
  obtain ⟨draft, hdraft, rfl⟩ := step_eq_ok_iff.mp hstep
  have hedited := Draft.accept_editedBy hp draft hdraft
  intro c hc
  rcases hedited.mem_allConditions hc with hkept | hnew | ⟨a, ha, hedit⟩
  · exact (Draft.begun_of_kept hp hq hdraft hkept hc).unfused (h c hkept).1 _
  · have hunfused := hnew.unfused
    refine ⟨hunfused.1, fun hnone => ?_⟩
    simp only [advance]
    split
    · exact reserved?_eq_none_of_closesPhrase closesPhrase_nil
    · exact hunfused.2 hnone
  · exact hedit.unfused (h a ha) _

end Parser

/-! ## Indexes and views -/

namespace Draft

variable {d d' : Draft} {t : Token} {rest : List Char}

/-- Behind the first token the kind is fixed. -/
theorem kind_of_accept (hp : d.Pictured) (haccept : d.accept t rest = .ok d')
    (hstate : d.state ≠ .beginning) : d'.statement.kind = d.statement.kind := by
  refine (accept_editedBy hp d' haccept).kind.resolve_left fun hunknown => ?_
  have hmem := hp.admitted.kind
  rw [hunknown] at hmem
  revert hmem hstate
  cases d.state <;> simp [State.kinds]

structure IndexStep (t : Token) (place : IndexPlace) (d d' : Draft) : Prop where
  tables : d'.statement.tables = d.statement.tables ∨
    place = .table ∧ ∃ name, t.identifier? = some name ∧
      d'.statement.tables = d.statement.tables ++ [name]
  on : d'.state = .index .table → t.is .on = true

theorem index_step {place : IndexPlace} (hstate : d.state = .index place)
    (haccept : d.accept t rest = .ok d') : IndexStep t place d d' := by
  revert d'
  change Yields (IndexStep t place d) (d.accept t rest)
  have hkeep : ∀ {d' : Draft}, d'.statement.tables = d.statement.tables →
      d'.state ≠ .index .table → IndexStep t place d d' :=
    fun htables hstate => ⟨.inl htables, fun h => absurd h hstate⟩
  have hmodify : ∀ f, Yields (fun d' => d'.statement.tables = d.statement.tables)
      (d.modifyIndex f) := by
    intro f
    fun_cases modifyIndex
    · exact yields_bind.mpr fun index _ => yields_pure.mpr rfl
    · simp
  have hstay : ∀ {next : State}, next ≠ .index .table →
      Yields (IndexStep t place d) (d.follow (some ⟨.stay, next⟩)) :=
    fun hnext => yields_follow.mpr (yields_ok.mpr (hkeep rfl hnext))
  rw [accept, move?, hstate]
  cases place with
  | name =>
      simp only [IndexPlace.move?, yields_follow_map, yields_follow, apply, yields_ok]
      exact fun name _ => hkeep rfl (by simp)
  | on =>
      simp only [IndexPlace.move?, yields_follow_expect]
      exact fun hon => ⟨.inl rfl, fun _ => hon⟩
  | table =>
      simp only [IndexPlace.move?, yields_follow_map, yields_follow, apply, yields_ok]
      exact fun name hname => ⟨.inr ⟨rfl, name, hname, rfl⟩, by simp⟩
  | opening =>
      simp only [IndexPlace.move?, yields_follow_expect]
      exact fun _ => hkeep rfl (by simp)
  | field =>
      simp only [IndexPlace.move?, yields_follow_map, yields_follow, apply, yields_bind,
        yields_pure]
      exact fun name _ => (hmodify _).imp fun d' hd' => hkeep hd' (by simp)
  | orderOrNext =>
      have hdirection : Yields (IndexStep t .orderOrNext d)
          (d.follow (some ⟨.orderIndex t.sortOrder, .index .next⟩)) :=
        yields_follow.mpr ((hmodify _).imp fun d' hd' => hkeep hd' (by simp))
      simp only [IndexPlace.move?]
      split
      · exact hdirection
      · exact hdirection
      · exact hstay (by simp)
      · exact hstay (by simp)
      · simp
  | next =>
      simp only [IndexPlace.move?]
      split
      · exact hstay (by simp)
      · exact hstay (by simp)
      · simp

theorem beginning_step (hstate : d.state = .beginning) (haccept : d.accept t rest = .ok d') :
    d'.statement.tables = d.statement.tables ∧ d'.state ≠ .index .table ∧ d'.state ≠ .done := by
  rw [accept, move?, hstate] at haccept
  obtain ⟨m, draft, hmove, happly, rfl⟩ := follow_eq_ok_iff.mp haccept
  obtain ⟨⟨kind, next⟩, hopening, rfl⟩ := Option.map_eq_some_iff.mp hmove
  obtain rfl := Except.ok.inj happly
  obtain ⟨k, -, hopening⟩ := Option.bind_eq_some_iff.mp hopening
  refine ⟨rfl, ?_⟩
  cases k <;> simp_all [opening?] <;> grind

theorem view_step {place : ViewPlace} (hstate : d.state = .view place)
    (haccept : d.accept t rest = .ok d') :
    d'.statement.viewSelect = d.statement.viewSelect ∨
      d'.statement.viewSelect = some (String.ofList rest) := by
  revert d'
  change Yields _ (d.accept t rest)
  rw [accept, move?, hstate]
  cases place with
  | name => simp [ViewPlace.move?, yields_follow, apply, addTable]
  | columnsOrAs | fieldsNext =>
      simp only [ViewPlace.move?]
      split <;> simp [yields_follow, apply]
  | field => simp [ViewPlace.move?, yields_follow, apply, addField]
  | asKeyword => simp [ViewPlace.move?]
  | query =>
      simp only [ViewPlace.move?]
      split <;> simp [yields_follow, apply]

end Draft

/-- `ON` is only read by itself where no `TABLE` follows. -/
theorem upper_nextWord_ne_table {cs : List Char} (h : (scan cs).token = .keyword .on) :
    upper (nextWord (scan cs).rest) ≠ "TABLE".toList := by
  intro htable
  have hon : upper (scan cs).text = "ON".toList :=
    (scan_text_of_keyword (by decide +kernel) (by decide +kernel) h).1
  have hpair := reserved?_scan_pair cs
  have hcongr : reserved? [(scan cs).text, nextWord (scan cs).rest] =
      reserved? ["ON".toList, "TABLE".toList] := by
    refine reserved?_congr ?_
    simp only [List.map_cons, List.map_nil, hon, htable]
    decide +kernel
  have hphrase : reserved? ["ON".toList, "TABLE".toList] = some .onTable := by decide +kernel
  rw [hpair, hphrase] at hcongr
  cases hcongr

namespace Parser

variable {p q : Parser}

/-- The table of an index is not called `TABLE`, nor will it be. -/
structure Indexed (p : Parser) : Prop where
  next : p.draft.state = .index .table →
    upper (p.cursor.rest.takeWhile isWordChar) ≠ "TABLE".toList
  tables : p.draft.statement.kind = .createIndex →
    ∀ name ∈ p.draft.statement.tables, upperString name ≠ "TABLE"

/-- A step on an index is one of the states of an index. -/
theorem index_of_kind {d : Draft} {t : Token} {rest : List Char} (hp : p.draft.Pictured)
    (haccept : p.draft.accept t rest = .ok d) (hkind : p.draft.statement.kind = .createIndex) :
    ∃ place, p.draft.state = .index place := by
  have hmem := hp.admitted.kind
  rw [hkind] at hmem
  cases hstate : p.draft.state with
  | index place => exact ⟨place, rfl⟩
  | done => simp [Draft.accept, Draft.move?, Draft.follow, hstate] at haccept
  | _ => simp [hstate, State.kinds] at hmem

theorem step_indexed (hp : p.draft.Pictured) (h : p.Indexed) (hstep : p.step = .ok () q) :
    q.Indexed := by
  have hq := step_pictured hp hstep
  obtain ⟨d, haccept, rfl⟩ := step_eq_ok_iff.mp hstep
  by_cases hstart : p.draft.state = .beginning
  · have hempty : p.draft.statement = {} := by simpa [Draft.Pictured, hstart] using hp
    obtain ⟨htables, hstate, -⟩ := Draft.beginning_step hstart haccept
    rw [hempty] at htables
    exact ⟨fun hnext => absurd hnext hstate, fun _ => by simp [htables]⟩
  · have hkind : d.statement.kind = p.draft.statement.kind := Draft.kind_of_accept hp haccept hstart
    have hindex : d.statement.kind = .createIndex →
        ∃ place, p.draft.state = .index place ∧ Draft.IndexStep p.cursor.peek place p.draft d := by
      intro hcreate
      obtain ⟨place, hplace⟩ := index_of_kind hp haccept (hkind ▸ hcreate)
      exact ⟨place, hplace, Draft.index_step hplace haccept⟩
    refine ⟨fun hnext => ?_, fun hcreate name hname => ?_⟩
    · have hmem : d.statement.kind ∈ d.state.kinds := hq.admitted.kind
      rw [show d.state = .index .table from hnext] at hmem
      obtain ⟨place, hplace, hindexStep⟩ := hindex (List.mem_singleton.mp hmem)
      have hon : p.cursor.peek = .keyword .on :=
        Sentence.keyword?_eq_some_iff.mp (Draft.keyword?_of_is (hindexStep.on hnext))
      have hcursor : p.advance = p.cursor.pop := by simp [advance, hplace]
      rw [hcursor]
      exact upper_nextWord_ne_table hon
    · obtain ⟨place, hplace, hindexStep⟩ := hindex hcreate
      rcases hindexStep.tables with htables | ⟨rfl, table, htable, htables⟩
      · exact h.tables (hkind ▸ hcreate) name (htables ▸ hname)
      · rw [htables, List.mem_append, List.mem_singleton] at hname
        rcases hname with hname | rfl
        · exact h.tables (hkind ▸ hcreate) name hname
        · intro hupper
          have hword := (scan_of_identifier htable).2.2
          exact h.next hplace (by rw [hword]; exact upperString_eq_iff.mp hupper)

/-- What follows the position does not end in a blank, and neither does the query
of a view. -/
structure Trimmed (p : Parser) : Prop where
  rest : trimEnd p.cursor.rest = p.cursor.rest
  query : ∀ query ∈ p.draft.statement.viewSelect, trimEnd query.toList = query.toList

theorem step_trimmed (hp : p.draft.Pictured) (h : p.Trimmed) (hstep : p.step = .ok () q) :
    q.Trimmed := by
  have hq := step_pictured hp hstep
  obtain ⟨d, haccept, rfl⟩ := step_eq_ok_iff.mp hstep
  constructor
  · simp only [advance]
    split
    · rfl
    · have hcat := h.rest
      rw [← scan_append p.cursor.rest] at hcat
      exact trimEnd_dropWhile isSpace (trimEnd_of_suffix hcat)
  · intro query hquery
    obtain ⟨hdone, hview⟩ := hq.admitted.viewSelect query hquery
    have hstart : p.draft.state ≠ .beginning := by
      intro hstart
      exact (Draft.beginning_step hstart haccept).2.2 hdone
    have hmem := hp.admitted.kind
    rw [← Draft.kind_of_accept hp haccept hstart, hview] at hmem
    cases hstate : p.draft.state with
    | view place =>
        rcases Draft.view_step hstate haccept with hkeep | hnew
        · exact h.query query (hkeep ▸ hquery)
        · rw [Option.mem_def, hnew] at hquery
          obtain rfl := Option.some.inj hquery
          simpa using h.rest
    | done => simp [Draft.accept, Draft.move?, Draft.follow, hstate] at haccept
    | _ => simp [hstate, State.kinds] at hmem

end Parser

end SqlReader
