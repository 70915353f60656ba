import SqlReader.Proofs.ErrorPosition
import SqlReader.Proofs.Writing.Basic

/-!
# Taking a list of tokens

`Draft.run` takes the tokens of a list one after the other.  What a list brings
about is stated as a triple, from a property of the draft before it to one of the
draft after it; triples are joined where lists are joined.
-/

namespace SqlReader

/-- Takes tokens one after the other.  The query of a view is not read by tokens. -/
def Draft.run (d : Draft) : List Token → Except Refusal Draft
  | [] => .ok d
  | t :: ts =>
    if d.state = .view .query then .error .unexpected
    else do
      let d ← d.accept t []
      d.run ts

theorem Draft.run_append (d : Draft) (ts us : List Token) :
    d.run (ts ++ us) = (d.run ts >>= fun d => d.run us) := by
  induction ts generalizing d with
  | nil => rfl
  | cons t ts ih =>
      simp only [List.cons_append, Draft.run]
      split
      · rfl
      · cases d.accept t [] with
        | error refusal => rfl
        | ok d' => exact ih d'

/-- Outside the query of a view a step does not look at the text behind its token. -/
theorem Draft.accept_congr {d : Draft} (hquery : d.state ≠ .view .query) (t : Token)
    (rest : List Char) : d.accept t rest = d.accept t [] := by
  unfold accept move?
  generalize hstate : d.state = state at hquery
  cases state with
  | view place =>
      cases place with
      | query => exact absurd rfl hquery
      | _ => rfl
  | _ => rfl

theorem Draft.accept_query {d : Draft} (hquery : d.state = .view .query) (t : Token)
    (rest : List Char) :
    d.accept t rest =
      if t.is .select then
        .ok { d with
          statement := { d.statement with viewSelect := some (String.ofList rest) }
          state := .done }
      else .error .unexpected := by
  rw [accept, move?, hquery]
  simp only [ViewPlace.move?]
  split <;> rfl

theorem Draft.accept_of_move {d : Draft} {t : Token} {rest : List Char} {c : Change}
    {next : State} (h : d.move? t rest = some ⟨c, next⟩) :
    d.accept t rest = (d.apply c >>= (·.goto next)) := by
  rw [accept, h]
  rfl

theorem Token.identifier?_word {s : String} (h : isIdentifier s = true) :
    (Token.word s).identifier? = some s := by
  simp [Token.identifier?, h]

/-- From every draft with `P` the tokens lead to a draft with `Q`. -/
def Brings (P : Draft → Prop) (ts : List Token) (Q : Draft → Prop) : Prop :=
  ∀ d, P d → ∃ d', d.run ts = .ok d' ∧ Q d'

namespace Brings

variable {P Q R : Draft → Prop} {ts us : List Token}

theorem nil (h : ∀ d, P d → Q d) : Brings P [] Q := fun d hd => ⟨d, rfl, h d hd⟩

theorem append (h : Brings P ts Q) (h' : Brings Q us R) : Brings P (ts ++ us) R := by
  intro d hd
  obtain ⟨d₁, hrun, hd₁⟩ := h d hd
  obtain ⟨d₂, hrun', hd₂⟩ := h' d₁ hd₁
  refine ⟨d₂, ?_, hd₂⟩
  rw [Draft.run_append, hrun]
  exact hrun'

theorem step {t : Token}
    (h : ∀ d, P d → d.state ≠ .view .query ∧ ∃ d', d.accept t [] = .ok d' ∧ Q d') :
    Brings P [t] Q := by
  intro d hd
  obtain ⟨hquery, d', hstep, hd'⟩ := h d hd
  refine ⟨d', ?_, hd'⟩
  simp only [Draft.run, if_neg hquery, hstep]
  rfl

theorem cons {t : Token} (h : Brings P [t] Q) (h' : Brings Q ts R) : Brings P (t :: ts) R :=
  h.append h'

theorem weaken {P' Q' : Draft → Prop} (h : Brings P ts Q) (hP : ∀ d, P' d → P d)
    (hQ : ∀ d, Q d → Q' d) : Brings P' ts Q' := by
  intro d hd
  obtain ⟨d', hrun, hd'⟩ := h d (hP d hd)
  exact ⟨d', hrun, hQ d' hd'⟩

theorem exists_imp_exists {ι : Type} {S T : ι → Draft → Prop} (h : ∀ i, Brings (S i) ts (T i)) :
    Brings (fun d => ∃ i, S i d) ts (fun d => ∃ i, T i d) := by
  rintro d ⟨i, hd⟩
  obtain ⟨d', hrun, hd'⟩ := h i d hd
  exact ⟨d', hrun, i, hd'⟩

variable {α : Type} {item : α → List Token} {as : List α}

/-- The items of a list are taken one after the other. -/
theorem flatMap {S : List α → Draft → Prop}
    (h : ∀ before a after, as = before ++ a :: after →
      Brings (S before) (item a) (S (before ++ [a]))) :
    Brings (S []) (as.flatMap item) (S as) := by
  suffices hsuffix : ∀ before after, as = before ++ after →
      Brings (S before) (after.flatMap item) (S as) from hsuffix [] as rfl
  intro before after has
  induction after generalizing before with
  | nil =>
      rw [List.append_nil] at has
      rw [has]
      exact .nil fun _ hd => hd
  | cons a after ih =>
      rw [List.flatMap_cons]
      exact (h before a after has).append (ih (before ++ [a]) (by simp [has]))

/-- The items of a list with commas between them: `S` holds before an item is
read and `T` after it. -/
theorem commaList {S T : List α → Draft → Prop} (hne : as ≠ [])
    (hitem : ∀ before a after, as = before ++ a :: after →
      Brings (S before) (item a) (T (before ++ [a])))
    (hcomma : ∀ before, Brings (T before) [.keyword .comma] (S before)) :
    Brings (S []) (SqlReader.commaList item as) (T as) := by
  obtain ⟨a, as, rfl⟩ := List.exists_cons_of_ne_nil hne
  have hfirst : Brings (S []) (item a) (T [a]) := hitem [] a as rfl
  refine hfirst.append (flatMap (S := fun before => T (a :: before)) ?_)
  intro before b after has
  exact (hcomma _).cons (hitem (a :: before) b after (by simp [has]))

end Brings

structure Draft.At (state : State) (s : Statement) (d : Draft) : Prop where
  state_eq : d.state = state
  statement_eq : d.statement = s

/-- The statement is read and may end here. -/
structure Draft.Ended (s : Statement) (d : Draft) : Prop where
  accepting : d.state.isAccepting = true
  statement_eq : d.statement = s

namespace Brings

variable {a b : State} {s s' : Statement} {t : Token}

theorem of_accept (ha : a ≠ .view .query)
    (h : ∀ d : Draft, d.state = a → d.statement = s →
      ∃ d', d.accept t [] = .ok d' ∧ d'.state = b ∧ d'.statement = s') :
    Brings (Draft.At a s) [t] (Draft.At b s') := by
  refine .step ?_
  rintro d ⟨hstate, hs⟩
  obtain ⟨d', haccept, hd'⟩ := h d hstate hs
  exact ⟨hstate ▸ ha, d', haccept, hd'.1, hd'.2⟩

/-- A name is taken by a place that adds it to the draft. -/
theorem of_name {add : String → Change} {name : String} (h : isIdentifier name = true)
    (ha : a ≠ .view .query)
    (hmove : ∀ d : Draft, Draft.move? { d with state := a } (.word name) [] =
      (Token.word name).identifier?.map fun name => ⟨add name, b⟩)
    (hadd : ∀ d : Draft, d.statement = s →
      ∃ d', d.apply (add name) = .ok d' ∧ d'.statement = s') :
    Brings (Draft.At a s) [.word name] (Draft.At b s') := by
  refine of_accept ha ?_
  rintro d rfl hs
  obtain ⟨d', happly, hd'⟩ := hadd d hs
  have hname := hmove d
  rw [Token.identifier?_word h] at hname
  rw [Draft.accept_of_move hname, happly]
  exact ⟨_, rfl, rfl, hd'⟩

theorem of_goto (ha : a ≠ .view .query)
    (h : ∀ d : Draft, Draft.move? { d with state := a, statement := s } t [] = some ⟨.stay, b⟩) :
    Brings (Draft.At a s) [t] (Draft.At b s) := by
  refine of_accept ha ?_
  rintro d rfl rfl
  exact ⟨_, Draft.accept_of_move (h d), rfl, rfl⟩

theorem ended {P : Draft → Prop} {ts : List Token} (h : Brings P ts (Draft.At b s))
    (hb : b.isAccepting = true) : Brings P ts (Draft.Ended s) :=
  h.weaken (fun _ hd => hd) fun _ hd => ⟨hd.state_eq ▸ hb, hd.statement_eq⟩

/-- A list whose items are collected in the statement. -/
theorem commaList_at {α : Type} {item : α → List Token} {as : List α} {f : List α → Statement}
    (hne : as ≠ []) (hb : b ≠ .view .query)
    (hcomma : ∀ d : Draft, Draft.move? { d with state := b } (.keyword .comma) [] = some ⟨.stay, a⟩)
    (hitem : ∀ before x after, as = before ++ x :: after →
      Brings (Draft.At a (f before)) (item x) (Draft.At b (f (before ++ [x])))) :
    Brings (Draft.At a (f [])) (SqlReader.commaList item as) (Draft.At b (f as)) :=
  Brings.commaList (S := fun before => Draft.At a (f before))
    (T := fun before => Draft.At b (f before)) hne hitem
    fun before => .of_goto hb fun d => hcomma { d with statement := f before }

end Brings

/-! ## The parts of all statements -/

def namesTokens (names : List String) : List Token := commaList (fun name => [.word name]) names

theorem Names.identifiers {names : List String} (h : Names names) :
    ∀ name ∈ names, isIdentifier name = true :=
  fun name hname => (h.2 name hname).identifier

theorem sayable_names {names : List String} (h : ∀ name ∈ names, PlainName name) :
    Sayable (namesTokens names) :=
  sayable_commaList fun name hname => sayable_name (h name hname)

namespace Draft

theorem brings_beginning {k : Keyword} {kind : Kind} {state : State}
    (h : opening? k = some (kind, state)) :
    Brings (At .beginning {}) [.keyword k] (At state { kind }) := by
  refine .of_accept (by decide) fun d hstate hs => ?_
  refine ⟨{ d with statement := { d.statement with kind }, state }, ?_, rfl, by simp [hs]⟩
  simp [accept, move?, hstate, Move.begin, Token.keyword?, h, follow, apply, goto, bind,
    Except.bind]

/-- A list of names, each of which is added to the statement. -/
theorem brings_names {a b : State} {f : List String → Statement} {names : List String}
    (add : String → Change) (hne : names ≠ [])
    (h : ∀ name ∈ names, isIdentifier name = true) (ha : a ≠ .view .query) (hb : b ≠ .view .query)
    (hname : ∀ (d : Draft) name, Draft.move? { d with state := a } (.word name) [] =
      (Token.word name).identifier?.map fun name => ⟨add name, b⟩)
    (hadd : ∀ (d : Draft) before name, d.statement = f before →
      ∃ d', d.apply (add name) = .ok d' ∧ d'.statement = f (before ++ [name]))
    (hcomma : ∀ d : Draft, Draft.move? { d with state := b } (.keyword .comma) [] =
      some ⟨.stay, a⟩) :
    Brings (At a (f [])) (namesTokens names) (At b (f names)) := by
  refine Brings.commaList_at hne hb hcomma fun before name after hnames => ?_
  exact .of_name (h name (by simp [hnames])) ha (hname · name) (hadd · before name)

/-- The only table of a statement. -/
theorem brings_table {a b : State} {table : String} (kind : Kind)
    (h : isIdentifier table = true) (ha : a ≠ .view .query)
    (htable : ∀ d : Draft, Draft.move? { d with state := a } (.word table) [] =
      (Token.word table).identifier?.map fun name => ⟨.addTable name, b⟩) :
    Brings (At a { kind }) (namesTokens [table]) (At b { kind, tables := [table] }) :=
  .of_name h ha htable fun d hs => ⟨_, rfl, by simp [addTable, hs]⟩

end Draft

/-- The tokens can be written and are read as the statement. -/
structure Statement.WrittenAs (s : Statement) (ts : List Token) : Prop where
  sayable : Sayable ts
  brings : Brings (Draft.At .beginning {}) ts (Draft.Ended s)

/-! ## Runs of a parser -/

namespace Parser

theorem steps_of_run {p : Parser} {ts : List Token} {rest : List Char} {d : Draft}
    (hreads : Reads p.cursor.rest ts rest) (hrun : p.draft.run ts = .ok d) :
    ∃ q, Steps p ts q ∧ q.draft = d ∧ q.cursor.rest = rest := by
  generalize hcs : p.cursor.rest = cs at hreads
  induction hreads generalizing p with
  | refl cs => exact ⟨p, .refl p, Except.ok.inj hrun, hcs⟩
  | @head cs rest ts hne hrest ih =>
      subst hcs
      simp only [Draft.run] at hrun
      split at hrun
      · cases hrun
      next hquery =>
        cases hstep : p.draft.accept (scan p.cursor.rest).token [] with
        | error refusal => simp [hstep, bind, Except.bind] at hrun
        | ok d' =>
            rw [hstep] at hrun
            have hparser : p.step = .ok () { p with draft := d', cursor := p.advance } :=
              step_eq_ok_iff.mpr ⟨d', by rwa [Draft.accept_congr hquery], rfl⟩
            have hcursor : p.advance = p.cursor.pop := by rw [advance, if_neg hquery]
            obtain ⟨q, hsteps, hq, hend⟩ :=
              ih (p := { p with draft := d', cursor := p.advance }) hrun (by rw [hcursor]; rfl)
            have hlive : p.cursor.atEnd = false := by simpa [Cursor.atEnd] using hne
            exact ⟨q, .head hlive hparser hsteps, hq, hend⟩

end Parser

end SqlReader
