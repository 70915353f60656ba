import SqlReader.Proofs.Picture

/-!
# Where a step leads

A step either refuses its token for a reason that a text can cause, or leads to
a draft with a given property.  The lemmas here push this through the parts of
which steps are made, so that later proofs name only what a step changes.
-/

namespace SqlReader

/-- The step is not refused as an internal error, and leads to a draft with `P`
if it is not refused at all. -/
def Leads (P : Draft → Prop) : Except Refusal Draft → Prop
  | .ok d => P d
  | .error (.internal _) => False
  | .error _ => True

section Leads

variable {P : Draft → Prop} {d : Draft} {t : Token}

@[simp] theorem leads_ok : Leads P (.ok d) ↔ P d := Iff.rfl

@[simp] theorem leads_ok_bind {α : Type} {a : α} {f : α → Except Refusal Draft} :
    Leads P (Except.ok a >>= f) ↔ Leads P (f a) := Iff.rfl

@[simp] theorem leads_follow_none : Leads P (d.follow none) ↔ True := Iff.rfl

/-- A move is made if its change can be made. -/
theorem leads_follow {c : Change} {next : State} :
    Leads P (d.follow (some ⟨c, next⟩)) ↔
      Leads (fun d' => P { d' with state := next }) (d.apply c) := by
  rw [Draft.follow]
  cases d.apply c with
  | ok d' => rfl
  | error refusal => cases refusal <;> rfl

theorem leads_of_apply {c : Change} {next : State} {d' : Draft} (happly : d.apply c = .ok d')
    (h : P { d' with state := next }) : Leads P (d.follow (some ⟨c, next⟩)) := by
  rwa [leads_follow, happly]

@[simp] theorem leads_follow_map {α : Type} {o : Option α} {f : α → Move} :
    Leads P (d.follow (o.map f)) ↔ ∀ a, o = some a → Leads P (d.follow (some (f a))) := by
  cases o <;> simp

@[simp] theorem leads_follow_expect {k : Keyword} {next : State} :
    Leads P (d.follow (Move.expect t k next)) ↔ (t.is k = true → P { d with state := next }) := by
  unfold Move.expect
  split
  next h => simp only [leads_follow, Draft.apply, leads_ok, h, forall_const]
  next h => simp [h]

end Leads

theorem ne_empty_of_identifier? {t : Token} {name : String} (h : t.identifier? = some name) :
    name ≠ "" := by
  rintro rfl
  cases t with
  | word s =>
      simp only [Token.identifier?] at h
      split at h
      · obtain rfl : s = "" := by simpa using h
        simp_all [isIdentifier]
      · simp at h
  | _ => simp [Token.identifier?] at h

theorem exists_append_of_ne_nil {α : Type} {as : List α} (h : as ≠ []) :
    ∃ init last, as = init ++ [last] :=
  ⟨_, _, (List.dropLast_concat_getLast h).symm⟩

theorem modifyLast?_append {α : Type} (f : α → α) (as : List α) (a : α) :
    modifyLast? f (as ++ [a]) = some (as ++ [f a]) := by
  induction as with
  | nil => rfl
  | cons b as ih =>
      cases as with
      | nil => simp [modifyLast?]
      | cons c as => simpa [modifyLast?] using ih

/-! ## Predicates being read -/

def Completes (p : Option Predicate) : Prop := ∃ q, p = some q ∧ q.Complete

theorem ChainPending.imp {Q R : Option Predicate → Prop} {cs : List Condition}
    {ls : List Connective} (h : ChainPending Q cs ls) (hQR : ∀ p, Q p → R p) :
    ChainPending R cs ls := by
  obtain ⟨before, name, p, hcs, hbefore, hcount, hQ⟩ := h
  exact ⟨before, name, p, hcs, hbefore, hcount, hQR p hQ⟩

theorem HasItems.takesItems {p : Option Predicate} (h : HasItems p) : TakesItems p := by
  obtain ⟨negated, values, _, hp⟩ := h
  exact ⟨negated, values, hp⟩

theorem HasItems.completes {p : Option Predicate} (h : HasItems p) : Completes p := by
  obtain ⟨negated, values, hne, hp⟩ := h
  exact ⟨_, hp, hne⟩

/-- An operator begins a predicate of its shape. -/
theorem shape_of_predicate? {k : Option Keyword} {p : Predicate} {shape : PredicateShape}
    (h : k.bind Keyword.predicate? = some (p, shape)) :
    match shape with
    | .value => TakesValue (some p)
    | .range => TakesBounds (some p)
    | .list => TakesItems (some p) := by
  obtain ⟨k, -, hk⟩ := Option.bind_eq_some_iff.mp h
  cases k <;> simp only [Keyword.predicate?, Option.some.injEq, Prod.mk.injEq, reduceCtorEq] at hk
  all_goals
    obtain ⟨rfl, rfl⟩ := hk
    simp [TakesValue, TakesBounds, TakesItems, Operator.isComparison]

section Fill

variable (value : String)

theorem completes_fillValue (p : Option Predicate) (h : TakesValue p) :
    ∃ old new, p = some old ∧ old.fillValue value = .ok new ∧ Completes (some new) := by
  rcases h with ⟨op, right, hop, rfl⟩ | ⟨negated, pattern, rfl⟩
  · exact ⟨_, _, rfl, rfl, _, rfl, hop, value, rfl⟩
  · exact ⟨_, _, rfl, rfl, _, rfl, trivial⟩

theorem takesBounds_fillLow (p : Option Predicate) (h : TakesBounds p) :
    ∃ old new, p = some old ∧ old.fillLow value = .ok new ∧ TakesBounds (some new) := by
  obtain ⟨negated, low, high, rfl⟩ := h
  exact ⟨_, _, rfl, rfl, negated, value, high, rfl⟩

theorem completes_fillHigh (p : Option Predicate) (h : TakesBounds p) :
    ∃ old new, p = some old ∧ old.fillHigh value = .ok new ∧ Completes (some new) := by
  obtain ⟨negated, low, high, rfl⟩ := h
  exact ⟨_, _, rfl, rfl, _, rfl, trivial⟩

theorem hasItems_addValue (p : Option Predicate) (h : TakesItems p) :
    ∃ old new, p = some old ∧ old.addValue value = .ok new ∧ HasItems (some new) := by
  obtain ⟨negated, values, rfl⟩ := h
  exact ⟨_, _, rfl, rfl, negated, values ++ [value], by simp, rfl⟩

end Fill

end SqlReader
