import SqlReader.Proofs.Writing.Taking

/-!
# Writing conditions

Filters and checks read their conditions in states of their own, by the same
steps.  While a condition is read, the statement has a hole: what is read of the
condition fills it.
-/

namespace SqlReader

/-! ## Tokens -/

def Operator.keyword : Operator → Keyword
  | .eq => .equal
  | .ne => .notEqual
  | .gt => .greater
  | .lt => .less
  | .gte => .greaterEqual
  | .lte => .lessEqual
  | .between => .between
  | .notBetween => .notBetween
  | .like => .like
  | .notLike => .notLike
  | .inList => .inList
  | .notInList => .notInList

def Connective.keyword : Connective → Keyword
  | .and => .and
  | .or => .or

namespace Predicate

def operands : Predicate → List Token
  | .compare _ right => [.literal right.text]
  | .between _ low high => [.literal low, .keyword .and, .literal high]
  | .inList _ values => bracketed (commaList (fun value => [.literal value]) values)
  | .like _ pattern => [.literal pattern]

def tokens (p : Predicate) : List Token := .keyword p.operator.keyword :: p.operands

/-- What the operator begins, still without values. -/
def begun : Predicate → Predicate
  | .compare op _ => .compare op (.literal "")
  | .between negated _ _ => .between negated "" ""
  | .inList negated _ => .inList negated []
  | .like negated _ => .like negated ""

def shape : Predicate → PredicateShape
  | .compare _ _ | .like _ _ => .value
  | .between _ _ _ => .range
  | .inList _ _ => .list

theorem predicate?_keyword {p : Predicate} (hp : p.Complete) :
    p.operator.keyword.predicate? = some (p.begun, p.shape) := by
  cases p with
  | compare op right =>
      obtain ⟨hop, -⟩ := hp
      cases op <;> first | rfl | cases hop
  | between negated low high => cases negated <;> rfl
  | inList negated values => cases negated <;> rfl
  | like negated pattern => cases negated <;> rfl

end Predicate

def Condition.tokens (c : Condition) : List Token :=
  .word c.left.text :: (c.predicate.map Predicate.tokens).getD []

def chainTokens : List Condition → List Connective → List Token
  | [], _ => []
  | c :: cs, ls =>
    c.tokens ++ (ls.zip cs).flatMap fun link => .keyword link.1.keyword :: link.2.tokens

/-! ## They can be written -/

section Sayable

theorem opens_operator (op : Operator) : op.keyword.opens = false := by
  cases op <;> rfl

theorem shut_operands {p : Predicate} (h : p.Stores QuotableValue) : Shut p.operands := by
  cases p with
  | compare op right => exact shut_literal h
  | like negated pattern => exact shut_literal h
  | between negated low high =>
      exact (shut_literal h.1).append ((shut_keyword rfl).append (shut_literal h.2))
  | inList negated values =>
      exact shut_bracketed (sayable_commaList fun value hvalue =>
        (shut_literal (h value hvalue)).toSayable)

/-- A column may stand before the operator of its condition. -/
theorem Condition.apart_of_not_fused {c : Condition} {p : Predicate} (h : ¬ c.Fused)
    (hp : c.predicate = some p) :
    Token.Apart (.word c.left.text) (.keyword p.operator.keyword) := by
  cases hcloses : p.operator.keyword.closes with
  | false => exact reserved?_eq_none_of_closesPhrase (closesPhrase_keyword hcloses)
  | true =>
      have hmem : p.operator ∈ [Operator.inList, .like, .between] := by
        revert hcloses
        cases p.operator <;> simp [Operator.keyword, Keyword.closes]
      have hfirst : ∀ op ∈ [Operator.inList, .like, .between], ∀ e ∈ vocabulary,
          (e.words.map String.toList)[1]? =
            some (Text.upper (Token.keyword op.keyword).firstWord) →
          (e.words.map String.toList)[0]? = some "NOT".toList := by
        decide +kernel
      refine reserved?_eq_none_of_first (hfirst _ hmem) fun hname => h ⟨?_, p, hp, hmem⟩
      exact upperString_eq_iff.mpr hname

theorem Condition.Expressible.shut {c : Condition} (h : c.Expressible) : Shut c.tokens := by
  obtain ⟨name, p, rfl, hcomplete⟩ := h.complete
  have hstores : p.Stores QuotableValue := h.stores.2 p rfl
  have hoperator : Sayable [.keyword p.operator.keyword] :=
    (shut_keyword (opens_operator _)).toSayable
  have hhead : Sayable ([.word name] ++ [.keyword p.operator.keyword]) := by
    refine (sayable_name h.stores.1).append hoperator ?_
    simpa using Condition.apart_of_not_fused h.apart rfl
  have hshut := hhead.shut_append (shut_keyword (opens_operator _)) (by simp)
  exact hshut.append (shut_operands hstores)

theorem shut_chain {cs : List Condition} {ls : List Connective} (h : ∀ c ∈ cs, c.Expressible) :
    Shut (chainTokens cs ls) := by
  cases cs with
  | nil => exact ⟨.nil, by simp [chainTokens]⟩
  | cons c cs =>
      refine (h c (by simp)).shut.append (shut_flatMap fun link hlink => ?_)
      have hmem : link.2 ∈ cs := (List.of_mem_zip hlink).2
      have hopens : link.1.keyword.opens = false := by cases link.1 <;> rfl
      exact (shut_keyword hopens).append (h link.2 (by simp [hmem])).shut

end Sayable

/-! ## They are read -/

namespace Clause

/-! The states in which a clause reads its conditions. -/

def operator : Clause → State
  | .filter => .filter .operator
  | .check => .check .operator

def value : Clause → State
  | .filter => .filter .value
  | .check => .check .value

def listOpen : Clause → State
  | .filter => .filter .listOpen
  | .check => .check .listOpen

def listValue : Clause → State
  | .filter => .filter .listValue
  | .check => .check .listValue

def listNext : Clause → State
  | .filter => .filter .listNext
  | .check => .check .listNext

def conjunction : Clause → State
  | .filter => .filter .conjunction
  | .check => .check .conjunctionOrClose

def afterOperator (clause : Clause) : PredicateShape → State
  | .value => clause.value
  | .list => clause.listOpen
  | .range => .filter .betweenLow

variable {d : Draft}

theorem accept_operator (clause : Clause) {k : Keyword} {p : Predicate} {shape : PredicateShape}
    (h : d.state = clause.operator) (hk : k.predicate? = some (p, shape))
    (hrange : clause = .check → shape ≠ .range) :
    d.accept (.keyword k) [] = (d.setPredicate p >>= (·.goto (clause.afterOperator shape))) := by
  have hpredicate : (Token.keyword k).keyword?.bind Keyword.predicate? = some (p, shape) := hk
  rw [Draft.accept, Draft.move?, h]
  cases clause with
  | filter =>
      simp only [operator, FilterPlace.move?, hpredicate]
      cases shape <;> rfl
  | check =>
      simp only [operator, CheckPlace.move?, hpredicate]
      cases shape with
      | value => rfl
      | list => rfl
      | range => exact absurd rfl (hrange rfl)

theorem accept_value (clause : Clause) (h : d.state = clause.value) {t : Token} {v : String}
    (ht : t.value? = some v) :
    d.accept t [] = (d.modifyPredicate (·.fillValue v) >>= (·.goto clause.conjunction)) := by
  rw [Draft.accept, Draft.move?, h]
  cases clause with
  | filter => simp only [value, FilterPlace.move?, ht]; rfl
  | check => simp only [value, CheckPlace.move?, ht]; rfl

theorem accept_listOpen (clause : Clause) (h : d.state = clause.listOpen) :
    d.accept (.keyword .leftParen) [] = d.goto clause.listValue := by
  rw [Draft.accept, Draft.move?, h]
  cases clause <;> rfl

theorem accept_listValue (clause : Clause) (h : d.state = clause.listValue) {t : Token}
    {v : String} (ht : t.value? = some v) :
    d.accept t [] = (d.modifyPredicate (·.addValue v) >>= (·.goto clause.listNext)) := by
  rw [Draft.accept, Draft.move?, h]
  cases clause with
  | filter => simp only [listValue, FilterPlace.move?, ht]; rfl
  | check => simp only [listValue, CheckPlace.move?, ht]; rfl

theorem accept_listComma (clause : Clause) (h : d.state = clause.listNext) :
    d.accept (.keyword .comma) [] = d.goto clause.listValue := by
  rw [Draft.accept, Draft.move?, h]
  cases clause <;> rfl

theorem accept_listClose (clause : Clause) (h : d.state = clause.listNext) :
    d.accept (.keyword .rightParen) [] = d.goto clause.conjunction := by
  rw [Draft.accept, Draft.move?, h]
  cases clause <;> rfl

end Clause

/-- What a check needs beside the statement. -/
def Draft.frame (d : Draft) : Option Nat × ConstraintScope × Option Nat × Bool :=
  (d.currentColumn, d.constraintScope, d.checkColumn, d.freshCheck)

/-- The position is that of the condition that fills the hole. -/
def ConditionSlot.Fills (slot : ConditionSlot) (hole : Condition → Statement) : Prop :=
  ∀ d : Draft, ∀ c, d.openCondition = some slot → d.statement = hole c →
    d.openCondition? = some c ∧ ∀ c', (d.putCondition c').statement = hole c'

/-- The condition `c` is being read and fills the hole. -/
structure Draft.Reading (state : State) (hole : Condition → Statement)
    (frame : Option Nat × ConstraintScope × Option Nat × Bool) (c : Condition) (d : Draft) :
    Prop where
  state_eq : d.state = state
  statement_eq : d.statement = hole c
  frame_eq : d.frame = frame
  slot : ∃ slot, d.openCondition = some slot ∧ slot.Fills hole

namespace Draft

theorem putCondition_frame (d : Draft) (c : Condition) : (d.putCondition c).frame = d.frame := by
  unfold putCondition
  split <;> rfl

theorem putCondition_openCondition (d : Draft) (c : Condition) :
    (d.putCondition c).openCondition = d.openCondition := by
  unfold putCondition
  split <;> rfl

section Reading

variable {state : State} {hole : Condition → Statement} {d : Draft} {c : Condition}
  {frame : Option Nat × ConstraintScope × Option Nat × Bool}

theorem Reading.put (h : d.Reading state hole frame c) (c' : Condition) (state' : State) :
    Reading state' hole frame c' { d.putCondition c' with state := state' } := by
  obtain ⟨slot, hslot, hfills⟩ := h.slot
  refine ⟨rfl, (hfills d c hslot h.statement_eq).2 c', ?_, slot, ?_, hfills⟩
  · exact (putCondition_frame d c').trans h.frame_eq
  · exact (putCondition_openCondition d c').trans hslot

theorem Reading.current (h : d.Reading state hole frame c) : d.currentCondition = .ok c := by
  obtain ⟨slot, hslot, hfills⟩ := h.slot
  exact currentCondition_eq_ok_iff.mpr (hfills d c hslot h.statement_eq).1

theorem Reading.goto (h : d.Reading state hole frame c) (state' : State) :
    Reading state' hole frame c { d with state := state' } :=
  ⟨rfl, h.statement_eq, h.frame_eq, h.slot⟩

theorem Reading.setPredicate (h : d.Reading state hole frame c) (p : Predicate) (state' : State) :
    ∃ d', (d.setPredicate p >>= (·.goto state')) = .ok d' ∧
      Reading state' hole frame { c with predicate := some p } d' := by
  refine ⟨_, ?_, h.put _ state'⟩
  rw [Draft.setPredicate, h.current]
  rfl

theorem Reading.modifyPredicate {p q : Predicate} {f : Predicate → Except Refusal Predicate}
    (h : d.Reading state hole frame c) (hp : c.predicate = some p) (hq : f p = .ok q)
    (state' : State) :
    ∃ d', (d.modifyPredicate f >>= (·.goto state')) = .ok d' ∧
      Reading state' hole frame { c with predicate := some q } d' := by
  refine ⟨_, ?_, h.put _ state'⟩
  rw [Draft.modifyPredicate, h.current]
  simp only [bind, Except.bind, hp, hq]
  rfl

end Reading

section Steps

variable {hole : Condition → Statement} {left : Operand} {p q : Predicate} {c : Condition}
  {frame : Option Nat × ConstraintScope × Option Nat × Bool} {a b : State} {t : Token}

theorem brings_goto (ha : a ≠ .view .query)
    (h : ∀ d : Draft, d.state = a → d.accept t [] = d.goto b) :
    Brings (Reading a hole frame c) [t] (Reading b hole frame c) :=
  .step fun d hd => ⟨by rwa [hd.state_eq], _, h d hd.state_eq, hd.goto b⟩

theorem brings_setPredicate (ha : a ≠ .view .query)
    (h : ∀ d : Draft, d.state = a → d.accept t [] = (d.setPredicate p >>= (·.goto b))) :
    Brings (Reading a hole frame ⟨left, none⟩) [t] (Reading b hole frame ⟨left, some p⟩) := by
  refine .step fun d hd => ⟨by rwa [hd.state_eq], ?_⟩
  rw [h d hd.state_eq]
  exact hd.setPredicate p b

theorem brings_modifyPredicate {f : Predicate → Except Refusal Predicate} (ha : a ≠ .view .query)
    (h : ∀ d : Draft, d.state = a → d.accept t [] = (d.modifyPredicate f >>= (·.goto b)))
    (hf : f p = .ok q) :
    Brings (Reading a hole frame ⟨left, some p⟩) [t] (Reading b hole frame ⟨left, some q⟩) := by
  refine .step fun d hd => ⟨by rwa [hd.state_eq], ?_⟩
  rw [h d hd.state_eq]
  exact hd.modifyPredicate rfl hf b

end Steps

section Predicates

variable {hole : Condition → Statement} {left : Operand} {p : Predicate}
  {frame : Option Nat × ConstraintScope × Option Nat × Bool}

theorem brings_list (clause : Clause) (negated : Bool) {α : Type} {token : α → Token}
    {text : α → String} (htext : ∀ a, (token a).value? = some (text a)) {as : List α}
    (hne : as ≠ []) :
    Brings (Reading clause.listOpen hole frame ⟨left, some (.inList negated [])⟩)
      (bracketed (commaList (fun a => [token a]) as))
      (Reading clause.conjunction hole frame ⟨left, some (.inList negated (as.map text))⟩) := by
  have hopen : Brings (Reading clause.listOpen hole frame ⟨left, some (.inList negated [])⟩)
      [.keyword .leftParen]
      (Reading clause.listValue hole frame ⟨left, some (.inList negated [])⟩) :=
    brings_goto (by cases clause <;> decide) fun d hd => clause.accept_listOpen hd
  have hvalues : Brings (Reading clause.listValue hole frame ⟨left, some (.inList negated [])⟩)
      (commaList (fun a => [token a]) as)
      (Reading clause.listNext hole frame ⟨left, some (.inList negated (as.map text))⟩) := by
    refine Brings.commaList
      (S := fun before =>
        Reading clause.listValue hole frame ⟨left, some (.inList negated (before.map text))⟩)
      (T := fun before =>
        Reading clause.listNext hole frame ⟨left, some (.inList negated (before.map text))⟩)
      hne ?_ ?_
    · intro before a _ _
      rw [List.map_append]
      exact brings_modifyPredicate (by cases clause <;> decide)
        (fun d hd => clause.accept_listValue hd (htext a)) rfl
    · intro before
      exact brings_goto (by cases clause <;> decide) fun d hd => clause.accept_listComma hd
  have hclose : Brings
      (Reading clause.listNext hole frame ⟨left, some (.inList negated (as.map text))⟩)
      [.keyword .rightParen]
      (Reading clause.conjunction hole frame ⟨left, some (.inList negated (as.map text))⟩) :=
    brings_goto (by cases clause <;> decide) fun d hd => clause.accept_listClose hd
  exact hopen.cons (hvalues.append hclose)

theorem brings_range (negated : Bool) (low high : String) :
    Brings (Reading (.filter .betweenLow) hole frame ⟨left, some (.between negated "" "")⟩)
      [.literal low, .keyword .and, .literal high]
      (Reading (.filter .conjunction) hole frame ⟨left, some (.between negated low high)⟩) := by
  have hlow : Brings
      (Reading (.filter .betweenLow) hole frame ⟨left, some (.between negated "" "")⟩)
      [.literal low]
      (Reading (.filter .betweenAnd) hole frame ⟨left, some (.between negated low "")⟩) := by
    refine brings_modifyPredicate (f := (·.fillLow low)) (by decide) (fun d hd => ?_) rfl
    rw [accept, move?, hd]
    rfl
  have hand : Brings
      (Reading (.filter .betweenAnd) hole frame ⟨left, some (.between negated low "")⟩)
      [.keyword .and]
      (Reading (.filter .betweenHigh) hole frame ⟨left, some (.between negated low "")⟩) := by
    refine brings_goto (by decide) fun d hd => ?_
    rw [accept, move?, hd]
    rfl
  have hhigh : Brings
      (Reading (.filter .betweenHigh) hole frame ⟨left, some (.between negated low "")⟩)
      [.literal high]
      (Reading (.filter .conjunction) hole frame ⟨left, some (.between negated low high)⟩) := by
    refine brings_modifyPredicate (f := (·.fillHigh high)) (by decide) (fun d hd => ?_) rfl
    rw [accept, move?, hd]
    rfl
  exact hlow.cons (hand.cons hhigh)

theorem brings_operands (clause : Clause) (hp : p.Complete) (hrange : clause = .check → p.NoRange) :
    Brings (Reading (clause.afterOperator p.shape) hole frame ⟨left, some p.begun⟩) p.operands
      (Reading clause.conjunction hole frame ⟨left, some p⟩) := by
  cases p with
  | compare op right =>
      obtain ⟨-, text, rfl⟩ := hp
      exact brings_modifyPredicate (a := clause.value) (by cases clause <;> decide)
        (fun d hd => clause.accept_value hd rfl) rfl
  | like negated pattern =>
      exact brings_modifyPredicate (a := clause.value) (by cases clause <;> decide)
        (fun d hd => clause.accept_value hd rfl) rfl
  | inList negated values =>
      have hlist : Brings (Reading clause.listOpen hole frame ⟨left, some (.inList negated [])⟩)
          (bracketed (commaList (fun value => [.literal value]) values))
          (Reading clause.conjunction hole frame ⟨left, some (.inList negated (values.map id))⟩) :=
        brings_list clause negated (fun _ => rfl) hp
      rwa [List.map_id] at hlist
  | between negated low high =>
      cases clause with
      | filter => exact brings_range negated low high
      | check => exact (hrange rfl).elim

/-- The predicate of a condition is read behind its column. -/
theorem brings_predicate (clause : Clause) (hp : p.Complete)
    (hrange : clause = .check → p.NoRange) :
    Brings (Reading clause.operator hole frame ⟨left, none⟩) p.tokens
      (Reading clause.conjunction hole frame ⟨left, some p⟩) := by
  have hshape : clause = .check → p.shape ≠ .range := by
    intro hclause hshape
    have hno := hrange hclause
    cases p with
    | between _ _ _ => exact hno
    | _ => cases hshape
  have hoperator : Brings (Reading clause.operator hole frame ⟨left, none⟩)
      [.keyword p.operator.keyword]
      (Reading (clause.afterOperator p.shape) hole frame ⟨left, some p.begun⟩) :=
    brings_setPredicate (by cases clause <;> decide) fun d hd =>
      clause.accept_operator hd (Predicate.predicate?_keyword hp) hshape
  exact hoperator.cons (brings_operands clause hp hrange)

end Predicates

/-! ## Filters -/

variable {s : Statement}

def filterHole (s : Statement) (c : Condition) : Statement :=
  { s with conditions := s.conditions ++ [c] }

theorem fills_filter (s : Statement) :
    (ConditionSlot.filter s.conditions.length).Fills (filterHole s) := by
  intro d c hslot hs
  refine ⟨by simp [openCondition?, hslot, hs, filterHole], fun c' => ?_⟩
  simp [putCondition, hslot, hs, filterHole]

theorem brings_filterField {name : String} (hname : PlainName name) :
    Brings (At (.filter .field) s) [.word name] fun d =>
      ∃ frame, Reading (.filter .operator) (filterHole s) frame ⟨.field name, none⟩ d := by
  refine .step ?_
  rintro d ⟨hstate, rfl⟩
  refine ⟨by simp [hstate], ?_⟩
  rw [accept, move?, hstate]
  simp only [FilterPlace.move?, Token.identifier?_word hname.identifier]
  refine ⟨_, rfl, d.frame, rfl, rfl, rfl, _, ?_, fills_filter d.statement⟩
  simp [addCondition]

theorem brings_filterCondition {c : Condition} (hc : c.Expressible) :
    Brings (At (.filter .field) s) c.tokens (At (.filter .conjunction) (filterHole s c)) := by
  obtain ⟨name, p, rfl, hp⟩ := hc.complete
  have hpredicate := Brings.exists_imp_exists fun frame =>
    show Brings (Reading (.filter .operator) (filterHole s) frame ⟨.field name, none⟩) p.tokens
      (Reading (.filter .conjunction) (filterHole s) frame ⟨.field name, some p⟩) from
      brings_predicate .filter hp (by simp)
  refine ((brings_filterField hc.stores.1).cons hpredicate).weaken (fun _ hd => hd) ?_
  rintro d ⟨frame, hd⟩
  exact ⟨hd.state_eq, hd.statement_eq⟩

theorem brings_filterLink (l : Connective) :
    Brings (At (.filter .conjunction) s) [.keyword l.keyword]
      (At (.filter .field) { s with connectives := s.connectives ++ [l] }) := by
  refine .step ?_
  rintro d ⟨hstate, rfl⟩
  refine ⟨by simp [hstate], ?_⟩
  rw [accept, move?, hstate]
  cases l <;> exact ⟨_, rfl, rfl, rfl⟩

theorem brings_chain {cs : List Condition} {ls : List Connective} (h : ChainExpressible cs ls)
    (hne : cs ≠ []) :
    Brings (At (.filter .field) s) (chainTokens cs ls)
      (At (.filter .conjunction)
        { s with conditions := s.conditions ++ cs, connectives := s.connectives ++ ls }) := by
  obtain ⟨c, cs, rfl⟩ := List.exists_cons_of_ne_nil hne
  have hcount : ls.length = cs.length := by simpa using h.count
  let T := fun links : List (Connective × Condition) => At (.filter .conjunction)
    { s with
      conditions := s.conditions ++ c :: links.map (·.2)
      connectives := s.connectives ++ links.map (·.1) }
  have hfirst : Brings (At (.filter .field) s) c.tokens (T []) := by
    simpa [T, filterHole] using brings_filterCondition (s := s) (h.conditions c (by simp))
  have hlinks : Brings (T []) ((ls.zip cs).flatMap fun link =>
      .keyword link.1.keyword :: link.2.tokens) (T (ls.zip cs)) := by
    refine Brings.flatMap fun before link after hzip => ?_
    have hmem : link.2 ∈ cs := (List.of_mem_zip (hzip ▸ List.mem_append_cons_self)).2
    refine (brings_filterLink link.1).cons ?_
    have hcondition := brings_filterCondition
      (s := { s with
        conditions := s.conditions ++ c :: before.map (·.2)
        connectives := s.connectives ++ before.map (·.1) ++ [link.1] })
      (h.conditions link.2 (by simp [hmem]))
    simpa [T, filterHole] using hcondition
  have hall := hfirst.append hlinks
  simpa [T, chainTokens, List.map_fst_zip hcount.le, List.map_snd_zip hcount.ge] using hall

end Draft

end SqlReader
