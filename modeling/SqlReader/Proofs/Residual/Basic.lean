import SqlReader.Proofs.Progress
import SqlReader.Proofs.Sentence

/-!
# What is left to read

Every state of the grammar leaves a language: the token lists that complete a
statement from there.  It depends on little of the draft, which `Context` keeps.
The steps of the grammar take these languages apart token by token; the modules
on the parts of the grammar show this state by state.
-/

namespace SqlReader

open Sentence
open scoped Computability

/-- What the rest of a statement depends on, beside the state. -/
structure Context where
  kind : Kind
  /-- Number of columns listed so far. -/
  width : Nat
  /-- Number of values in the row being read. -/
  filled : Nat
  /-- The columns defined so far. -/
  names : List String
  scope : ConstraintScope
  /-- Whether the check being read has its column. -/
  checkBound : Bool

/-! ## Queries and changes -/

namespace Sentence

def clauses : Language Token := maybe filter * maybe ordering

def afterFilter (kind : Kind) : Language Token :=
  (anyOf [.and, .or] * condition)∗ * if kind = .select then maybe ordering else 1

def moreRows (width : Nat) : Language Token :=
  (kw .comma * parens (listOfSucc value (width - 1)))∗

def allRows (width : Nat) : Language Token :=
  parens (listOfSucc value (width - 1)) * moreRows width

def moreAssignments : Language Token := (kw .comma * assignment)∗ * filter

def selectRest : SelectPlace → Language Token
  | .field => listOf selected * kw .fromClause * listOf name * clauses
  | .commaOrFrom => (kw .comma * selected)∗ * kw .fromClause * listOf name * clauses
  | .table => listOf name * clauses
  | .commaOrClause => (kw .comma * name)∗ * clauses

def orderRest : OrderPlace → Language Token
  | .field => listOf sorted
  | .directionOrComma => maybe (anyOf [.asc, .desc]) * (kw .comma * sorted)∗
  | .comma => (kw .comma * sorted)∗

def insertRest (c : Context) : InsertPlace → Language Token
  | .table => ⨆ n, name * parens (listOfSucc name n) * kw .values * allRows (n + 1)
  | .fieldsOpen => ⨆ n, parens (listOfSucc name n) * kw .values * allRows (n + 1)
  | .field =>
    ⨆ n, listOfSucc name n * kw .rightParen * kw .values * allRows (c.width + n + 1)
  | .fieldsNext =>
    ⨆ n, (kw .comma * name) ^ n * kw .rightParen * kw .values * allRows (c.width + n)
  | .valuesKeyword => kw .values * allRows c.width
  | .valuesOpen => allRows c.width
  | .value =>
    if c.filled < c.width then
      listOfSucc value (c.width - c.filled - 1) * kw .rightParen * moreRows c.width
    else 0
  | .valuesNext =>
    if c.filled ≤ c.width then
      (kw .comma * value) ^ (c.width - c.filled) * kw .rightParen * moreRows c.width
    else 0
  | .rowComma => moreRows c.width

def updateRest : UpdatePlace → Language Token
  | .table => name * kw .set * listOf assignment * filter
  | .set => kw .set * listOf assignment * filter
  | .field => listOf assignment * filter
  | .equal => kw .equal * value * moreAssignments
  | .value => value * moreAssignments
  | .commaOrWhere => moreAssignments

def deleteRest : DeletePlace → Language Token
  | .table => name * filter
  | .whereKeyword => filter

def filterRest (c : Context) : FilterPlace → Language Token
  | .field => condition * afterFilter c.kind
  | .operator => operation * afterFilter c.kind
  | .value => value * afterFilter c.kind
  | .betweenLow => value * kw .and * value * afterFilter c.kind
  | .betweenAnd => kw .and * value * afterFilter c.kind
  | .betweenHigh => value * afterFilter c.kind
  | .listOpen => parens (listOf value) * afterFilter c.kind
  | .listValue => listOf value * kw .rightParen * afterFilter c.kind
  | .listNext => (kw .comma * value)∗ * kw .rightParen * afterFilter c.kind
  | .conjunction => afterFilter c.kind

/-! ## Tables -/

def element (names : List String) : Language Token :=
  fromColumn names + tableConstraint names * elements names

end Sentence

namespace Context

def columnRest (c : Context) : Language Token := columnConstraint∗ * elements c.names

/-- What follows a check or a foreign key. -/
def constraintRest (c : Context) : Language Token :=
  match c.scope with
  | .column => c.columnRest
  | .table => elements c.names

def checkTail (c : Context) : Language Token :=
  (anyOf [.and, .or] * checkCondition)∗ * kw .rightParen * c.constraintRest

/-- The column of the next condition of a check: the first of a check of the
table says which column the check is on. -/
def checkField (c : Context) : Language Token := if c.checkBound then name else nameIn c.names

end Context

namespace Sentence

def tableRest (c : Context) : TablePlace → Language Token
  | .name => name * kw .leftParen * fromColumn c.names
  | .opening => kw .leftParen * fromColumn c.names
  | .field => fromColumn c.names
  | .fieldType => columnType * elements c.names
  | .typeSuffix => maybe (parens typeLength) * c.columnRest
  | .fieldLength => typeLength * kw .rightParen * c.columnRest
  | .lengthClose => kw .rightParen * c.columnRest
  | .columnTail => c.columnRest
  | .defaultValue => value * c.columnRest
  | .element => element c.names
  | .constraintEnd => elements c.names

def checkRest (c : Context) : CheckPlace → Language Token
  | .opening => kw .leftParen * c.checkField * checkOperation * c.checkTail
  | .field => c.checkField * checkOperation * c.checkTail
  | .operator => checkOperation * c.checkTail
  | .value => value * c.checkTail
  | .listOpen => parens (listOf value) * c.checkTail
  | .listValue => listOf value * kw .rightParen * c.checkTail
  | .listNext => (kw .comma * value)∗ * kw .rightParen * c.checkTail
  | .conjunctionOrClose => c.checkTail

def primaryKeyRest (c : Context) : PrimaryKeyPlace → Language Token
  | .opening => parens (listOf (nameIn c.names)) * elements c.names
  | .field => listOf (nameIn c.names) * kw .rightParen * elements c.names
  | .next => (kw .comma * nameIn c.names)∗ * kw .rightParen * elements c.names

def foreignKeyRest (c : Context) : ForeignKeyPlace → Language Token
  | .opening => parens (nameIn c.names) * target * c.constraintRest
  | .field => nameIn c.names * kw .rightParen * target * c.constraintRest
  | .close => kw .rightParen * target * c.constraintRest
  | .references => target * c.constraintRest
  | .table => name * parens name * c.constraintRest
  | .tableOpen => parens name * c.constraintRest
  | .column => name * kw .rightParen * c.constraintRest
  | .columnClose => kw .rightParen * c.constraintRest

/-! ## Views, indexes, users and privileges -/

def viewQuery : Language Token := kw .select * ⊤

def grantees : Kind → Language Token
  | .grant => kw .toClause * listOf name
  | .revoke => kw .fromClause * listOf name
  | _ => 0

def morePrivileges (kind : Kind) : Language Token :=
  (kw .comma * privilege)∗ * anyOf [.onTable, .on] * listOf name * grantees kind

def viewRest : ViewPlace → Language Token
  | .name => name * maybe (parens (listOf name)) * kw .as * viewQuery
  | .columnsOrAs => maybe (parens (listOf name)) * kw .as * viewQuery
  | .field => listOf name * kw .rightParen * kw .as * viewQuery
  | .fieldsNext => (kw .comma * name)∗ * kw .rightParen * kw .as * viewQuery
  | .asKeyword => kw .as * viewQuery
  | .query => viewQuery

def indexRest : IndexPlace → Language Token
  | .name => name * kw .on * name * parens (listOf sorted)
  | .on => kw .on * name * parens (listOf sorted)
  | .table => name * parens (listOf sorted)
  | .opening => parens (listOf sorted)
  | .field => listOf sorted * kw .rightParen
  | .orderOrNext => maybe (anyOf [.asc, .desc]) * (kw .comma * sorted)∗ * kw .rightParen
  | .next => (kw .comma * sorted)∗ * kw .rightParen

def userRest : UserPlace → Language Token
  | .name => name * kw .identifiedBy * value
  | .identifiedBy => kw .identifiedBy * value
  | .password => value

def privilegeRest (c : Context) : PrivilegePlace → Language Token
  | .action => privilege * morePrivileges c.kind
  | .columnsOrNext => maybe (parens (listOf name)) * morePrivileges c.kind
  | .column => listOf name * kw .rightParen * morePrivileges c.kind
  | .columnsNext => (kw .comma * name)∗ * kw .rightParen * morePrivileges c.kind
  | .commaOrOn => morePrivileges c.kind
  | .table => listOf name * grantees c.kind
  | .tablesNext => (kw .comma * name)∗ * grantees c.kind
  | .grantee => listOf name
  | .granteeComma => (kw .comma * name)∗

end Sentence

/-! ## All states -/

/-- The token lists that complete a statement from a state. -/
def State.residual (c : Context) : State → Language Token
  | .beginning => sentence
  | .select place => selectRest place
  | .order place => orderRest place
  | .insert place => insertRest c place
  | .update place => updateRest place
  | .delete place => deleteRest place
  | .filter place => filterRest c place
  | .table place => tableRest c place
  | .check place => checkRest c place
  | .primaryKey place => primaryKeyRest c place
  | .foreignKey place => foreignKeyRest c place
  | .view place => viewRest place
  | .index place => indexRest place
  | .user place => userRest place
  | .privilege place => privilegeRest c place
  | .done => 1

namespace Draft

def rowLength (d : Draft) : Nat :=
  ((d.openRow.bind (d.statement.inserts[·]?)).map List.length).getD 0

def context (d : Draft) : Context where
  kind := d.statement.kind
  width := d.statement.fields.length
  filled := d.rowLength
  names := d.statement.columns.map (·.name)
  scope := d.constraintScope
  checkBound := d.checkColumn.isSome

@[simp] theorem context_addTable (d : Draft) (s : String) : (d.addTable s).context = d.context :=
  rfl

@[simp] theorem context_addField (d : Draft) (s : String) :
    (d.addField s).context = { d.context with width := d.context.width + 1 } := by
  simp [context, addField, rowLength]

/-- The token lists that complete the statement of a draft. -/
def residual (d : Draft) : Language Token := d.state.residual d.context

end Draft

/-! ## Steps that leave a language -/

/-- The step leads to a draft that `ts` completes. -/
def Goes (x : Except Refusal Draft) (ts : List Token) : Prop := ∃ d, x = .ok d ∧ ts ∈ d.residual

section Goes

variable {d : Draft} {t : Token} {ts : List Token}

@[simp] theorem goes_error {refusal : Refusal} : Goes (.error refusal) ts ↔ False := by
  simp [Goes]

@[simp] theorem goes_follow_none : Goes (d.follow none) ts ↔ False := goes_error

/-- A move goes on in its state, if its change can be made. -/
theorem goes_follow {c : Change} {next : State} :
    Goes (d.follow (some ⟨c, next⟩)) ts ↔
      ∃ d', d.apply c = .ok d' ∧ ts ∈ next.residual d'.context := by
  rw [Draft.follow]
  cases d.apply c with
  | error refusal => simp [bind, Except.bind]
  | ok d' =>
      constructor
      · rintro ⟨_, ⟨⟩, hts⟩
        exact ⟨d', rfl, hts⟩
      · rintro ⟨_, ⟨⟩, hts⟩
        exact ⟨_, rfl, hts⟩

theorem goes_of_apply {c : Change} {next : State} {d' : Draft} (happly : d.apply c = .ok d') :
    Goes (d.follow (some ⟨c, next⟩)) ts ↔ ts ∈ next.residual d'.context := by
  simp [goes_follow, happly]

@[simp] theorem goes_stay {next : State} :
    Goes (d.follow (some ⟨.stay, next⟩)) ts ↔ ts ∈ next.residual d.context := goes_of_apply rfl

@[simp] theorem goes_follow_map {α : Type} {o : Option α} {f : α → Move} :
    Goes (d.follow (o.map f)) ts ↔ ∃ a, o = some a ∧ Goes (d.follow (some (f a))) ts := by
  cases o <;> simp

@[simp] theorem goes_follow_expect {k : Keyword} {next : State} :
    Goes (d.follow (Move.expect t k next)) ts ↔
      t.keyword? = some k ∧ ts ∈ next.residual d.context := by
  unfold Move.expect
  split
  next h => simp_all [Token.is]
  next h => simp_all [Token.is]

/-- The operation can fail only for a lack in the draft, and changes nothing that
the rest of the statement depends on. -/
structure Keeps (d : Draft) (x : Except Refusal Draft) : Prop where
  refusal : ∀ refusal, x = .error refusal → ∃ message, refusal = .internal message
  context : ∀ d', x = .ok d' → d'.context = d.context

theorem keeps_ok {d' : Draft} (h : d'.context = d.context) : Keeps d (.ok d') where
  refusal _ hrefusal := by cases hrefusal
  context _ hd := by rwa [← Except.ok.inj hd]

theorem keeps_internal {message : String} : Keeps d (.error (.internal message)) where
  refusal _ hrefusal := ⟨message, (Except.error.inj hrefusal).symm⟩
  context _ hd := by cases hd

/-- Where nothing is lacking, such an operation only moves on. -/
theorem goes_of_keeps {e : Draft} {c : Change} {next : State} {P : Draft → Prop}
    (hleads : Leads P (d.follow (some ⟨c, next⟩))) (hkeeps : Keeps e (d.apply c)) :
    Goes (d.follow (some ⟨c, next⟩)) ts ↔ ts ∈ next.residual e.context := by
  rw [leads_follow] at hleads
  cases happly : d.apply c with
  | error refusal =>
      obtain ⟨message, rfl⟩ := hkeeps.refusal refusal happly
      rw [happly] at hleads
      exact hleads.elim
  | ok d' => rw [goes_of_apply happly, hkeeps.context d' happly]

theorem goes_map_of_keeps {α : Type} {o : Option α} {c : α → Change} {next : State}
    {P : Draft → Prop} (hleads : Leads P (d.follow (o.map fun a => ⟨c a, next⟩)))
    (hkeeps : ∀ a, Keeps d (d.apply (c a))) :
    Goes (d.follow (o.map fun a => ⟨c a, next⟩)) ts ↔
      (∃ a, o = some a) ∧ ts ∈ next.residual d.context := by
  rw [leads_follow_map] at hleads
  rw [goes_follow_map, ← exists_and_right]
  refine exists_congr fun a => and_congr_right fun ha => ?_
  exact goes_of_keeps (hleads a ha) (hkeeps a)

end Goes

/-! ## Conditions -/

namespace Draft

variable {d : Draft}

theorem names_modify {columns : List Column} {f : Column → Column} (hf : ∀ c, (f c).name = c.name)
    (i : Nat) : (columns.modify i f).map (·.name) = columns.map (·.name) := by
  apply List.ext_getElem?
  intro j
  rw [List.getElem?_map, List.getElem?_map, List.getElem?_modify]
  cases columns[j]? with
  | none => rfl
  | some c =>
      split
      · exact congrArg some (hf c)
      · rfl

theorem context_putCondition (c : Condition) : (d.putCondition c).context = d.context := by
  unfold putCondition
  split
  · rfl
  · rfl
  · simp only [context, rowLength, Context.mk.injEq, true_and, and_true]
    apply names_modify
    intro column
    rfl

theorem currentCondition_refusal {refusal : Refusal} (h : d.currentCondition = .error refusal) :
    ∃ message, refusal = .internal message := by
  unfold currentCondition at h
  dsimp only at h
  split at h
  · exact ⟨_, (Except.error.inj h).symm⟩
  · exact ⟨_, (Except.error.inj h).symm⟩
  · cases h

theorem keeps_setPredicate (p : Predicate) : Keeps d (d.setPredicate p) := by
  unfold setPredicate
  cases hc : d.currentCondition with
  | error refusal =>
      obtain ⟨message, rfl⟩ := currentCondition_refusal hc
      exact keeps_internal
  | ok c => exact keeps_ok (context_putCondition _)

theorem keeps_modifyPredicate {f : Predicate → Except Refusal Predicate}
    (hf : ∀ p refusal, f p = .error refusal → ∃ message, refusal = .internal message) :
    Keeps d (d.modifyPredicate f) := by
  unfold modifyPredicate
  cases hc : d.currentCondition with
  | error refusal =>
      obtain ⟨message, rfl⟩ := currentCondition_refusal hc
      exact keeps_internal
  | ok c =>
      simp only [bind, Except.bind]
      cases c.predicate with
      | none => exact keeps_internal
      | some p =>
          cases hp : f p with
          | error refusal =>
              obtain ⟨message, rfl⟩ := hf p refusal hp
              simp only [hp]
              exact keeps_internal
          | ok q =>
              simp only [hp]
              exact keeps_ok (context_putCondition _)

theorem keeps_fillValue (value : String) : Keeps d (d.modifyPredicate (·.fillValue value)) := by
  apply keeps_modifyPredicate
  intro p refusal h
  cases p <;> cases h <;> exact ⟨_, rfl⟩

theorem keeps_fillLow (value : String) : Keeps d (d.modifyPredicate (·.fillLow value)) := by
  apply keeps_modifyPredicate
  intro p refusal h
  cases p <;> cases h <;> exact ⟨_, rfl⟩

theorem keeps_fillHigh (value : String) : Keeps d (d.modifyPredicate (·.fillHigh value)) := by
  apply keeps_modifyPredicate
  intro p refusal h
  cases p <;> cases h <;> exact ⟨_, rfl⟩

theorem keeps_addItem (value : String) : Keeps d (d.modifyPredicate (·.addValue value)) := by
  apply keeps_modifyPredicate
  intro p refusal h
  cases p <;> cases h <;> exact ⟨_, rfl⟩

end Draft

def shape? (k : Option Keyword) : Option PredicateShape := (k.bind Keyword.predicate?).map (·.2)

theorem exists_mem_comparisons_iff {o : Option Keyword} :
    (∃ k ∈ comparisons, o = some k) ↔ shape? o = some .value := by
  cases o with
  | none => simp [shape?]
  | some k => cases k <;> simp [shape?, Keyword.predicate?, comparisons]

theorem exists_mem_lists_iff {o : Option Keyword} :
    (∃ k ∈ [.inList, .notInList], o = some k) ↔ shape? o = some .list := by
  cases o with
  | none => simp [shape?]
  | some k => cases k <;> simp [shape?, Keyword.predicate?]

theorem exists_mem_ranges_iff {o : Option Keyword} :
    (∃ k ∈ [.between, .notBetween], o = some k) ↔ shape? o = some .range := by
  cases o with
  | none => simp [shape?]
  | some k => cases k <;> simp [shape?, Keyword.predicate?]

theorem exists_mem_connectives_iff {o : Option Keyword} :
    (∃ k ∈ [.and, .or], o = some k) ↔ ∃ link, o.bind Keyword.connective? = some link := by
  cases o with
  | none => simp
  | some k => cases k <;> simp [Keyword.connective?]

end SqlReader
