import SqlReader.Transitions.Change

/-!
# The moves of queries and changes
-/

namespace SqlReader

def SelectPlace.move? (t : Token) : SelectPlace → Option Move
  | .field =>
    if t = .word "*" then some ⟨.addStar, .select .commaOrFrom⟩
    else t.identifier?.map fun name => ⟨.addField name, .select .commaOrFrom⟩
  | .commaOrFrom =>
    match t.keyword? with
    | some .comma => some ⟨.stay, .select .field⟩
    | some .fromClause => some ⟨.stay, .select .table⟩
    | _ => none
  | .table => t.identifier?.map fun name => ⟨.addTable name, .select .commaOrClause⟩
  | .commaOrClause =>
    match t.keyword? with
    | some .comma => some ⟨.stay, .select .table⟩
    | some .whereClause => some ⟨.stay, .filter .field⟩
    | some .orderBy => some ⟨.stay, .order .field⟩
    | _ => none

def OrderPlace.move? (t : Token) : OrderPlace → Option Move
  | .field => t.identifier?.map fun name => ⟨.addOrder name, .order .directionOrComma⟩
  | .directionOrComma =>
    match t.keyword? with
    | some .asc | some .desc => some ⟨.orderLast t.sortOrder, .order .comma⟩
    | some .comma => some ⟨.stay, .order .field⟩
    | _ => none
  | .comma => Move.expect t .comma (.order .field)

def InsertPlace.move? (t : Token) : InsertPlace → Option Move
  | .table => t.identifier?.map fun name => ⟨.addTable name, .insert .fieldsOpen⟩
  | .fieldsOpen => Move.expect t .leftParen (.insert .field)
  | .field => t.identifier?.map fun name => ⟨.addField name, .insert .fieldsNext⟩
  | .fieldsNext =>
    match t.keyword? with
    | some .comma => some ⟨.stay, .insert .field⟩
    | some .rightParen => some ⟨.stay, .insert .valuesKeyword⟩
    | _ => none
  | .valuesKeyword => Move.expect t .values (.insert .valuesOpen)
  | .valuesOpen => if t.is .leftParen then some ⟨.addRow, .insert .value⟩ else none
  | .value => t.value?.map fun text => ⟨.addValue text, .insert .valuesNext⟩
  | .valuesNext =>
    match t.keyword? with
    | some .comma => some ⟨.stay, .insert .value⟩
    | some .rightParen => some ⟨.closeRow, .insert .rowComma⟩
    | _ => none
  | .rowComma => Move.expect t .comma (.insert .valuesOpen)

def UpdatePlace.move? (t : Token) : UpdatePlace → Option Move
  | .table => t.identifier?.map fun name => ⟨.addTable name, .update .set⟩
  | .set => Move.expect t .set (.update .field)
  | .field => t.identifier?.map fun name => ⟨.awaitValue name, .update .equal⟩
  | .equal => Move.expect t .equal (.update .value)
  | .value => t.value?.map fun text => ⟨.assign text, .update .commaOrWhere⟩
  | .commaOrWhere =>
    match t.keyword? with
    | some .comma => some ⟨.stay, .update .field⟩
    | some .whereClause => some ⟨.stay, .filter .field⟩
    | _ => none

def DeletePlace.move? (t : Token) : DeletePlace → Option Move
  | .table => t.identifier?.map fun name => ⟨.addTable name, .delete .whereKeyword⟩
  | .whereKeyword => Move.expect t .whereClause (.filter .field)

def FilterPlace.afterOperator : PredicateShape → FilterPlace
  | .value => .value
  | .range => .betweenLow
  | .list => .listOpen

/-- The moves of a filter.  Only a query may be sorted behind it. -/
def FilterPlace.move? (kind : Kind) (t : Token) : FilterPlace → Option Move
  | .field => t.identifier?.map fun name => ⟨.addCondition name, .filter .operator⟩
  | .operator => (t.keyword?.bind Keyword.predicate?).map fun (p, shape) =>
      ⟨.setPredicate p, .filter (afterOperator shape)⟩
  | .value => t.value?.map fun text => ⟨.fillValue text, .filter .conjunction⟩
  | .betweenLow => t.value?.map fun text => ⟨.fillLow text, .filter .betweenAnd⟩
  | .betweenAnd => Move.expect t .and (.filter .betweenHigh)
  | .betweenHigh => t.value?.map fun text => ⟨.fillHigh text, .filter .conjunction⟩
  | .listOpen => Move.expect t .leftParen (.filter .listValue)
  | .listValue => t.value?.map fun text => ⟨.addItem text, .filter .listNext⟩
  | .listNext =>
    match t.keyword? with
    | some .comma => some ⟨.stay, .filter .listValue⟩
    | some .rightParen => some ⟨.stay, .filter .conjunction⟩
    | _ => none
  | .conjunction =>
    match t.keyword? with
    | some .orderBy => if kind = .select then some ⟨.stay, .order .field⟩ else none
    | some k => k.connective?.map fun link => ⟨.addConnective link, .filter .field⟩
    | none => none

namespace Parser

open ParserM

variable {p : Parser} (hpop : p.advance = p.cursor.pop) (t : Token)
include hpop

theorem selectStep_makes (place : SelectPlace) :
    p.Makes (place.move? t) ((selectStep t place).run p) := by
  cases place with
  | field =>
      by_cases hstar : t = .word "*"
      · simp only [SelectPlace.move?, selectStep, if_pos hstar, run_pure_bind]
        exact makes_change hpop (by rfl)
      · simp only [SelectPlace.move?, selectStep, if_neg hstar]
        exact makes_identifier fun name _ => makes_change hpop (by rfl)
  | table => exact makes_identifier fun name _ => makes_change hpop (by rfl)
  | commaOrFrom | commaOrClause =>
      simp only [SelectPlace.move?, selectStep]
      cases t.keyword? with
      | none => exact makes_none
      | some k => cases k <;> first | exact makes_none | exact makes_advance hpop

theorem orderStep_makes (place : OrderPlace) :
    p.Makes (place.move? t) ((orderStep t place).run p) := by
  cases place with
  | field => exact makes_identifier fun name _ => makes_change hpop (by rfl)
  | directionOrComma =>
      simp only [OrderPlace.move?, orderStep]
      cases t.keyword? with
      | none => exact makes_none
      | some k =>
          cases k
          case asc | desc => exact makes_attempt hpop (by rfl)
          case comma => exact makes_advance hpop
          all_goals exact makes_none
  | comma => exact makes_expect hpop _

/-- A row is closed only after its length has been looked at. -/
theorem closeRow_makes : p.Makes (some ⟨.closeRow, .insert .rowComma⟩) ((do
    let expected ← look (·.statement.fields.length)
    let (_, row) ← require (·.currentRow)
    if row.length ≠ expected then refuse (.breaks (.valueCount expected row.length))
    else do
      ParserM.change fun d => { d with openRow := none }
      ParserM.advance (.insert .rowComma)).run p) := by
  simp only [run_look_bind, run_require_bind, Makes, Draft.apply, Draft.closeRow]
  cases p.draft.currentRow with
  | error refusal =>
      cases refusal with
      | internal text => exact ⟨p, rfl⟩
      | _ => rfl
  | ok found =>
      simp only [bind, Except.bind]
      by_cases hfull : found.2.length = p.draft.statement.fields.length
      · rw [if_pos hfull, if_neg (not_not_intro hfull), hpop]
        rfl
      · rw [if_neg hfull, if_pos hfull]
        rfl

theorem insertStep_makes (place : InsertPlace) :
    p.Makes (place.move? t) ((insertStep t place).run p) := by
  cases place with
  | table | field => exact makes_identifier fun name _ => makes_change hpop (by rfl)
  | fieldsOpen | valuesKeyword | rowComma => exact makes_expect hpop _
  | fieldsNext =>
      simp only [InsertPlace.move?, insertStep]
      cases t.keyword? with
      | none => exact makes_none
      | some k => cases k <;> first | exact makes_none | exact makes_advance hpop
  | valuesOpen =>
      simp only [InsertPlace.move?, insertStep]
      split
      · exact makes_change hpop (by rfl)
      · exact makes_none
  | value => exact makes_value fun text _ => makes_attempt hpop (by rfl)
  | valuesNext =>
      simp only [InsertPlace.move?, insertStep]
      cases t.keyword? with
      | none => exact makes_none
      | some k =>
          cases k
          case comma => exact makes_advance hpop
          case rightParen => exact closeRow_makes hpop
          all_goals exact makes_none

theorem updateStep_makes (place : UpdatePlace) :
    p.Makes (place.move? t) ((updateStep t place).run p) := by
  cases place with
  | table => exact makes_identifier fun name _ => makes_change hpop (by rfl)
  | field =>
      exact makes_identifier fun name _ => by
        simp only [run_change_bind, run_advance, Makes, Draft.apply, hpop]
  | set | equal => exact makes_expect hpop _
  | value =>
      refine makes_value fun text _ => ?_
      simp only [run_look_bind, Makes, Draft.apply, Draft.assign]
      cases p.draft.pendingField with
      | none => exact ⟨p, rfl⟩
      | some column =>
          rw [hpop]
          rfl
  | commaOrWhere =>
      simp only [UpdatePlace.move?, updateStep]
      cases t.keyword? with
      | none => exact makes_none
      | some k => cases k <;> first | exact makes_none | exact makes_advance hpop

theorem deleteStep_makes (place : DeletePlace) :
    p.Makes (place.move? t) ((deleteStep t place).run p) := by
  cases place with
  | table => exact makes_identifier fun name _ => makes_change hpop (by rfl)
  | whereKeyword => exact makes_expect hpop _

theorem filterStep_makes (place : FilterPlace) :
    p.Makes (place.move? p.draft.statement.kind t) ((filterStep t place).run p) := by
  cases place with
  | field => exact makes_identifier fun name _ => makes_change hpop (by rfl)
  | operator =>
      simp only [FilterPlace.move?, filterStep]
      cases t.keyword?.bind Keyword.predicate? with
      | none => exact makes_none
      | some found =>
          obtain ⟨predicate, shape⟩ := found
          cases shape <;> exact makes_attempt hpop (by rfl)
  | value | betweenLow | betweenHigh | listValue =>
      exact makes_value fun text _ => makes_attempt hpop (by rfl)
  | betweenAnd | listOpen => exact makes_expect hpop _
  | listNext =>
      simp only [FilterPlace.move?, filterStep]
      cases t.keyword? with
      | none => exact makes_none
      | some k => cases k <;> first | exact makes_none | exact makes_advance hpop
  | conjunction =>
      simp only [FilterPlace.move?, filterStep]
      cases t.keyword? with
      | none => exact makes_none
      | some k =>
          cases k
          case orderBy =>
            simp only [run_look_bind]
            split
            · exact makes_advance hpop
            · exact makes_none
          case and | or => exact makes_change hpop (by rfl)
          all_goals exact makes_none

end Parser

end SqlReader
