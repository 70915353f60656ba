import SqlReader.Grammar.Monad

/-!
# Conditions

The part of the grammar that filters and checks share: an operator fixes the
form of the predicate, and the values after it fill the form.
-/

namespace SqlReader

inductive PredicateShape
  | value | range | list
  deriving DecidableEq

/-- The predicate that an operator begins, still empty, and its shape. -/
def Keyword.predicate? : Keyword → Option (Predicate × PredicateShape)
  | .equal => some (.compare .eq (.literal ""), .value)
  | .notEqual => some (.compare .ne (.literal ""), .value)
  | .greater => some (.compare .gt (.literal ""), .value)
  | .less => some (.compare .lt (.literal ""), .value)
  | .greaterEqual => some (.compare .gte (.literal ""), .value)
  | .lessEqual => some (.compare .lte (.literal ""), .value)
  | .like => some (.like false "", .value)
  | .notLike => some (.like true "", .value)
  | .between => some (.between false "" "", .range)
  | .notBetween => some (.between true "" "", .range)
  | .inList => some (.inList false [], .list)
  | .notInList => some (.inList true [], .list)
  | _ => none

def Keyword.connective? : Keyword → Option Connective
  | .and => some .and
  | .or => some .or
  | _ => none

namespace Predicate

def fillValue (value : String) : Predicate → Except Refusal Predicate
  | compare op _ => .ok (compare op (.literal value))
  | like negated _ => .ok (like negated value)
  | _ => .error (.internal "single value for a range or list operator")

def fillLow (value : String) : Predicate → Except Refusal Predicate
  | between negated _ high => .ok (between negated value high)
  | _ => .error (.internal "BETWEEN bound outside of BETWEEN")

def fillHigh (value : String) : Predicate → Except Refusal Predicate
  | between negated low _ => .ok (between negated low value)
  | _ => .error (.internal "BETWEEN bound outside of BETWEEN")

def addValue (value : String) : Predicate → Except Refusal Predicate
  | inList negated values => .ok (inList negated (values ++ [value]))
  | _ => .error (.internal "list value outside of IN")

end Predicate

namespace ParserM

def filterStep (t : Token) : FilterPlace → ParserM State
  | .field => do
    let field ← identifier t
    change fun d =>
      let conditions := d.statement.conditions ++ [{ left := .field field }]
      { d with
        statement := { d.statement with conditions }
        openCondition := some (.filter (conditions.length - 1)) }
    advance (.filter .operator)
  | .operator =>
    match t.keyword?.bind Keyword.predicate? with
    | none => unexpected
    | some (p, shape) => do
      attempt (·.setPredicate p)
      match shape with
      | .value => advance (.filter .value)
      | .range => advance (.filter .betweenLow)
      | .list => advance (.filter .listOpen)
  | .value => do
    let text ← value t
    attempt (·.modifyPredicate (·.fillValue text))
    advance (.filter .conjunction)
  | .betweenLow => do
    let low ← value t
    attempt (·.modifyPredicate (·.fillLow low))
    advance (.filter .betweenAnd)
  | .betweenAnd => expect t .and (.filter .betweenHigh)
  | .betweenHigh => do
    let high ← value t
    attempt (·.modifyPredicate (·.fillHigh high))
    advance (.filter .conjunction)
  | .listOpen => expect t .leftParen (.filter .listValue)
  | .listValue => do
    let text ← value t
    attempt (·.modifyPredicate (·.addValue text))
    advance (.filter .listNext)
  | .listNext =>
    match t.keyword? with
    | some .comma => advance (.filter .listValue)
    | some .rightParen => advance (.filter .conjunction)
    | _ => unexpected
  | .conjunction =>
    match t.keyword? with
    | some .orderBy => do
      if (← look (·.statement.kind)) = .select then advance (.order .field) else unexpected
    | some k =>
      match k.connective? with
      | some link => do
        change (·.addConnective link)
        advance (.filter .field)
      | none => unexpected
    | none => unexpected

end ParserM

end SqlReader
