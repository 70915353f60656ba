import SqlReader.Transitions.Change

/-!
# The moves of table definitions
-/

namespace SqlReader

def Move.openColumn (t : Token) : Option Move :=
  t.identifier?.map fun name => ⟨.addColumn name, .table .fieldType⟩

def Move.columnTail (t : Token) : Option Move :=
  match t.keyword? with
  | some .comma => some ⟨.leaveColumn, .table .element⟩
  | some .rightParen => some ⟨.leaveColumn, .done⟩
  | some .notNull => some ⟨.define .notNull, .table .columnTail⟩
  | some .unique => some ⟨.define .unique, .table .columnTail⟩
  | some .primaryKey => some ⟨.define .primaryKey, .table .columnTail⟩
  | some .default => some ⟨.stay, .table .defaultValue⟩
  | some .check => some ⟨.enterCheck .column, .check .opening⟩
  | some .references => some ⟨.enterReferences, .foreignKey .table⟩
  | _ => none

def TablePlace.move? (t : Token) : TablePlace → Option Move
  | .name => t.identifier?.map fun name => ⟨.addTable name, .table .opening⟩
  | .opening => Move.expect t .leftParen (.table .field)
  | .field => Move.openColumn t
  | .fieldType =>
    if Draft.dataType t = .unknown then none
    else some ⟨.define (.dataType (Draft.dataType t)), .table .typeSuffix⟩
  | .typeSuffix =>
    if t.is .leftParen then some ⟨.stay, .table .fieldLength⟩ else Move.columnTail t
  | .fieldLength => (Draft.columnLength? t).map fun n => ⟨.define (.length n), .table .lengthClose⟩
  | .lengthClose => Move.expect t .rightParen (.table .columnTail)
  | .columnTail => Move.columnTail t
  | .defaultValue => t.value?.map fun text => ⟨.define (.default text), .table .columnTail⟩
  | .element =>
    match t.keyword? with
    | some .primaryKey => some ⟨.enterClause, .primaryKey .opening⟩
    | some .foreignKey => some ⟨.enterClause, .foreignKey .opening⟩
    | some .check => some ⟨.enterCheck .table, .check .opening⟩
    | _ => Move.openColumn t
  | .constraintEnd =>
    match t.keyword? with
    | some .comma => some ⟨.stay, .table .element⟩
    | some .rightParen => some ⟨.stay, .done⟩
    | _ => none

/-- Where an operator leads a check, which knows no ranges. -/
def CheckPlace.afterOperator? : PredicateShape → Option CheckPlace
  | .value => some .value
  | .range => none
  | .list => some .listOpen

def CheckPlace.move? (scope : ConstraintScope) (t : Token) : CheckPlace → Option Move
  | .opening => Move.expect t .leftParen (.check .field)
  | .field => t.identifier?.map fun name => ⟨.addCheck name, .check .operator⟩
  | .operator => (t.keyword?.bind Keyword.predicate?).bind fun (p, shape) =>
      (afterOperator? shape).map fun place => ⟨.setPredicate p, .check place⟩
  | .value => t.value?.map fun text => ⟨.fillValue text, .check .conjunctionOrClose⟩
  | .listOpen => Move.expect t .leftParen (.check .listValue)
  | .listValue => t.value?.map fun text => ⟨.addItem text, .check .listNext⟩
  | .listNext =>
    match t.keyword? with
    | some .comma => some ⟨.stay, .check .listValue⟩
    | some .rightParen => some ⟨.stay, .check .conjunctionOrClose⟩
    | _ => none
  | .conjunctionOrClose =>
    match t.keyword? with
    | some .rightParen => some ⟨.leaveCheck, Draft.afterConstraint scope⟩
    | some k => k.connective?.map fun link => ⟨.linkCheck link, .check .field⟩
    | none => none

def PrimaryKeyPlace.move? (t : Token) : PrimaryKeyPlace → Option Move
  | .opening => Move.expect t .leftParen (.primaryKey .field)
  | .field => t.identifier?.map fun name => ⟨.addKey name, .primaryKey .next⟩
  | .next =>
    match t.keyword? with
    | some .comma => some ⟨.stay, .primaryKey .field⟩
    | some .rightParen => some ⟨.stay, .table .constraintEnd⟩
    | _ => none

def ForeignKeyPlace.move? (scope : ConstraintScope) (t : Token) : ForeignKeyPlace → Option Move
  | .opening => Move.expect t .leftParen (.foreignKey .field)
  | .field => t.identifier?.map fun name => ⟨.addForeignKey name, .foreignKey .close⟩
  | .close => Move.expect t .rightParen (.foreignKey .references)
  | .references => Move.expect t .references (.foreignKey .table)
  | .table => t.identifier?.map fun name => ⟨.setTarget name, .foreignKey .tableOpen⟩
  | .tableOpen => Move.expect t .leftParen (.foreignKey .column)
  | .column => t.identifier?.map fun name => ⟨.setTargetColumn name, .foreignKey .columnClose⟩
  | .columnClose =>
    if t.is .rightParen then some ⟨.leaveForeignKey, Draft.afterConstraint scope⟩ else none

namespace Draft

variable {d : Draft} {i : Nat} {refusal : Refusal}

theorem modifyColumn_refusal {f : Column → Column} (h : d.modifyColumn i f = .error refusal) :
    ∃ text, refusal = .internal text := by
  unfold modifyColumn at h
  split at h
  · cases h
  · exact ⟨_, (Except.error.inj h).symm⟩

theorem openForeignKey_refusal (h : d.openForeignKey i = .error refusal) :
    ∃ text, refusal = .internal text := by
  unfold openForeignKey at h
  cases hcolumn : d.modifyColumn i fun c =>
      addConstraint .foreignKey { c with foreignKey := true } with
  | ok draft =>
      rw [hcolumn] at h
      cases h
  | error other =>
      rw [hcolumn] at h
      obtain rfl : other = refusal := Except.error.inj h
      exact modifyColumn_refusal hcolumn

end Draft

namespace Parser

open ParserM

theorem run_markForeignKey_bind (p : Parser) (i : Nat) (h : Unit → ParserM State) :
    (markForeignKey i >>= h).run p =
      match p.draft.openForeignKey i with
      | .ok draft => (h ()).run { p with draft }
      | .error refusal => .error refusal p := by
  unfold markForeignKey Draft.openForeignKey
  rw [bind_assoc, run_attempt_bind]
  cases p.draft.modifyColumn i fun c =>
      Draft.addConstraint .foreignKey { c with foreignKey := true } with
  | error refusal => rfl
  | ok draft => rfl

/-- The first condition of a check fixes the column of the check. -/
theorem run_checkTarget_bind (p : Parser) (field : String) (h : Nat → ParserM State) :
    (checkTarget field >>= h).run p =
      match p.draft.checkTarget field with
      | .ok i => (h i).run { p with draft := { p.draft with checkColumn := some i } }
      | .error refusal => .error refusal p := by
  unfold checkTarget Draft.checkTarget
  rw [bind_assoc, run_look_bind]
  cases hcolumn : p.draft.checkColumn with
  | some i =>
      have hdraft : { p.draft with checkColumn := some i } = p.draft := by rw [← hcolumn]
      simp only [run_pure_bind, hdraft]
  | none =>
      simp only [bind_assoc, run_require_bind]
      cases p.draft.columnIndex field with
      | error refusal => rfl
      | ok i => rfl

variable {p : Parser} (hpop : p.advance = p.cursor.pop) (t : Token)
include hpop

theorem openColumn_makes : p.Makes (Move.openColumn t) ((openColumn t).run p) :=
  makes_identifier fun name _ => makes_change hpop (by rfl)

theorem columnTail_makes : p.Makes (Move.columnTail t) ((columnTail t).run p) := by
  simp only [Move.columnTail, columnTail]
  cases t.keyword? with
  | none => exact makes_none
  | some k =>
      cases k
      case comma | rightParen => exact makes_change hpop (by rfl)
      case notNull | unique | primaryKey => exact makes_attempt hpop (by rfl)
      case default => exact makes_advance hpop
      case check =>
        simp only [run_change_bind, run_advance, ← hpop]
        exact makes_ok rfl
      case references =>
        simp only [run_look_bind]
        cases hcolumn : p.draft.currentColumn with
        | none => exact makes_error (by simp [Draft.apply, Draft.enterReferences, hcolumn])
        | some i =>
            have happly : p.draft.apply .enterReferences =
                { p.draft with constraintScope := .column }.openForeignKey i := by
              simp only [Draft.apply, Draft.enterReferences, hcolumn]
            simp only [run_change_bind, run_markForeignKey_bind]
            cases hopen : { p.draft with constraintScope := .column }.openForeignKey i with
            | ok draft =>
                simp only [run_advance, ← hpop]
                exact makes_ok (happly.trans hopen)
            | error refusal =>
                obtain ⟨text, rfl⟩ := Draft.openForeignKey_refusal hopen
                exact makes_internal (happly.trans hopen) _
      all_goals exact makes_none

theorem tableStep_makes (place : TablePlace) :
    p.Makes (place.move? t) ((tableStep t place).run p) := by
  cases place with
  | name => exact makes_identifier fun name _ => makes_change hpop (by rfl)
  | opening | lengthClose => exact makes_expect hpop _
  | field => exact openColumn_makes hpop t
  | fieldType =>
      simp only [TablePlace.move?, tableStep]
      split
      · exact makes_none
      · exact makes_attempt hpop (by rfl)
  | typeSuffix =>
      simp only [TablePlace.move?, tableStep]
      split
      · exact makes_advance hpop
      · exact columnTail_makes hpop t
  | fieldLength =>
      simp only [TablePlace.move?, tableStep]
      cases Draft.columnLength? t with
      | none => exact makes_none
      | some n => exact makes_attempt hpop (by rfl)
  | columnTail => exact columnTail_makes hpop t
  | defaultValue => exact makes_value fun text _ => makes_attempt hpop (by rfl)
  | element =>
      simp only [TablePlace.move?, tableStep]
      cases t.keyword? with
      | none => exact openColumn_makes hpop t
      | some k =>
          cases k
          case primaryKey | foreignKey => exact makes_change hpop (by rfl)
          case check =>
            simp only [run_change_bind, run_advance, ← hpop]
            exact makes_ok rfl
          all_goals exact openColumn_makes hpop t
  | constraintEnd =>
      simp only [TablePlace.move?, tableStep]
      cases t.keyword? with
      | none => exact makes_none
      | some k => cases k <;> first | exact makes_none | exact makes_advance hpop

theorem checkStep_makes (place : CheckPlace) :
    p.Makes (place.move? p.draft.constraintScope t) ((checkStep t place).run p) := by
  cases place with
  | opening | listOpen => exact makes_expect hpop _
  | field =>
      refine makes_identifier fun name _ => ?_
      rw [run_checkTarget_bind]
      cases hi : p.draft.checkTarget name with
      | error refusal => exact makes_error (by rw [Draft.apply, hi]; rfl)
      | ok i =>
          have happly : p.draft.apply (.addCheck name) = p.draft.checkOn name i := by
            rw [Draft.apply, hi]
            rfl
          simp only [run_look_bind, run_attempt_bind, run_change_bind, run_advance, ← hpop]
          unfold Draft.checkOn Draft.modifyColumn at happly
          unfold Draft.modifyColumn
          split at happly
          next hlt =>
            simp only [if_pos hlt]
            exact makes_ok happly
          next hlt =>
            simp only [if_neg hlt]
            exact makes_internal happly _
  | operator =>
      simp only [CheckPlace.move?, checkStep]
      cases t.keyword?.bind Keyword.predicate? with
      | none => exact makes_none
      | some found =>
          obtain ⟨predicate, shape⟩ := found
          cases shape with
          | range => exact makes_none
          | value | list => exact makes_attempt hpop (by rfl)
  | value | listValue => exact makes_value fun text _ => makes_attempt hpop (by rfl)
  | listNext =>
      simp only [CheckPlace.move?, checkStep]
      cases t.keyword? with
      | none => exact makes_none
      | some k => cases k <;> first | exact makes_none | exact makes_advance hpop
  | conjunctionOrClose =>
      simp only [CheckPlace.move?, checkStep]
      cases t.keyword? with
      | none => exact makes_none
      | some k =>
          cases k
          case rightParen =>
            simp only [run_change_bind, run_look_bind, run_advance, ← hpop]
            exact makes_ok rfl
          case and | or =>
            simp only [Keyword.connective?, run_look_bind]
            cases hcolumn : p.draft.checkColumn with
            | none => exact makes_error (by simp [Draft.apply, Draft.linkCheck, hcolumn])
            | some i =>
                exact makes_attempt hpop (by simp [Draft.apply, Draft.linkCheck, hcolumn])
          all_goals exact makes_none

theorem primaryKeyStep_makes (place : PrimaryKeyPlace) :
    p.Makes (place.move? t) ((primaryKeyStep t place).run p) := by
  cases place with
  | opening => exact makes_expect hpop _
  | field =>
      refine makes_identifier fun name _ => ?_
      simp only [run_require_bind]
      cases hcolumn : p.draft.columnIndex name with
      | error refusal => exact makes_error (by rw [Draft.apply, hcolumn]; rfl)
      | ok i => exact makes_attempt hpop (by rw [Draft.apply, hcolumn]; rfl)
  | next =>
      simp only [PrimaryKeyPlace.move?, primaryKeyStep]
      cases t.keyword? with
      | none => exact makes_none
      | some k => cases k <;> first | exact makes_none | exact makes_advance hpop

theorem foreignKeyStep_makes (place : ForeignKeyPlace) :
    p.Makes (place.move? p.draft.constraintScope t) ((foreignKeyStep t place).run p) := by
  cases place with
  | opening | close | references | tableOpen => exact makes_expect hpop _
  | field =>
      refine makes_identifier fun name _ => ?_
      simp only [run_require_bind, run_markForeignKey_bind]
      cases hi : p.draft.columnIndex name with
      | error refusal => exact makes_error (by rw [Draft.apply, hi]; rfl)
      | ok i =>
          have happly : p.draft.apply (.addForeignKey name) = p.draft.openForeignKey i := by
            rw [Draft.apply, hi]
            rfl
          simp only
          cases hopen : p.draft.openForeignKey i with
          | error refusal => exact makes_error (happly.trans hopen)
          | ok draft =>
              simp only [run_advance, ← hpop]
              exact makes_ok (happly.trans hopen)
  | table | column => exact makes_identifier fun name _ => makes_attempt hpop (by rfl)
  | columnClose =>
      simp only [ForeignKeyPlace.move?, foreignKeyStep]
      split
      · simp only [run_change_bind, run_look_bind, run_advance, ← hpop]
        exact makes_ok rfl
      · exact makes_none

end Parser

end SqlReader
