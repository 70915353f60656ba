import SqlReader.Transitions.Change

/-!
# The moves of views, indexes, users and privileges
-/

namespace SqlReader

/-- The moves of a view; `rest` is the text from the token on. -/
def ViewPlace.move? (t : Token) (rest : List Char) : ViewPlace → Option Move
  | .name => t.identifier?.map fun name => ⟨.addTable name, .view .columnsOrAs⟩
  | .columnsOrAs =>
    match t.keyword? with
    | some .leftParen => some ⟨.stay, .view .field⟩
    | some .as => some ⟨.stay, .view .query⟩
    | _ => none
  | .field => t.identifier?.map fun name => ⟨.addField name, .view .fieldsNext⟩
  | .fieldsNext =>
    match t.keyword? with
    | some .comma => some ⟨.stay, .view .field⟩
    | some .rightParen => some ⟨.stay, .view .asKeyword⟩
    | _ => none
  | .asKeyword => Move.expect t .as (.view .query)
  | .query => if t.is .select then some ⟨.keepQuery rest, .done⟩ else none

def IndexPlace.move? (t : Token) : IndexPlace → Option Move
  | .name => t.identifier?.map fun name => ⟨.nameIndex name, .index .on⟩
  | .on => Move.expect t .on (.index .table)
  | .table => t.identifier?.map fun name => ⟨.addTable name, .index .opening⟩
  | .opening => Move.expect t .leftParen (.index .field)
  | .field => t.identifier?.map fun name => ⟨.addIndexColumn name, .index .orderOrNext⟩
  | .orderOrNext =>
    match t.keyword? with
    | some .asc | some .desc => some ⟨.orderIndex t.sortOrder, .index .next⟩
    | some .comma => some ⟨.stay, .index .field⟩
    | some .rightParen => some ⟨.stay, .done⟩
    | _ => none
  | .next =>
    match t.keyword? with
    | some .comma => some ⟨.stay, .index .field⟩
    | some .rightParen => some ⟨.stay, .done⟩
    | _ => none

def UserPlace.move? (t : Token) : UserPlace → Option Move
  | .name => t.identifier?.map fun name => ⟨.addUser name, .user .identifiedBy⟩
  | .identifiedBy => Move.expect t .identifiedBy (.user .password)
  | .password => t.value?.map fun text => ⟨.setPassword text, .done⟩

/-- The moves of a grant or a revocation, whose kinds differ in the word before the
users. -/
def PrivilegePlace.move? (kind : Kind) (t : Token) : PrivilegePlace → Option Move
  | .action => (t.keyword?.bind Draft.action?).map fun action =>
      ⟨.addPrivilege action, .privilege .columnsOrNext⟩
  | .columnsOrNext =>
    match t.keyword? with
    | some .leftParen => some ⟨.stay, .privilege .column⟩
    | some .comma => some ⟨.stay, .privilege .action⟩
    | some .onTable | some .on => some ⟨.stay, .privilege .table⟩
    | _ => none
  | .column => t.identifier?.map fun name => ⟨.grantColumn name, .privilege .columnsNext⟩
  | .columnsNext =>
    match t.keyword? with
    | some .comma => some ⟨.stay, .privilege .column⟩
    | some .rightParen => some ⟨.stay, .privilege .commaOrOn⟩
    | _ => none
  | .commaOrOn =>
    match t.keyword? with
    | some .comma => some ⟨.stay, .privilege .action⟩
    | some .onTable | some .on => some ⟨.stay, .privilege .table⟩
    | _ => none
  | .table => t.identifier?.map fun name => ⟨.addTable name, .privilege .tablesNext⟩
  | .tablesNext =>
    match t.keyword? with
    | some .comma => some ⟨.stay, .privilege .table⟩
    | some k =>
      if Draft.granteeWord? kind = some k then some ⟨.stay, .privilege .grantee⟩ else none
    | none => none
  | .grantee => t.identifier?.map fun name => ⟨.addUser name, .privilege .granteeComma⟩
  | .granteeComma => Move.expect t .comma (.privilege .grantee)

theorem Draft.modifyLastPrivilege_refusal {d : Draft} {f : Privilege → Privilege}
    {refusal : Refusal} (h : d.modifyLastPrivilege f = .error refusal) :
    ∃ text, refusal = .internal text := by
  unfold modifyLastPrivilege at h
  split at h
  · cases h
  · exact ⟨_, (Except.error.inj h).symm⟩

namespace Parser

open ParserM

variable {p : Parser}

/-- The query is the one part of the grammar that takes more than its token. -/
theorem viewStep_makes {place : ViewPlace} (hstate : p.draft.state = .view place) (t : Token) :
    p.Makes (place.move? t p.cursor.rest) ((viewStep t place).run p) := by
  have hpop : place ≠ .query → p.advance = p.cursor.pop := by
    intro hplace
    simp [advance, hstate, hplace]
  cases place with
  | name | field => exact makes_identifier fun name _ => makes_change (hpop (by simp)) (by rfl)
  | columnsOrAs | fieldsNext =>
      simp only [ViewPlace.move?, viewStep]
      cases t.keyword? with
      | none => exact makes_none
      | some k => cases k <;> first | exact makes_none | exact makes_advance (hpop (by simp))
  | asKeyword => exact makes_expect (hpop (by simp)) _
  | query =>
      simp only [ViewPlace.move?, viewStep]
      split
      · have hrest : p.advance = p.cursor.popRest := by simp [advance, hstate]
        simp only [Makes, Draft.apply, hrest]
        rfl
      · exact makes_none

variable (hpop : p.advance = p.cursor.pop) (t : Token)
include hpop

theorem indexStep_makes (place : IndexPlace) :
    p.Makes (place.move? t) ((indexStep t place).run p) := by
  cases place with
  | name | table => exact makes_identifier fun name _ => makes_change hpop (by rfl)
  | on | opening => exact makes_expect hpop _
  | field =>
      refine makes_identifier fun name _ => ?_
      simp only [run_attempt_bind, run_change_bind, run_advance, ← hpop]
      cases hindex : p.draft.modifyIndex _ with
      | ok draft => exact makes_ok (by rw [Draft.apply, hindex]; rfl)
      | error refusal => exact makes_error (by rw [Draft.apply, hindex]; rfl)
  | orderOrNext =>
      simp only [IndexPlace.move?, indexStep]
      cases t.keyword? with
      | none => exact makes_none
      | some k =>
          cases k
          case asc | desc => exact makes_attempt hpop (by rfl)
          case comma | rightParen => exact makes_advance hpop
          all_goals exact makes_none
  | next =>
      simp only [IndexPlace.move?, indexStep]
      cases t.keyword? with
      | none => exact makes_none
      | some k => cases k <;> first | exact makes_none | exact makes_advance hpop

theorem userStep_makes (place : UserPlace) :
    p.Makes (place.move? t) ((userStep t place).run p) := by
  cases place with
  | name => exact makes_identifier fun name _ => makes_change hpop (by rfl)
  | identifiedBy => exact makes_expect hpop _
  | password => exact makes_value fun text _ => makes_change hpop (by rfl)

theorem privilegeStep_makes (place : PrivilegePlace) :
    p.Makes (place.move? p.draft.statement.kind t) ((privilegeStep t place).run p) := by
  cases place with
  | action =>
      simp only [PrivilegePlace.move?, privilegeStep]
      cases t.keyword?.bind Draft.action? with
      | none => exact makes_none
      | some action => exact makes_change hpop (by rfl)
  | columnsOrNext | columnsNext | commaOrOn =>
      simp only [PrivilegePlace.move?, privilegeStep]
      cases t.keyword? with
      | none => exact makes_none
      | some k => cases k <;> first | exact makes_none | exact makes_advance hpop
  | column =>
      -- the column has been added to the fields before the list of privileges is looked at
      refine makes_identifier fun name _ => ?_
      simp only [run_attempt_bind, run_change_bind, run_advance, ← hpop]
      cases hgrant : (p.draft.addNewField name).modifyLastPrivilege _ with
      | ok draft => exact makes_ok hgrant
      | error refusal =>
          obtain ⟨text, rfl⟩ := Draft.modifyLastPrivilege_refusal hgrant
          exact makes_internal (p := p) (c := .grantColumn name) hgrant _
  | table | grantee => exact makes_identifier fun name _ => makes_change hpop (by rfl)
  | tablesNext =>
      simp only [PrivilegePlace.move?, privilegeStep]
      cases t.keyword? with
      | none => exact makes_none
      | some k =>
          cases k
          case comma => exact makes_advance hpop
          all_goals
            simp only [run_look_bind]
            split
            · exact makes_advance hpop
            · exact makes_none
  | granteeComma => exact makes_expect hpop _

end Parser

end SqlReader
