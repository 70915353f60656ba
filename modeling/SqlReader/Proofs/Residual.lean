import SqlReader.Proofs.Residual.Manipulation
import SqlReader.Proofs.Residual.Schema
import SqlReader.Proofs.Residual.Table

/-!
# Steps take the rest of a sentence apart

Assembles the parts of the grammar: a draft takes a token exactly when a list
that completes it can begin with the token, and what is left completes the next
draft.
-/

namespace SqlReader

open Sentence
open scoped Computability

variable {d : Draft} {t : Token} {ts : List Token}

namespace Draft

/-- The first word of a sentence decides what follows. -/
theorem cons_mem_sentence {c : Context} (hnames : c.names = []) :
    t :: ts ∈ sentence ↔
      ∃ kind state, t.keyword?.bind opening? = some (kind, state) ∧
        ts ∈ state.residual { c with kind } := by
  simp only [sentence, select, Sentence.insert, update, delete, createTable, createView,
    createIndex, createUser, grant, revoke, Language.mem_add, insertInto, Language.mem_iSup,
    mul_assoc, cons_mem_kw_mul]
  cases t.keyword? with
  | none => simp
  | some k =>
      cases k
      case select => simp [opening?, State.residual, selectRest, clauses, mul_assoc]
      case insertInto =>
          simp [opening?, State.residual, insertRest, allRows, moreRows, listOf, mul_assoc,
            Language.mem_iSup]
      case update => simp [opening?, State.residual, updateRest, mul_assoc]
      case deleteFrom => simp [opening?, State.residual, deleteRest]
      case createTable => simp [opening?, State.residual, tableRest, mul_assoc, hnames]
      case createView => simp [opening?, State.residual, viewRest, viewQuery, mul_assoc]
      case createIndex => simp [opening?, State.residual, indexRest, mul_assoc]
      case createUser => simp [opening?, State.residual, userRest, mul_assoc]
      case grant =>
          simp [opening?, State.residual, privilegeRest, privileges, morePrivileges, grantees,
            listOf, mul_assoc]
      case revoke =>
          simp [opening?, State.residual, privilegeRest, privileges, morePrivileges, grantees,
            listOf, mul_assoc]
      all_goals simp [opening?]

theorem beginning_goes (h : d.statement = {}) :
    Goes (d.follow (Move.begin t)) ts ↔ t :: ts ∈ sentence := by
  have hnames : d.context.names = [] := by simp [context, h]
  rw [cons_mem_sentence hnames, Move.begin, goes_follow_map]
  simp only [Prod.exists]
  refine exists_congr fun kind => exists_congr fun state => and_congr_right fun _ => ?_
  rw [goes_of_apply rfl]
  rfl

/-- A draft takes the tokens with which the lists that complete it begin. -/
theorem accept_goes (rest : List Char) (hpictured : d.Pictured)
    (hnames : ∀ s ∈ d.context.names, isIdentifier s = true) (hquery : d.state ≠ .view .query) :
    Goes (d.accept t rest) ts ↔ t :: ts ∈ d.residual := by
  unfold Pictured at hpictured
  unfold accept move? residual
  generalize hstate : d.state = state at hpictured hquery
  cases state with
  | beginning => exact beginning_goes hpictured
  | select place => exact select_goes hpictured
  | order place => exact order_goes hpictured
  | insert place => exact insert_goes hpictured
  | update place => exact update_goes hpictured
  | delete place => exact delete_goes hpictured
  | filter place => exact filter_goes hpictured
  | table place => exact table_goes hpictured
  | check place => exact check_goes hnames hpictured
  | primaryKey place => exact primaryKey_goes hnames hpictured
  | foreignKey place => exact foreignKey_goes hnames hpictured
  | view place => exact view_goes fun h => hquery (congrArg State.view h)
  | index place => exact index_goes hpictured
  | user place => exact user_goes
  | privilege place => exact privilege_goes hpictured
  | done => simp [State.residual]

/-- The query of a view takes the text from its first word on. -/
theorem accept_query_iff (rest : List Char) (hquery : d.state = .view .query) :
    (∃ d', d.accept t rest = .ok d') ↔ t :: ts ∈ d.residual := by
  unfold accept move? residual
  rw [hquery]
  exact view_query_iff

end Draft

end SqlReader
