import SqlReader.Proofs.Residual.Basic

/-!
# Views, indexes, users and privileges, token by token
-/

namespace SqlReader

open Sentence
open scoped Computability

variable {d : Draft} {t : Token} {ts : List Token} {rest : List Char}

namespace Draft

theorem view_goes {place : ViewPlace} (hquery : place ≠ .query) :
    Goes (d.follow (place.move? t rest)) ts ↔ t :: ts ∈ viewRest place := by
  cases place with
  | name => simp [ViewPlace.move?, goes_follow, apply, State.residual, viewRest, mul_assoc]
  | columnsOrAs =>
      simp only [ViewPlace.move?]
      split <;> simp_all [State.residual, viewRest, mul_assoc]
  | field => simp [ViewPlace.move?, goes_follow, apply, State.residual, viewRest, listOf, mul_assoc]
  | fieldsNext =>
      simp only [ViewPlace.move?]
      split <;> simp_all [State.residual, viewRest, listOf, mul_assoc]
  | asKeyword => simp [ViewPlace.move?, State.residual, viewRest]
  | query => exact absurd rfl hquery

/-- The query of a view takes everything that follows. -/
theorem view_query_iff :
    (∃ d', d.follow (ViewPlace.move? t rest .query) = .ok d') ↔ t :: ts ∈ viewRest .query := by
  have htop : ts ∈ (⊤ : Language Token) := trivial
  simp only [follow_eq_ok_iff, ViewPlace.move?, viewRest, viewQuery, cons_mem_kw_mul, htop,
    and_true]
  split
  next hselect => simp_all [Token.is, apply]
  next hselect => simp_all [Token.is]

theorem context_of_modifyIndex {f : Index → Except Refusal Index} {d' : Draft}
    (h : d.modifyIndex f = .ok d') : d'.context = d.context := by
  unfold modifyIndex at h
  split at h
  next index _ =>
    cases hf : f index with
    | error refusal =>
        rw [hf] at h
        cases h
    | ok index' =>
        rw [hf] at h
        cases h
        rfl
  · cases h

theorem keeps_modifyIndex {f : Index → Except Refusal Index}
    (hf : ∀ index refusal, f index = .error refusal → ∃ message, refusal = .internal message) :
    Keeps d (d.modifyIndex f) := by
  refine ⟨?_, fun _ => context_of_modifyIndex⟩
  intro refusal h
  unfold modifyIndex at h
  split at h
  next index _ =>
    cases hindex : f index with
    | error refusal' =>
        rw [hindex] at h
        obtain rfl := Except.error.inj h
        exact hf index _ hindex
    | ok index' =>
        rw [hindex] at h
        cases h
  · exact ⟨_, (Except.error.inj h).symm⟩

theorem keeps_orderLastColumn (order : SortOrder) :
    Keeps d (d.modifyIndex (orderLastColumn order)) := by
  apply keeps_modifyIndex
  intro index refusal h
  unfold orderLastColumn at h
  split at h
  · cases h
  · exact ⟨_, (Except.error.inj h).symm⟩

theorem index_goes {place : IndexPlace} (h : place.Pictured d) :
    Goes (d.follow (place.move? t)) ts ↔ t :: ts ∈ indexRest place := by
  have hleads := index_pictured (t := t) h
  cases place with
  | name => simp [IndexPlace.move?, goes_follow, apply, State.residual, indexRest, mul_assoc]
  | on => simp [IndexPlace.move?, State.residual, indexRest, mul_assoc]
  | table => simp [IndexPlace.move?, goes_follow, apply, State.residual, indexRest]
  | opening =>
      simp [IndexPlace.move?, State.residual, indexRest, parens, mul_assoc]
  | field =>
      obtain ⟨columns, table, index, hs⟩ := h
      have hindex : d.statement.index = some ⟨index, columns⟩ := by rw [hs]
      have hgoes : ∀ column,
          Goes (d.follow (some ⟨.addIndexColumn column, .index .orderOrNext⟩)) ts ↔
            ts ∈ indexRest .orderOrNext := by
        intro column
        simp [goes_follow, apply, modifyIndex, hindex, State.residual, bind, Except.bind, pure,
          Except.pure]
      simp only [IndexPlace.move?, goes_follow_map, hgoes]
      simp [indexRest, listOf, mul_assoc]
  | orderOrNext =>
      simp only [IndexPlace.move?] at hleads ⊢
      split at hleads
      next hasc =>
        rw [goes_of_keeps hleads (keeps_orderLastColumn _)]
        simp [State.residual, indexRest, mul_assoc, hasc]
      next hdesc =>
        rw [goes_of_keeps hleads (keeps_orderLastColumn _)]
        simp [State.residual, indexRest, mul_assoc, hdesc]
      next hcomma => simp [State.residual, indexRest, listOf, mul_assoc, hcomma]
      next hclose => simp [State.residual, indexRest, mul_assoc, hclose]
      next hasc hdesc hcomma hclose => simp_all [indexRest, mul_assoc]
  | next =>
      simp only [IndexPlace.move?]
      split <;> simp_all [State.residual, indexRest, listOf, mul_assoc]

theorem user_goes {place : UserPlace} :
    Goes (d.follow (place.move? t)) ts ↔ t :: ts ∈ userRest place := by
  cases place with
  | name => simp [UserPlace.move?, goes_follow, apply, State.residual, userRest, mul_assoc]
  | identifiedBy => simp [UserPlace.move?, State.residual, userRest]
  | password => simp [UserPlace.move?, goes_follow, apply, State.residual, userRest]

/-! ## Privileges -/

theorem keeps_modifyLastPrivilege (f : Privilege → Privilege) :
    Keeps d (d.modifyLastPrivilege f) := by
  unfold modifyLastPrivilege
  split
  · exact keeps_ok rfl
  · exact keeps_internal

theorem exists_mem_actions_iff {o : Option Keyword} :
    (∃ k ∈ [.select, .insert, .update, .delete, .allPrivileges], o = some k) ↔
      ∃ action, o.bind action? = some action := by
  cases o with
  | none => simp
  | some k => cases k <;> simp [action?]

theorem cons_mem_grantees {kind : Kind} :
    t :: ts ∈ grantees kind ↔
      ∃ k, granteeWord? kind = some k ∧ t.keyword? = some k ∧ ts ∈ listOf name := by
  cases kind <;> simp [grantees, granteeWord?, Language.notMem_zero]

theorem privilege_goes {place : PrivilegePlace} (h : place.Pictured d) :
    Goes (d.follow (place.move? d.statement.kind t)) ts ↔
      t :: ts ∈ privilegeRest d.context place := by
  have hleads := privilege_pictured (t := t) h
  cases place with
  | action =>
      rw [PrivilegePlace.move?, goes_follow_map, privilegeRest, cons_mem_privilege_mul,
        exists_mem_actions_iff, ← exists_and_right]
      refine exists_congr fun action => and_congr_right fun _ => ?_
      rw [goes_of_apply rfl]
      rfl
  | columnsOrNext =>
      simp only [PrivilegePlace.move?]
      split <;> simp_all [State.residual, privilegeRest, morePrivileges, listOf, mul_assoc]
  | column =>
      rw [PrivilegePlace.move?, leads_follow_map] at hleads
      rw [PrivilegePlace.move?, goes_follow_map, privilegeRest, listOf, mul_assoc, mul_assoc,
        cons_mem_name_mul, ← exists_and_right, ← mul_assoc]
      refine exists_congr fun column => and_congr_right fun hcolumn => ?_
      exact goes_of_keeps (e := d.addNewField column) (hleads column hcolumn)
        (keeps_modifyLastPrivilege _)
  | columnsNext =>
      simp only [PrivilegePlace.move?]
      split <;> simp_all [State.residual, privilegeRest, listOf, mul_assoc]
  | commaOrOn =>
      simp only [PrivilegePlace.move?]
      split <;> simp_all [State.residual, privilegeRest, morePrivileges, listOf, mul_assoc]
  | table =>
      simp [PrivilegePlace.move?, goes_follow, apply, State.residual, privilegeRest, listOf,
        mul_assoc]
  | tablesNext =>
      simp only [PrivilegePlace.move?, privilegeRest, mul_assoc, cons_mem_kstar_mul,
        cons_mem_kw_mul, cons_mem_grantees]
      split
      next hcomma =>
        have hword : granteeWord? d.context.kind ≠ some .comma := by
          cases d.context.kind <;> simp [granteeWord?]
        simp [State.residual, privilegeRest, listOf, mul_assoc, hcomma, hword]
      next k hother hk =>
        have hne : k ≠ .comma := hother
        split
        next hword =>
          have hword : granteeWord? d.context.kind = some k := hword
          simp [State.residual, privilegeRest, hk, hne, hword]
        next hword =>
          have hword : granteeWord? d.context.kind ≠ some k := hword
          simp [hk, hne, hword]
      next hnone => simp [hnone]
  | grantee =>
      simp [PrivilegePlace.move?, goes_follow, apply, State.residual, privilegeRest, listOf]
  | granteeComma => simp [PrivilegePlace.move?, State.residual, privilegeRest, listOf, mul_assoc]

end Draft

end SqlReader
