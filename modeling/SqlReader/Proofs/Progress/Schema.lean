import SqlReader.Proofs.Progress.Basic

/-!
# Views, indexes, users and privileges keep their picture
-/

namespace SqlReader.Draft

variable {d : Draft} {t : Token}

/-- A view keeps the text from the token that it is at. -/
theorem view_pictured {rest : List Char} {place : ViewPlace}
    (htoken : (scan rest).token = t) (h : place.Pictured d) :
    Leads Pictured (d.follow (place.move? t rest)) := by
  cases place with
  | name =>
      simp only [ViewPlace.Pictured] at h
      simp only [ViewPlace.move?, leads_follow_map]
      intro name _
      refine ⟨name, ?_⟩
      simp [addTable, h]
  | columnsOrAs =>
      obtain ⟨view, hs⟩ := h
      simp only [ViewPlace.move?]
      split
      · exact ⟨view, [], hs⟩
      · exact ⟨view, [], hs⟩
      · trivial
  | field =>
      obtain ⟨view, fields, hs⟩ := h
      simp only [ViewPlace.move?, leads_follow_map]
      intro name _
      refine ⟨view, fields ++ [name], ?_⟩
      simp [addField, hs]
  | fieldsNext =>
      simp only [ViewPlace.move?]
      split
      · exact h
      · exact h
      · trivial
  | asKeyword =>
      simp only [ViewPlace.move?, leads_follow_expect]
      intro _
      exact h
  | query =>
      obtain ⟨view, fields, hs⟩ := h
      simp only [ViewPlace.move?]
      split
      next hselect =>
        have hquery : (scan rest).token = .keyword .select := by
          rw [htoken]
          cases t <;> simp_all [Token.is, Token.keyword?]
        change Finished { d.statement with viewSelect := some (String.ofList rest) }
        rw [hs]
        exact .view hquery
      · trivial

theorem index_pictured {place : IndexPlace} (h : place.Pictured d) :
    Leads Pictured (d.follow (place.move? t)) := by
  cases place with
  | name =>
      simp only [IndexPlace.Pictured] at h
      simp only [IndexPlace.move?, leads_follow_map]
      intro name _
      refine ⟨name, ?_⟩
      simp [h]
  | on =>
      simp only [IndexPlace.move?, leads_follow_expect]
      intro _
      exact h
  | table =>
      obtain ⟨name, hs⟩ := h
      simp only [IndexPlace.move?, leads_follow_map]
      intro table _
      refine ⟨table, name, ?_⟩
      simp [addTable, hs]
  | opening =>
      simp only [IndexPlace.move?, leads_follow_expect]
      intro _
      exact ⟨[], h⟩
  | field =>
      obtain ⟨columns, table, name, hs⟩ := h
      simp only [IndexPlace.move?, leads_follow_map]
      intro column _
      rw [leads_follow, apply, modifyIndex, hs]
      refine ⟨columns ++ [⟨column, .ascending⟩], by simp, table, name, ?_⟩
      simp [addField]
  | orderOrNext =>
      obtain ⟨columns, hne, table, name, hs⟩ := h
      obtain ⟨init, last, rfl⟩ := exists_append_of_ne_nil hne
      -- both directions change the last column in the same way
      have hdirection :
          Leads Pictured (d.follow (some ⟨.orderIndex t.sortOrder, .index .next⟩)) := by
        rw [leads_follow, apply, modifyIndex, hs]
        simp only [orderLastColumn, modifyLast?_append]
        refine ⟨init ++ [{ last with order := t.sortOrder }], by simp, table, name, ?_⟩
        simp
      simp only [IndexPlace.move?]
      split
      · exact hdirection
      · exact hdirection
      · exact ⟨_, table, name, hs⟩
      · exact .index hne ⟨table, name, hs⟩
      · trivial
  | next =>
      obtain ⟨columns, hne, hindexing⟩ := h
      simp only [IndexPlace.move?]
      split
      · exact ⟨columns, hindexing⟩
      · exact .index hne hindexing
      · trivial

theorem user_pictured {place : UserPlace} (h : place.Pictured d) :
    Leads Pictured (d.follow (place.move? t)) := by
  cases place with
  | name =>
      simp only [UserPlace.Pictured] at h
      simp only [UserPlace.move?, leads_follow_map]
      intro name _
      refine ⟨name, ?_⟩
      simp [addUser, h]
  | identifiedBy =>
      simp only [UserPlace.move?, leads_follow_expect]
      intro _
      exact h
  | password =>
      obtain ⟨user, hs⟩ := h
      simp only [UserPlace.move?, leads_follow_map]
      intro password _
      change Finished { d.statement with password := some password }
      rw [hs]
      exact .user

theorem privilege_pictured {place : PrivilegePlace} (h : place.Pictured d) :
    Leads Pictured (d.follow (place.move? d.statement.kind t)) := by
  cases place with
  | action =>
      obtain ⟨privileges, kind, hkind, hs⟩ := h
      simp only [PrivilegePlace.move?, leads_follow_map]
      intro action _
      refine ⟨privileges ++ [⟨action, []⟩], by simp, kind, hkind, ?_⟩
      simp [hs]
  | columnsOrNext =>
      obtain ⟨privileges, hne, h⟩ := h
      simp only [PrivilegePlace.move?]
      split
      · exact ⟨privileges, hne, h⟩
      · exact ⟨privileges, h⟩
      · exact ⟨privileges, [], hne, h⟩
      · exact ⟨privileges, [], hne, h⟩
      · trivial
  | column =>
      obtain ⟨privileges, hne, kind, hkind, hs⟩ := h
      obtain ⟨init, last, rfl⟩ := exists_append_of_ne_nil hne
      simp only [PrivilegePlace.move?, leads_follow_map]
      intro column _
      rw [leads_follow, apply, modifyLastPrivilege, addNewField, hs]
      simp only [modifyLast?_append]
      refine ⟨init ++ [{ last with columns := last.columns ++ [column] }], by simp, kind, hkind, ?_⟩
      simp [distinct, List.foldl_append]
  | columnsNext =>
      simp only [PrivilegePlace.move?]
      split
      · exact h
      · exact h
      · trivial
  | commaOrOn =>
      obtain ⟨privileges, hne, h⟩ := h
      simp only [PrivilegePlace.move?]
      split
      · exact ⟨privileges, h⟩
      · exact ⟨privileges, [], hne, h⟩
      · exact ⟨privileges, [], hne, h⟩
      · trivial
  | table =>
      obtain ⟨privileges, tables, hne, kind, hkind, hs⟩ := h
      simp only [PrivilegePlace.move?, leads_follow_map]
      intro name _
      refine ⟨privileges, tables ++ [name], hne, by simp, kind, hkind, ?_⟩
      simp [addTable, hs]
  | tablesNext =>
      obtain ⟨privileges, tables, hne, htables, h⟩ := h
      simp only [PrivilegePlace.move?]
      split
      · exact ⟨privileges, tables, hne, h⟩
      · split
        · exact ⟨privileges, tables, [], hne, htables, h⟩
        · trivial
      · trivial
  | grantee =>
      obtain ⟨privileges, tables, users, hne, htables, kind, hkind, hs⟩ := h
      simp only [PrivilegePlace.move?, leads_follow_map]
      intro user _
      refine ⟨privileges, tables, users ++ [user], hne, htables, by simp, kind, hkind, ?_⟩
      simp [addUser, hs]
  | granteeComma =>
      obtain ⟨privileges, tables, users, hne, htables, _, h⟩ := h
      simp only [PrivilegePlace.move?, leads_follow_expect]
      intro _
      exact ⟨privileges, tables, users, hne, htables, h⟩

end SqlReader.Draft
