import SqlReader.Proofs.Progress.Basic

/-!
# Table definitions keep their picture

The column that a step changes is the one in focus: the column being defined,
the one whose foreign key is being read, or the one that a check belongs to.
-/

namespace SqlReader

/-! ## The column in focus -/

theorem modify_append_cons {α : Type} (f : α → α) (before : List α) (a : α) (after : List α) :
    (before ++ a :: after).modify before.length f = before ++ f a :: after := by
  induction before with
  | nil => rfl
  | cons b before ih => simp [ih]

namespace Focus

variable {Q R : Column → Prop} {cs : List Column} {i : Option Nat}

theorem imp (h : Focus i Q cs) (hQR : ∀ c, Q c → R c) : Focus i R cs := by
  obtain ⟨before, c, after, hcs, hi, hQ, hothers⟩ := h
  exact ⟨before, c, after, hcs, hi, hQR c hQ, hothers⟩

theorem exists_lt (h : Focus i Q cs) : ∃ k, i = some k ∧ k < cs.length := by
  obtain ⟨before, c, after, rfl, hi, _, _⟩ := h
  exact ⟨before.length, hi, by simp⟩

theorem modify {k : Nat} {f : Column → Column} (h : Focus (some k) Q cs)
    (hf : ∀ c, Q c → R (f c)) : Focus (some k) R (cs.modify k f) := by
  obtain ⟨before, c, after, rfl, hk, hQ, hothers⟩ := h
  obtain rfl : k = before.length := by simpa using hk
  exact ⟨before, f c, after, modify_append_cons f before c after, rfl, hf c hQ, hothers⟩

theorem allSettled (h : Focus i Column.Settled cs) : AllSettled cs := by
  obtain ⟨before, c, after, rfl, _, hc, hothers⟩ := h
  refine ⟨by simp, ?_⟩
  intro b hb
  simp only [List.mem_append, List.mem_cons] at hb hothers
  rcases hb with hb | rfl | hb
  · exact hothers b (.inl hb)
  · exact hc
  · exact hothers b (.inr hb)

end Focus

theorem AllSettled.focus {cs : List Column} (h : AllSettled cs) {k : Nat} (hk : k < cs.length) :
    Focus (some k) Column.Settled cs := by
  have hsplit : cs = cs.take k ++ cs[k] :: cs.drop (k + 1) := by simp
  refine ⟨cs.take k, cs[k], cs.drop (k + 1), hsplit, by simp; omega, h.2 _ (by simp), ?_⟩
  intro b hb
  apply h.2
  rcases List.mem_append.mp hb with hb | hb
  · exact List.mem_of_mem_take hb
  · exact List.mem_of_mem_drop hb

theorem IsTable.setColumns {s : Statement} (h : IsTable s) (columns : List Column) :
    IsTable { s with columns } := by
  obtain ⟨table, _, rfl⟩ := h
  exact ⟨table, columns, rfl⟩

theorem lastIdx?_lt {α : Type} {p : α → Bool} {as : List α} {i : Nat}
    (h : lastIdx? p as = some i) : i < as.length := by
  obtain ⟨j, hj, rfl⟩ := Option.map_eq_some_iff.mp h
  have hlt : j < as.reverse.length := (List.findIdx?_eq_some_iff_findIdx_eq.mp hj).1
  rw [List.length_reverse] at hlt
  omega

namespace Draft

variable {d : Draft} {t : Token}

def setColumns (d : Draft) (columns : List Column) : Draft :=
  { d with statement := { d.statement with columns } }

theorem modifyColumn_eq {i : Nat} (f : Column → Column)
    (h : i < d.statement.columns.length) :
    d.modifyColumn i f = .ok (d.setColumns (d.statement.columns.modify i f)) := by
  simp [modifyColumn, setColumns, h]

theorem Resumes.setColumns {columns : List Column} (h : d.Resumes)
    (hlength : columns.length = d.statement.columns.length) :
    (d.setColumns columns).Resumes := by
  intro hscope
  obtain ⟨i, hi, hlt⟩ := h hscope
  exact ⟨i, hi, hlength ▸ hlt⟩

/-- A change of the column being defined. -/
theorem modifyCurrentColumn_focus {Q R : Column → Prop} {f : Column → Column}
    (ht : IsTable d.statement) (h : Focus d.currentColumn Q d.statement.columns)
    (hf : ∀ c, Q c → R (f c)) :
    ∃ d', d.modifyCurrentColumn f = .ok d' ∧ IsTable d'.statement ∧
      Focus d'.currentColumn R d'.statement.columns := by
  obtain ⟨k, hk, hlt⟩ := h.exists_lt
  rw [hk] at h
  refine ⟨d.setColumns (d.statement.columns.modify k f), ?_, ht.setColumns _, ?_⟩
  · rw [modifyCurrentColumn, hk]
    exact modifyColumn_eq f hlt
  · change Focus d.currentColumn R (d.statement.columns.modify k f)
    rw [hk]
    exact h.modify hf

/-- A change of the column whose foreign key is being read. -/
theorem modifyForeignKey_focus {Q R : Column → Prop} {f : Column → Column}
    (ht : IsTable d.statement) (hd : d.Resumes)
    (h : Focus d.foreignKeyColumn Q d.statement.columns) (hf : ∀ c, Q c → R (f c)) :
    ∃ d', d.modifyForeignKey f = .ok d' ∧ IsTable d'.statement ∧ d'.Resumes ∧
      Focus d'.foreignKeyColumn R d'.statement.columns := by
  obtain ⟨k, hk, hlt⟩ := h.exists_lt
  rw [hk] at h
  refine ⟨d.setColumns (d.statement.columns.modify k f), ?_, ht.setColumns _,
    hd.setColumns (List.length_modify ..), ?_⟩
  · rw [modifyForeignKey, hk]
    exact modifyColumn_eq f hlt
  · change Focus d.foreignKeyColumn R (d.statement.columns.modify k f)
    rw [hk]
    exact h.modify hf

theorem leads_columnIndex_bind {P : Draft → Prop} {name : String}
    {f : Nat → Except Refusal Draft}
    (h : ∀ i, i < d.statement.columns.length → Leads P (f i)) :
    Leads P (d.columnIndex name >>= f) := by
  unfold columnIndex
  split
  next i hi => exact h i (lastIdx?_lt hi)
  · trivial

/-- A settled column may become a foreign key. -/
theorem openForeignKey_focus {i : Nat} (ht : IsTable d.statement)
    (h : AllSettled d.statement.columns) (hi : i < d.statement.columns.length) :
    ∃ d', d.openForeignKey i = .ok d' ∧ IsTable d'.statement ∧
      d'.constraintScope = d.constraintScope ∧ (d.Resumes → d'.Resumes) ∧
      Focus d'.foreignKeyColumn Column.AwaitsTarget d'.statement.columns := by
  let open_ := fun c : Column => addConstraint .foreignKey { c with foreignKey := true }
  have hopen : Focus (some i) Column.AwaitsTarget (d.statement.columns.modify i open_) :=
    (h.focus hi).modify fun c hc => ⟨hc.typed, hc.chained, rfl⟩
  refine ⟨{ d.setColumns (d.statement.columns.modify i open_) with foreignKeyColumn := some i },
    ?_, ht.setColumns _, rfl, fun hd => hd.setColumns (List.length_modify ..), hopen⟩
  rw [openForeignKey, modifyColumn_eq _ hi]
  rfl

/-- What is said of a column leaves it settled. -/
theorem settled_set {c : Column} {part : ColumnPart} (hpart : ∀ kind, part ≠ .dataType kind)
    (hc : c.Settled) : (part.set c).Settled := by
  cases part with
  | dataType kind => exact absurd rfl (hpart kind)
  | _ => exact ⟨hc.typed, hc.keyed, hc.chained⟩

theorem define_pictured {part : ColumnPart} {place : TablePlace} (ht : IsTable d.statement)
    (h : Focus d.currentColumn Column.Settled d.statement.columns)
    (hpart : ∀ kind, part ≠ .dataType kind)
    (hplace : ∀ d' : Draft, IsTable d'.statement →
      Focus d'.currentColumn Column.Settled d'.statement.columns → place.Pictured d') :
    Leads Pictured (d.follow (some ⟨.define part, .table place⟩)) := by
  obtain ⟨d', hmodify, ht', h'⟩ :=
    modifyCurrentColumn_focus ht h fun c hc => settled_set hpart hc
  exact leads_of_apply hmodify (hplace { d' with state := _ } ht' h')

theorem columnTail_pictured (ht : IsTable d.statement)
    (h : Focus d.currentColumn Column.Settled d.statement.columns) :
    Leads Pictured (d.follow (Move.columnTail t)) := by
  obtain ⟨k, hk, hlt⟩ := h.exists_lt
  unfold Move.columnTail
  split
  · exact ⟨ht, h.allSettled⟩
  · obtain ⟨table, columns, hs⟩ := ht
    have hcolumns : AllSettled columns := by simpa [hs] using h.allSettled
    change Finished d.statement
    rw [hs]
    exact .table hcolumns
  · exact define_pictured ht h (by simp) fun _ ht h => ⟨ht, h⟩
  · exact define_pictured ht h (by simp) fun _ ht h => ⟨ht, h⟩
  · exact define_pictured ht h (by simp) fun _ ht h => ⟨ht, h⟩
  · exact ⟨ht, h⟩
  · refine ⟨ht, fun _ => ⟨k, hk, hlt⟩, rfl, h.allSettled, ?_⟩
    intro i hi
    obtain rfl : i = k := by simpa [hk] using hi.symm
    exact hlt
  · obtain ⟨d', hopen, ht', _, hresumes, h'⟩ :=
      openForeignKey_focus (d := { d with constraintScope := .column }) ht h.allSettled hlt
    refine leads_of_apply ?_ ⟨ht', hresumes fun _ => ⟨k, hk, hlt⟩, h'⟩
    simpa only [apply, enterReferences, hk] using hopen
  · trivial

theorem openColumn_pictured (ht : IsTable d.statement)
    (h : ∀ c ∈ d.statement.columns, c.Settled) : Leads Pictured (d.follow (Move.openColumn t)) := by
  simp only [Move.openColumn, leads_follow_map]
  intro name _
  refine ⟨ht.setColumns _, d.statement.columns, { name }, [], rfl, by simp [addColumn], ?_,
    by simpa using h⟩
  refine ⟨⟨rfl, by simp⟩, by simp, rfl⟩

theorem table_pictured {place : TablePlace} (h : place.Pictured d) :
    Leads Pictured (d.follow (place.move? t)) := by
  cases place with
  | name =>
      simp only [TablePlace.Pictured] at h
      simp only [TablePlace.move?, leads_follow_map]
      intro name _
      refine ⟨name, ?_⟩
      simp [addTable, h]
  | opening =>
      simp only [TablePlace.move?, leads_follow_expect]
      intro _
      exact h
  | field =>
      obtain ⟨table, hs⟩ := h
      exact openColumn_pictured ⟨table, [], hs⟩ (by simp [hs])
  | fieldType =>
      obtain ⟨ht, h⟩ := h
      simp only [TablePlace.move?]
      split
      · trivial
      next htype =>
        obtain ⟨d', hmodify, ht', h'⟩ := modifyCurrentColumn_focus ht h
          (f := fun c => ColumnPart.set c (.dataType (dataType t)))
          (fun c hc => Column.Settled.mk htype hc.1 hc.2)
        exact leads_of_apply hmodify ⟨ht', h'⟩
  | typeSuffix =>
      obtain ⟨ht, h⟩ := h
      simp only [TablePlace.move?]
      split
      · exact ⟨ht, h⟩
      · exact columnTail_pictured ht h
  | fieldLength =>
      simp only [TablePlace.move?, leads_follow_map]
      intro length _
      exact define_pictured h.1 h.2 (by simp) fun _ ht h => ⟨ht, h⟩
  | lengthClose =>
      simp only [TablePlace.move?, leads_follow_expect]
      intro _
      exact h
  | columnTail => exact columnTail_pictured h.1 h.2
  | defaultValue =>
      simp only [TablePlace.move?, leads_follow_map]
      intro value _
      exact define_pictured h.1 h.2 (by simp) fun _ ht h => ⟨ht, h⟩
  | element =>
      obtain ⟨ht, h⟩ := h
      simp only [TablePlace.move?]
      split
      · exact ⟨ht, h⟩
      · exact ⟨ht, rfl, h⟩
      · exact ⟨ht, by simp [Resumes], rfl, h, by simp⟩
      · exact openColumn_pictured ht h.2
  | constraintEnd =>
      obtain ⟨ht, h⟩ := h
      simp only [TablePlace.move?]
      split
      · exact ⟨ht, h⟩
      · obtain ⟨table, columns, hs⟩ := ht
        rw [hs] at h
        change Finished d.statement
        rw [hs]
        exact .table h
      · trivial

/-- After a constraint the definition goes on where the constraint began. -/
theorem afterConstraint_pictured (ht : IsTable d.statement) (hd : d.Resumes)
    (h : AllSettled d.statement.columns) :
    Pictured { d with state := afterConstraint d.constraintScope } := by
  unfold afterConstraint
  cases hscope : d.constraintScope with
  | column =>
      obtain ⟨k, hk, hlt⟩ := hd hscope
      refine ⟨ht, ?_⟩
      change Focus d.currentColumn Column.Settled d.statement.columns
      rw [hk]
      exact h.focus hlt
  | table => exact ⟨ht, h⟩

/-! ## Checks -/

theorem CheckPending.putPredicate {Q R : Option Predicate → Prop} (ht : IsTable d.statement)
    (hd : d.Resumes) (h : d.CheckPending Q) :
    ∃ c, d.currentCondition = .ok c ∧ Q c.predicate ∧
      ∀ p, R p → IsTable (d.putCondition { c with predicate := p }).statement ∧
        (d.putCondition { c with predicate := p }).Resumes ∧
        (d.putCondition { c with predicate := p }).CheckPending R := by
  obtain ⟨hfresh, before, c, after, hcs, hcheck, hopen, ⟨htyped, hkeyed, hchain⟩, hothers⟩ := h
  obtain ⟨earlier, name, p, hchecks, hearlier, hcount, hQ⟩ := hchain
  have hindex : d.openCondition = some (.check before.length earlier.length) := by
    simpa [hchecks] using hopen
  refine ⟨⟨.field name, p⟩, ?_, hQ, ?_⟩
  · simp [currentCondition, hindex, hcs, hchecks]
  · intro p' hp'
    let put := fun column : Column =>
      { column with checks := column.checks.set earlier.length ⟨.field name, p'⟩ }
    have hput : d.putCondition ⟨.field name, p'⟩ =
        d.setColumns (before ++ put c :: after) := by
      simp only [putCondition, hindex, hcs, modify_append_cons, setColumns]
      rfl
    rw [hput]
    refine ⟨ht.setColumns _, hd.setColumns (by simp [hcs]), hfresh, before, put c, after, rfl,
      hcheck, ?_, ⟨htyped, hkeyed, earlier, name, p', ?_, hearlier, hcount, hp'⟩, hothers⟩
    · change d.openCondition = _
      simp [hindex, put, hchecks]
    · simp [put, hchecks]

theorem CheckPending.imp {Q R : Option Predicate → Prop} (h : d.CheckPending Q)
    (hQR : ∀ p, Q p → R p) : d.CheckPending R := by
  obtain ⟨hfresh, before, c, after, hcs, hcheck, hopen, ⟨htyped, hkeyed, hchain⟩, hothers⟩ := h
  exact ⟨hfresh, before, c, after, hcs, hcheck, hopen, ⟨htyped, hkeyed, hchain.imp hQR⟩, hothers⟩

theorem CheckPending.setPredicate {Q : Option Predicate → Prop} (ht : IsTable d.statement)
    (hd : d.Resumes) (h : d.CheckPending Q) (p : Predicate) :
    ∃ d', d.setPredicate p = .ok d' ∧ IsTable d'.statement ∧ d'.Resumes ∧
      d'.CheckPending (· = some p) := by
  obtain ⟨c, hc, _, hput⟩ := h.putPredicate ht hd
  refine ⟨_, ?_, hput (some p) rfl⟩
  simp only [Draft.setPredicate, hc]
  rfl

theorem CheckPending.modifyPredicate {Q R : Option Predicate → Prop} (ht : IsTable d.statement)
    (hd : d.Resumes) (h : d.CheckPending Q) {f : Predicate → Except Refusal Predicate}
    (hf : ∀ p, Q p → ∃ old new, p = some old ∧ f old = .ok new ∧ R (some new)) :
    ∃ d', d.modifyPredicate f = .ok d' ∧ IsTable d'.statement ∧ d'.Resumes ∧
      d'.CheckPending R := by
  obtain ⟨c, hc, hQ, hput⟩ := h.putPredicate ht hd
  obtain ⟨old, new, hold, hnew, hR⟩ := hf _ hQ
  refine ⟨_, ?_, hput (some new) hR⟩
  simp only [Draft.modifyPredicate, hc]
  simp [bind, Except.bind, hold, hnew, pure, Except.pure]

/-- A check whose last condition is complete may go on or end. -/
theorem CheckPending.conjunction (h : d.CheckPending Completes) :
    d.freshCheck = false ∧
      Focus d.checkColumn (fun c => c.checks ≠ [] ∧ c.Settled) d.statement.columns := by
  obtain ⟨hfresh, before, c, after, hcs, hcheck, _, ⟨htyped, hkeyed, hchain⟩, hothers⟩ := h
  obtain ⟨earlier, name, _, hchecks, hearlier, hcount, p, rfl, hp⟩ := hchain
  refine ⟨hfresh, before, c, after, hcs, hcheck, ⟨by simp [hchecks], htyped, hkeyed, ?_, ?_⟩,
    hothers⟩
  · intro condition hcondition
    rw [hchecks] at hcondition
    rcases List.mem_append.mp hcondition with hmem | hmem
    · exact hearlier condition hmem
    · exact ⟨name, p, List.mem_singleton.mp hmem, hp⟩
  · simpa [hchecks] using hcount

/-- A column takes a first or a further condition of a check. -/
theorem checking_addCheck {c : Column} {fresh : Bool} (field : String)
    (h : fresh = true ∧ c.Settled ∨ fresh = false ∧ c.Checking ChainOpen) :
    (addCheck fresh field c).Checking (ChainPending (· = none)) := by
  rcases h with ⟨rfl, htyped, hkeyed, hcomplete, hcount⟩ | ⟨rfl, htyped, hkeyed, hcomplete, hcount⟩
  · refine ⟨htyped, hkeyed, c.checks, field, none, rfl, hcomplete, ?_, rfl⟩
    cases hchecks : c.checks with
    | nil => simpa [addCheck, addConstraint, hchecks] using hcount
    | cons first rest => simp [addCheck, addConstraint, hchecks, hcount]
  · exact ⟨htyped, hkeyed, c.checks, field, none, rfl, hcomplete, hcount, rfl⟩

theorem checking_addConnective {c : Column} (link : Connective) (hne : c.checks ≠ [])
    (h : c.Settled) :
    Column.Checking ChainOpen { c with checkConnectives := c.checkConnectives ++ [link] } := by
  refine ⟨h.typed, h.keyed, h.chained.1, ?_⟩
  have hpos := List.length_pos_iff.mpr hne
  have hcount := h.chained.2
  simp only [List.length_append, List.length_singleton]
  omega

/-- Beginning a condition on a column that takes one. -/
theorem checkOn_pictured {i : Nat} {Q : Column → Prop} (field : String)
    (ht : IsTable d.statement) (hd : d.Resumes) (h : Focus (some i) Q d.statement.columns)
    (hQ : ∀ c, Q c →
      d.freshCheck = true ∧ c.Settled ∨ d.freshCheck = false ∧ c.Checking ChainOpen) :
    Leads (fun d' => Pictured { d' with state := .check .operator }) (d.checkOn field i) := by
  obtain ⟨before, c, after, hcs, hi, hc, hothers⟩ := h
  obtain rfl : i = before.length := by simpa using hi
  have hlt : before.length < d.statement.columns.length := by simp [hcs]
  rw [checkOn, modifyColumn_eq _ hlt, hcs, modify_append_cons]
  refine ⟨ht.setColumns _, hd.setColumns (by simp [hcs]), rfl, before,
    addCheck d.freshCheck field c, after, rfl, rfl, ?_, checking_addCheck field (hQ c hc), hothers⟩
  simp [setColumns]

theorem check_field_pictured (h : CheckPlace.Pictured d .field) :
    Leads Pictured (d.follow (CheckPlace.move? d.constraintScope t .field)) := by
  obtain ⟨ht, hd, h⟩ := h
  simp only [CheckPlace.move?, leads_follow_map]
  intro field _
  rw [leads_follow, apply]
  rcases h with ⟨hfresh, hsettled, htarget⟩ | ⟨hfresh, hfocus⟩
  · have hbegin : ∀ i, i < d.statement.columns.length →
        Leads (fun d' => Pictured { d' with state := .check .operator }) (d.checkOn field i) :=
      fun i hi => checkOn_pictured field ht hd (hsettled.focus hi) fun c hc => .inl ⟨hfresh, hc⟩
    unfold checkTarget
    split
    next i hi => exact hbegin i (htarget i hi)
    · exact leads_columnIndex_bind hbegin
  · obtain ⟨k, hk, _⟩ := hfocus.exists_lt
    rw [hk] at hfocus
    rw [checkTarget, hk]
    exact checkOn_pictured field ht hd hfocus fun c hc => .inr ⟨hfresh, hc.2⟩

theorem check_pictured {place : CheckPlace} (h : place.Pictured d) :
    Leads Pictured (d.follow (place.move? d.constraintScope t)) := by
  cases place with
  | opening =>
      obtain ⟨ht, hd, h⟩ := h
      simp only [CheckPlace.move?, leads_follow_expect]
      intro _
      exact ⟨ht, hd, .inl h⟩
  | field => exact check_field_pictured h
  | operator =>
      obtain ⟨ht, hd, h⟩ := h
      cases hoperator : t.keyword?.bind Keyword.predicate? with
      | none => simp [CheckPlace.move?, hoperator]
      | some found =>
          obtain ⟨p, shape⟩ := found
          have hshape := shape_of_predicate? hoperator
          obtain ⟨d', hset, ht', hd', h'⟩ := h.setPredicate ht hd p
          simp only [CheckPlace.move?, hoperator, Option.bind_some]
          cases shape with
          | range => trivial
          | value | list =>
              exact leads_of_apply hset ⟨ht', hd', h'.imp (by rintro _ rfl; exact hshape)⟩
  | value =>
      obtain ⟨ht, hd, h⟩ := h
      simp only [CheckPlace.move?, leads_follow_map]
      intro value _
      obtain ⟨d', hmodify, ht', hd', h'⟩ := h.modifyPredicate ht hd (completes_fillValue value)
      exact leads_of_apply hmodify ⟨ht', hd', h'.conjunction⟩
  | listOpen =>
      simp only [CheckPlace.move?, leads_follow_expect]
      intro _
      exact h
  | listValue =>
      obtain ⟨ht, hd, h⟩ := h
      simp only [CheckPlace.move?, leads_follow_map]
      intro value _
      obtain ⟨d', hmodify, ht', hd', h'⟩ := h.modifyPredicate ht hd (hasItems_addValue value)
      exact leads_of_apply hmodify ⟨ht', hd', h'⟩
  | listNext =>
      obtain ⟨ht, hd, h⟩ := h
      simp only [CheckPlace.move?]
      split
      · exact ⟨ht, hd, h.imp fun _ hp => hp.takesItems⟩
      · exact ⟨ht, hd, (h.imp fun _ hp => hp.completes).conjunction⟩
      · trivial
  | conjunctionOrClose =>
      obtain ⟨ht, hd, hfresh, h⟩ := h
      obtain ⟨k, hk, hlt⟩ := h.exists_lt
      simp only [CheckPlace.move?]
      split
      · exact afterConstraint_pictured (d := { d with openCondition := none, checkColumn := none })
          ht hd (h.imp fun _ hc => hc.2).allSettled
      · simp only [leads_follow_map]
        intro link _
        have happly : d.apply (.linkCheck link) =
            .ok (d.setColumns (d.statement.columns.modify k fun c =>
              { c with checkConnectives := c.checkConnectives ++ [link] })) := by
          rw [apply, linkCheck, hk]
          exact modifyColumn_eq _ hlt
        refine leads_of_apply happly
          ⟨ht.setColumns _, hd.setColumns (List.length_modify ..), .inr ⟨hfresh, ?_⟩⟩
        rw [hk] at h
        change Focus d.checkColumn _ (d.statement.columns.modify k _)
        rw [hk]
        exact h.modify fun c hc => ⟨hc.1, checking_addConnective link hc.1 hc.2⟩
      · trivial

/-! ## Keys -/

theorem primaryKey_pictured {place : PrimaryKeyPlace} (h : place.Pictured d) :
    Leads Pictured (d.follow (place.move? t)) := by
  obtain ⟨ht, h⟩ := h
  cases place with
  | opening =>
      simp only [PrimaryKeyPlace.move?, leads_follow_expect]
      intro _
      exact ⟨ht, h⟩
  | field =>
      simp only [PrimaryKeyPlace.move?, leads_follow_map]
      intro field _
      rw [leads_follow, apply]
      apply leads_columnIndex_bind
      intro i hi
      rw [modifyColumn_eq _ hi]
      refine ⟨ht.setColumns _, Focus.allSettled (i := some i) ?_⟩
      exact (h.focus hi).modify fun c hc => ⟨hc.typed, hc.keyed, hc.chained⟩
  | next =>
      simp only [PrimaryKeyPlace.move?]
      split
      · exact ⟨ht, h⟩
      · exact ⟨ht, h⟩
      · trivial

/-- The column of a foreign key goes to the table that the key has. -/
theorem setTargetColumn_eq {i : Nat} {c : Column} {r : Reference}
    (hk : d.foreignKeyColumn = some i) (hget : d.statement.columns[i]? = some c)
    (hr : c.references = some r) (column : String) :
    d.setTargetColumn column =
      d.modifyColumn i fun c => { c with references := some { r with column } } := by
  obtain ⟨name, dataType, length, notNull, unique, primaryKey, foreignKey, references, default,
    constraints, checks, checkConnectives⟩ := c
  obtain rfl : references = some r := hr
  simp only [setTargetColumn, hk, hget]

theorem foreignKey_column_pictured (h : ForeignKeyPlace.Pictured d .column) :
    Leads Pictured (d.follow (ForeignKeyPlace.move? d.constraintScope t .column)) := by
  obtain ⟨ht, hd, h⟩ := h
  obtain ⟨before, c, after, hcs, hk, ⟨hawaits, r, hr, htable⟩, hothers⟩ := h
  have hlt : before.length < d.statement.columns.length := by simp [hcs]
  simp only [ForeignKeyPlace.move?, leads_follow_map]
  intro name hname
  have hfocus : Focus (some before.length) Column.AwaitsTarget d.statement.columns :=
    ⟨before, c, after, hcs, rfl, hawaits, hothers⟩
  rw [leads_follow, apply, setTargetColumn_eq hk (by simp [hcs]) hr, modifyColumn_eq _ hlt]
  refine ⟨ht.setColumns _, hd.setColumns (List.length_modify ..),
    Focus.allSettled (i := some before.length) (hfocus.modify ?_)⟩
  intro b hb
  refine ⟨hb.1, ⟨hb.2.2, ?_⟩, hb.2.1⟩
  intro target htarget
  obtain rfl : { r with column := name } = target := by simpa using htarget
  exact ⟨htable, ne_empty_of_identifier? hname⟩

theorem foreignKey_pictured {place : ForeignKeyPlace} (h : place.Pictured d) :
    Leads Pictured (d.follow (place.move? d.constraintScope t)) := by
  cases place with
  | opening =>
      simp only [ForeignKeyPlace.move?, leads_follow_expect]
      intro _
      exact h
  | field =>
      obtain ⟨ht, hscope, h⟩ := h
      simp only [ForeignKeyPlace.move?, leads_follow_map]
      intro field _
      rw [leads_follow, apply]
      apply leads_columnIndex_bind
      intro i hi
      obtain ⟨d', hopen, ht', hscope', _, h'⟩ := openForeignKey_focus ht h hi
      rw [hopen]
      exact ⟨ht', hscope'.trans hscope, h'⟩
  | close =>
      simp only [ForeignKeyPlace.move?, leads_follow_expect]
      intro _
      exact h
  | references =>
      obtain ⟨ht, hscope, h⟩ := h
      simp only [ForeignKeyPlace.move?, leads_follow_expect]
      intro _
      exact ⟨ht, by simp [Resumes, hscope], h⟩
  | table =>
      obtain ⟨ht, hd, h⟩ := h
      simp only [ForeignKeyPlace.move?, leads_follow_map]
      intro table htable
      obtain ⟨d', hmodify, ht', hd', h'⟩ := modifyForeignKey_focus ht hd h
        (f := fun c => { c with references := some ⟨table, ""⟩ })
        (R := Column.AwaitsTargetColumn)
        (fun c hc => ⟨hc, _, rfl, ne_empty_of_identifier? htable⟩)
      exact leads_of_apply hmodify ⟨ht', hd', h'⟩
  | tableOpen =>
      simp only [ForeignKeyPlace.move?, leads_follow_expect]
      intro _
      exact h
  | column => exact foreignKey_column_pictured h
  | columnClose =>
      obtain ⟨ht, hd, h⟩ := h
      simp only [ForeignKeyPlace.move?]
      split
      · exact afterConstraint_pictured (d := { d with foreignKeyColumn := none }) ht hd h
      · trivial

end Draft

end SqlReader
