import SqlReader.Proofs.Json.Data
import SqlReader.Statement.Format

/-!
# Statements in their data form

Each part of a statement is read back from its document, part by part from the names
of the cases up to the whole record.  Only the assignments need a reason: an object
keeps the last value of a repeated key, so they come back if no column repeats.
-/

namespace SqlReader

open Json

/-! ## Names of cases -/

theorem Kind.means (k : Kind) : Means (plainCase? Kind.all Kind.name) (ofText k.name) k :=
  means_plainCase (by cases k <;> decide) (by decide)

theorem DataType.means (t : DataType) :
    Means (plainCase? DataType.all DataType.name) (ofText t.name) t :=
  means_plainCase (by cases t <;> decide) (by decide)

theorem Constraint.means (k : Constraint) :
    Means (plainCase? Constraint.all Constraint.name) (ofText k.name) k :=
  means_plainCase (by cases k <;> decide) (by decide)

theorem Operator.means (op : Operator) :
    Means (plainCase? Operator.all Operator.name) (ofText op.name) op :=
  means_plainCase (by cases op <;> decide) (by decide)

theorem Connective.means (k : Connective) :
    Means (plainCase? Connective.all Connective.name) (ofText k.name) k :=
  means_plainCase (by cases k <;> decide) (by decide)

theorem SortOrder.means (o : SortOrder) :
    Means (plainCase? SortOrder.all SortOrder.name) (ofText o.name) o :=
  means_plainCase (by cases o <;> decide) (by decide)

theorem Action.means (a : Action) :
    Means (plainCase? Action.every Action.name) (ofText a.name) a :=
  means_plainCase (by cases a <;> decide) (by decide)

theorem means_texts (texts : List String) : Means (list? text?) (ofList ofText texts) texts :=
  means_list means_text texts

theorem means_length (n : UInt32) : Means lengthOfJson? (ofNat n.toNat) n where
  sound := .number n.toNat
  ne_null := by simp [ofNat]
  take_eq := by simp [lengthOfJson?, natural?_ofNat]

/-! ## Conditions -/

theorem Operand.means (o : Operand) : Means Operand.ofJson? o.toJson o := by
  cases o <;>
    exact means_ofFields (by simp) (by simp [Operand.ofJson?, case?_ofFields])

theorem Predicate.means (p : Predicate) : Means Predicate.ofJson? p.toJson p := by
  cases p with
  | compare op right =>
      refine means_ofFields (by simp [sound_ofFields, op.means.sound, right.means.sound]) ?_
      simp only [Predicate.ofJson?, case?_ofFields]
      refine take_record rfl (by decide) ?_
      simp [op.means.take_eq, right.means.take_eq]
  | between negated low high =>
      refine means_ofFields (by simp [sound_ofFields]) ?_
      simp only [Predicate.ofJson?, case?_ofFields]
      refine take_record rfl (by decide) ?_
      simp
  | inList negated values =>
      have hvalues := means_texts values
      refine means_ofFields (by simp [sound_ofFields, hvalues.sound]) ?_
      simp only [Predicate.ofJson?, case?_ofFields]
      refine take_record rfl (by decide) ?_
      simp [hvalues.take_eq]
  | like negated pattern =>
      refine means_ofFields (by simp [sound_ofFields]) ?_
      simp only [Predicate.ofJson?, case?_ofFields]
      refine take_record rfl (by decide) ?_
      simp

theorem Condition.means (c : Condition) : Means Condition.ofJson? c.toJson c := by
  refine means_ofFields (by simp [c.left.means.sound, sound_ofOption Predicate.means])
    (take_record rfl (by decide) ?_)
  simp [c.left.means.take_eq, optional_ofOption Predicate.means]

/-! ## Columns -/

theorem Reference.means (r : Reference) : Means Reference.ofJson? r.toJson r :=
  means_ofFields (by simp) (take_record rfl (by decide) (by simp))

theorem Column.means (c : Column) : Means Column.ofJson? c.toJson c := by
  have hconstraints := means_list Constraint.means c.constraints
  have hchecks := means_list Condition.means c.checks
  have hconnectives := means_list Connective.means c.checkConnectives
  refine means_ofFields ?_ (take_record rfl (by decide) ?_)
  · simp [sound_ofOption means_length, sound_ofOption Reference.means, sound_ofOption means_text,
      hconstraints.sound, hchecks.sound, hconnectives.sound]
  · simp [c.dataType.means.take_eq, optional_ofOption means_length,
      optional_ofOption Reference.means, optional_ofOption means_text, hconstraints.take_eq,
      hchecks.take_eq, hconnectives.take_eq]

/-! ## Orders, indexes and privileges -/

theorem OrderItem.means (o : OrderItem) : Means OrderItem.ofJson? o.toJson o :=
  means_ofFields (by simp) (take_record rfl (by decide) (by simp [o.order.means.take_eq]))

theorem IndexColumn.means (c : IndexColumn) : Means IndexColumn.ofJson? c.toJson c :=
  means_ofFields (by simp) (take_record rfl (by decide) (by simp [c.order.means.take_eq]))

theorem Index.means (i : Index) : Means Index.ofJson? i.toJson i := by
  have hcolumns := means_list IndexColumn.means i.columns
  exact means_ofFields (by simp [hcolumns.sound])
    (take_record rfl (by decide) (by simp [hcolumns.take_eq]))

theorem Privilege.means (p : Privilege) : Means Privilege.ofJson? p.toJson p := by
  have hcolumns := means_texts p.columns
  exact means_ofFields (by simp [hcolumns.sound])
    (take_record rfl (by decide) (by simp [p.action.means.take_eq, hcolumns.take_eq]))

/-! ## Assignments -/

section Assignments

variable {updates : Assignments}

/-- Pairs with new keys are added at the end, one after the other. -/
theorem Assignments.foldl_set (before : Assignments)
    (hkeys : ((before ++ updates).map (·.1)).Nodup) :
    updates.foldl (fun a p => a.set p.1 p.2) before = before ++ updates := by
  induction updates generalizing before with
  | nil => simp
  | cons p updates ih =>
      have hnew : p.1 ∉ before.map (·.1) := by
        rw [List.map_append, List.nodup_append] at hkeys
        intro hmem
        exact hkeys.2.2 _ hmem p.1 (by simp) rfl
      rw [List.foldl_cons, Assignments.set_of_notMem p.2 hnew, ih _ (by simpa using hkeys)]
      simp

theorem Assignments.means (hkeys : (updates.map (·.1)).Nodup) :
    Means Assignments.ofJson? updates.toJson updates := by
  refine means_ofFields (fun p hp => ?_) ?_
  · obtain ⟨q, -, rfl⟩ := List.mem_map.mp hp
    exact sound_ofText q.2
  rw [ofFields, Assignments.ofJson?, List.map_map, mapM_map_eq_some (k := id)]
  · simpa using Assignments.foldl_set [] hkeys
  · intro p _
    simp [decode_encode]

end Assignments

/-! ## Statements -/

section Statements

variable {s : Statement} (hkeys : (s.updates.map (·.1)).Nodup)
include hkeys

theorem Statement.means : Means Statement.ofJson? s.toJson s := by
  have htables := means_texts s.tables
  have hfields := means_texts s.fields
  have hconditions := means_list Condition.means s.conditions
  have hconnectives := means_list Connective.means s.connectives
  have hupdates := Assignments.means hkeys
  have hinserts := means_list means_texts s.inserts
  have hcolumns := means_list Column.means s.columns
  have horder := means_list OrderItem.means s.orderBy
  have hprivileges := means_list Privilege.means s.privileges
  have husers := means_texts s.users
  refine means_ofFields ?_ (take_record rfl (by decide) ?_)
  · simp [htables.sound, hfields.sound, hconditions.sound, hconnectives.sound, hupdates.sound,
      hinserts.sound, hcolumns.sound, horder.sound, hprivileges.sound, husers.sound,
      sound_ofOption means_text, sound_ofOption Index.means]
  · simp [s.kind.means.take_eq, htables.take_eq, hfields.take_eq, hconditions.take_eq,
      hconnectives.take_eq, hupdates.take_eq, hinserts.take_eq, hcolumns.take_eq, horder.take_eq,
      hprivileges.take_eq, husers.take_eq, optional_ofOption means_text,
      optional_ofOption Index.means]

/-- Reading the data form of a statement undoes writing it, in both layouts and for
any texts.  An update keeps the order of its columns. -/
theorem Statement.parseJson_render :
    parseJson (s.render .json) = .ok s ∧ parseJson (s.render .pretty) = .ok s := by
  have hs := Statement.means hkeys
  constructor
  · simp [parseJson, render, parse?_compact hs.sound, hs.take_eq]
  · simp [parseJson, render, parse?_indented hs.sound, hs.take_eq]

end Statements

/-- A statement with texts that have to be escaped, an update out of the order of the
alphabet and the greatest length. -/
def Statement.awkward : Statement where
  kind := .update
  tables := ["\\ \" /"]
  updates := [("b", "\n\t\x01"), ("a", "Ж \x7f")]
  conditions := [⟨.field "a", some (.inList true ["", "\r"])⟩, ⟨.literal "1", none⟩]
  connectives := [.or]
  columns := [{ name := "c", length := some 4294967295, constraints := [.check] }]

theorem Statement.parseJson_render_awkward :
    (awkward.updates.map (·.1)).Nodup ∧
      parseJson (awkward.render .json) = .ok awkward ∧
      parseJson (awkward.render .pretty) = .ok awkward :=
  ⟨by decide, parseJson_render (by decide)⟩

end SqlReader
