import SqlReader.Proofs.Agreement.Tree

/-!
# The fields of a statement and the parts that name them in detail

An update lists the columns that it assigns to, an index those that it sorts,
and a permission those of its privileges.  The lists and the parts are kept
apart by the grammar and treat repeated columns in different ways; here they are
compared with each other and with the text.
-/

namespace SqlReader

/-! ## Repeated columns -/

theorem eraseDups_concat (names : List String) (name : String) :
    (names ++ [name]).eraseDups = pushNew names.eraseDups name := by
  rw [List.eraseDups_append, List.cons_removeAll, pushNew]
  by_cases hmem : name ∈ names
  · simp [hmem]
  · simp [hmem, List.mem_eraseDups, List.eraseDups_cons]

/-- New names are pushed in the order of their first occurrence. -/
theorem distinct_eq_eraseDups (names : List String) : distinct names = names.eraseDups := by
  induction names using List.reverseRecOn with
  | nil => rfl
  | append_singleton names name ih =>
      rw [eraseDups_concat, ← ih, distinct, List.foldl_append]
      rfl

theorem nodup_distinct (names : List String) : (distinct names).Nodup := by
  induction names using List.reverseRecOn with
  | nil => exact .nil
  | append_singleton names name ih =>
      rw [distinct, List.foldl_append]
      exact Draft.nodup_pushNew ih name

namespace Assignments

theorem lookup_cons (entry : String × String) (updates : Assignments) (column : String) :
    List.lookup column (entry :: updates) =
      if column = entry.1 then some entry.2 else List.lookup column updates := by
  rw [List.lookup_cons]
  by_cases h : column = entry.1
  · simp [h]
  · simp [h, beq_eq_false_iff_ne.mpr h]

theorem lookup_set (updates : Assignments) (column value other : String) :
    (updates.set column value).lookup other =
      if other = column then some value else updates.lookup other := by
  induction updates with
  | nil => exact lookup_cons (column, value) [] other
  | cons entry updates ih =>
      obtain ⟨c, v⟩ := entry
      rw [set]
      split
      next hc =>
        subst hc
        rw [lookup_cons, lookup_cons]
        split <;> rfl
      next hc =>
        rw [lookup_cons, lookup_cons, ih]
        by_cases hother : other = c
        · simp [hother, hc]
        · simp [hother]

/-- The last value that a column gets is the one that it keeps. -/
theorem lookup_foldl_set (entries updates : Assignments) (column : String) :
    (entries.foldl (fun a e => a.set e.1 e.2) updates).lookup column =
      (entries.reverse ++ updates).lookup column := by
  induction entries generalizing updates with
  | nil => rfl
  | cons entry entries ih =>
      rw [List.foldl_cons, ih, List.reverse_cons, List.append_assoc, List.lookup_append,
        List.lookup_append, lookup_set, List.singleton_append, lookup_cons]

end Assignments

/-! ## From the first tokens of a text to its statement -/

namespace Parser

variable {settings : Settings} {text : String} {s s' : Statement} {ts us : List Token}
  {Q : Draft → Prop}

/-- An accepted text goes on from what its first tokens bring about. -/
theorem exists_steps_after (hs : parseOne settings text = .ok s)
    (htokens : HasTokens settings text (ts ++ us))
    (hts : Brings (Draft.At .beginning {}) ts Q) :
    ∃ p vs q, Q p.draft ∧ Reads p.cursor.rest us [] ∧ Steps p vs q ∧
      q.draft.statement = s := by
  obtain ⟨-, ws, q, hsteps, hend, hfinish⟩ := parse_eq_ok_iff.mp hs
  have hreads : Reads (ofText settings text).cursor.rest (ts ++ us) [] := by
    rw [← hasTokens_iff.mp htokens]
    exact Cursor.reads_tokens _
  obtain ⟨middle, hbefore, hafter⟩ := hreads.split
  obtain ⟨d, hrun, hd⟩ := hts (ofText settings text).draft ⟨rfl, rfl⟩
  obtain ⟨p, hfirst, rfl, rfl⟩ := steps_of_run hbefore hrun
  -- both runs come to the same end
  have hq : p.run.parser = q := by
    rw [← hfirst.run_eq.1, hsteps.run_eq.1, run_of_atEnd hend]
  obtain ⟨vs, hrest, -⟩ := steps_run (hfirst.pictured rfl)
  rw [hq] at hrest
  exact ⟨p, vs, q, hd, hafter, hrest, (finish_eq_ok_iff.mp hfinish).2.2⟩

/-- The tokens of an accepted text decide its statement. -/
theorem statement_eq_of_brings {state : State} (hs : parseOne settings text = .ok s)
    (htokens : HasTokens settings text ts)
    (hts : Brings (Draft.At .beginning {}) ts (Draft.At state s')) : s = s' := by
  rw [← List.append_nil ts] at htokens
  obtain ⟨p, vs, q, hp, hreads, hsteps, rfl⟩ := exists_steps_after hs htokens hts
  generalize hrest : p.cursor.rest = rest at hreads
  cases hreads
  cases hsteps with
  | refl => exact hp.statement_eq
  | head hlive _ _ => simp [Cursor.atEnd, hrest] at hlive

end Parser

/-! ## Updates -/

namespace Draft

/-- A filter is being read behind the fields and the updates of the statement. -/
structure Filtering (s : Statement) (d : Draft) : Prop where
  state : ∃ place, d.state = .filter place
  kind_eq : d.statement.kind = s.kind
  fields_eq : d.statement.fields = s.fields
  updates_eq : d.statement.updates = s.updates

namespace Filtering

variable {s : Statement} {d : Draft}

theorem goto (h : d.Filtering s) (place : FilterPlace) :
    Filtering s { d with state := .filter place } :=
  ⟨⟨place, rfl⟩, h.kind_eq, h.fields_eq, h.updates_eq⟩

theorem putCondition (h : d.Filtering s) (c : Condition) : (d.putCondition c).Filtering s := by
  unfold Draft.putCondition
  split
  · exact h
  · exact ⟨h.state, h.kind_eq, h.fields_eq, h.updates_eq⟩
  · exact ⟨h.state, h.kind_eq, h.fields_eq, h.updates_eq⟩

theorem setPredicate (h : d.Filtering s) (p : Predicate) :
    Yields (Filtering s) (d.setPredicate p) := by
  simp only [Draft.setPredicate, yields_bind, yields_pure]
  intro c _
  exact h.putCondition _

theorem modifyPredicate (h : d.Filtering s) (f : Predicate → Except Refusal Predicate) :
    Yields (Filtering s) (d.modifyPredicate f) := by
  simp only [Draft.modifyPredicate, yields_bind]
  intro c _
  split
  · simp
  · simp only [yields_bind, yields_pure]
    intro p _
    exact h.putCondition _

theorem stay (h : d.Filtering s) (place : FilterPlace) :
    Yields (Filtering s) (d.follow (some ⟨.stay, .filter place⟩)) :=
  yields_follow.mpr (yields_ok.mpr (h.goto place))

/-- The filter of anything but a query adds no fields and no updates. -/
theorem accept (h : d.Filtering s) (hkind : s.kind ≠ .select) (t : Token) (rest : List Char) :
    Yields (Filtering s) (d.accept t rest) := by
  obtain ⟨place, hplace⟩ := h.state
  have hfill : ∀ f next, Yields (fun d' : Draft => Filtering s { d' with state := .filter next })
      (d.modifyPredicate f) :=
    fun f next => (h.modifyPredicate f).imp fun _ hd => hd.goto next
  rw [Draft.accept, move?, hplace]
  cases place with
  | field =>
      simp only [FilterPlace.move?, yields_follow_map, yields_follow, apply, yields_ok]
      intro name _
      exact ⟨⟨_, rfl⟩, h.kind_eq, h.fields_eq, h.updates_eq⟩
  | operator =>
      simp only [FilterPlace.move?, yields_follow_map, yields_follow, apply]
      rintro ⟨p, shape⟩ -
      exact (h.setPredicate p).imp fun _ hd => hd.goto _
  | value | betweenLow | betweenHigh | listValue =>
      simp only [FilterPlace.move?, yields_follow_map, yields_follow, apply]
      exact fun value _ => hfill _ _
  | betweenAnd | listOpen =>
      simp only [FilterPlace.move?, yields_follow_expect]
      exact fun _ => h.goto _
  | listNext =>
      simp only [FilterPlace.move?]
      split
      · exact h.stay _
      · exact h.stay _
      · simp
  | conjunction =>
      simp only [FilterPlace.move?]
      split
      · rw [if_neg (by rwa [h.kind_eq])]
        simp
      · simp only [yields_follow_map, yields_follow, apply, yields_ok]
        intro link _
        exact ⟨⟨_, rfl⟩, h.kind_eq, h.fields_eq, h.updates_eq⟩
      · simp

end Filtering

end Draft

theorem Parser.Steps.filtering {p q : Parser} {ts : List Token} {s : Statement}
    (h : Steps p ts q) (hkind : s.kind ≠ .select) (hp : p.draft.Filtering s) :
    q.draft.Filtering s := by
  refine h.preserves (P := fun r => r.draft.Filtering s) ?_ hp
  intro a b ha _ hstep
  obtain ⟨d, haccept, rfl⟩ := step_eq_ok_iff.mp hstep
  exact ha.accept hkind _ _ d haccept

def assigned (table : String) (as : List Assignment) : Statement :=
  { kind := .update, tables := [table], fields := distinct (as.map (·.column.text)),
    updates := (as.map Assignment.entry).foldl (fun a e => a.set e.1 e.2) [] }

theorem assigned_concat (table : String) (as : List Assignment) (a : Assignment) :
    (assigned table as).assign a.column.text a.value.text = assigned table (as ++ [a]) := by
  simp [assigned, Statement.assign, distinct, Assignment.entry]

theorem map_fst_foldl_set (entries updates : Assignments) :
    (entries.foldl (fun a e => a.set e.1 e.2) updates).map (·.1) =
      (entries.map (·.1)).foldl pushNew (updates.map (·.1)) := by
  induction entries generalizing updates with
  | nil => rfl
  | cons entry entries ih =>
      rw [List.foldl_cons, ih, Draft.map_fst_set, List.map_cons, List.foldl_cons]

theorem assigned_fields (table : String) (as : List Assignment) :
    (assigned table as).fields = (assigned table as).updates.map (·.1) := by
  rw [assigned, map_fst_foldl_set, List.map_map]
  rfl

theorem brings_heading (u : Update) :
    Brings (Draft.At .beginning {}) u.heading
      (Draft.At (.filter .field) (assigned u.table.text u.assignments)) := by
  have hname := Draft.brings_table (a := .update .table) (b := .update .set) .update
    u.table.identifier (by decide) fun _ => rfl
  have hset := Brings.of_goto (a := .update .set) (b := .update .field)
    (s := { kind := .update, tables := [u.table.text] }) (t := .keyword .set) (by decide)
    fun _ => rfl
  have hlist : Brings (Draft.At (.update .field) (assigned u.table.text []))
      (commaList Assignment.tokens u.assignments)
      (Draft.At (.update .commaOrWhere) (assigned u.table.text u.assignments)) := by
    refine Brings.commaList_at u.assigns (by decide) (fun _ => rfl) fun before a after _ => ?_
    rw [← assigned_concat]
    exact Draft.brings_assignment a.column.identifier a.value.spells
  have hwhere := Brings.of_goto (a := .update .commaOrWhere) (b := .filter .field)
    (s := assigned u.table.text u.assignments) (t := .keyword .whereClause) (by decide)
    fun _ => rfl
  exact (Draft.brings_beginning rfl).append (hname.append (hset.append (hlist.append hwhere)))

section Texts

variable {settings : Settings} {text : String} {s : Statement}

/-- The filter leaves what the assignments brought about. -/
theorem HasTokens.update_eq {u : Update} (h : HasTokens settings text u.tokens)
    (hs : parseOne settings text = .ok s) :
    s.fields = (assigned u.table.text u.assignments).fields ∧
      s.updates = (assigned u.table.text u.assignments).updates := by
  obtain ⟨p, vs, q, hp, -, hsteps, rfl⟩ := Parser.exists_steps_after hs h (brings_heading u)
  have hstart : p.draft.Filtering (assigned u.table.text u.assignments) :=
    ⟨⟨_, hp.state_eq⟩, by rw [hp.statement_eq], by rw [hp.statement_eq], by rw [hp.statement_eq]⟩
  have hend := hsteps.filtering (by simp [assigned]) hstart
  exact ⟨hend.fields_eq, hend.updates_eq⟩

theorem HasTokens.index_eq {i : IndexDefinition} (h : HasTokens settings text i.tokens)
    (hs : parseOne settings text = .ok s) :
    s = Draft.withIndex i.table.text i.name.text (i.columns.map (·.column)) :=
  Parser.statement_eq_of_brings hs h
    (Draft.brings_sorted i.table.identifier i.name.identifier i.sorts)

theorem HasTokens.permission_eq {p : Permission} (h : HasTokens settings text p.tokens)
    (hs : parseOne settings text = .ok s) :
    s = { Draft.withPrivileges p.kind p.privileges with
          tables := p.tables.map (·.text), users := p.users.map (·.text) } := by
  have hnames : ∀ names : List Definition.Name, ∀ name ∈ names.map (·.text),
      isIdentifier name = true := by
    intro names name hname
    obtain ⟨n, -, rfl⟩ := List.mem_map.mp hname
    exact n.identifier
  obtain ⟨hprivileges, htables, husers⟩ := p.nonempty
  exact Parser.statement_eq_of_brings hs h
    (Draft.brings_permission p.permits p.introduces hprivileges p.columns (by simpa using htables)
      (hnames p.tables) (by simpa using husers) (hnames p.users))

/-- The fields of an accepted statement agree with the parts that name them in
detail.  An update lists the columns of its updates, each once, where it was
assigned to first, and keeps the last value of each.  An index lists the columns
that it sorts, each with the direction behind it or ascending.  A permission
lists the columns of its privileges, each once, and the privileges keep theirs
as they are written. -/
theorem fields_agree (hs : parseOne settings text = .ok s) :
    (s.kind = .update →
      (∃ u : Update, HasTokens settings text u.tokens) ∧
        ∀ u : Update, HasTokens settings text u.tokens →
          s.fields = s.updates.map (·.1) ∧ s.fields.Nodup ∧
            s.fields = (u.assignments.map (·.column.text)).eraseDups ∧
            ∀ column, s.updates.lookup column =
              (u.assignments.map Assignment.entry).reverse.lookup column) ∧
      (s.kind = .createIndex →
        (∃ i : IndexDefinition, HasTokens settings text i.tokens) ∧
          ∀ i : IndexDefinition, HasTokens settings text i.tokens →
            ∃ index, s.index = some index ∧ s.fields = index.columns.map (·.name) ∧
              index.columns = i.columns.map fun c => ⟨c.name, c.direction.getD .ascending⟩) ∧
      (s.kind = .grant ∨ s.kind = .revoke →
        (∃ p : Permission, HasTokens settings text p.tokens) ∧
          ∀ p : Permission, HasTokens settings text p.tokens →
            s.fields = (s.privileges.flatMap (·.columns)).eraseDups ∧
              s.privileges = p.privileges) := by
  refine ⟨?_, ?_, ?_⟩
  · intro hkind
    refine ⟨exists_update hs hkind, fun u hu => ?_⟩
    obtain ⟨hfields, hupdates⟩ := hu.update_eq hs
    refine ⟨?_, ?_, ?_, ?_⟩
    · rw [hfields, hupdates, assigned_fields]
    · rw [hfields]
      exact nodup_distinct _
    · rw [hfields]
      exact distinct_eq_eraseDups _
    · intro column
      rw [hupdates, assigned, Assignments.lookup_foldl_set, List.append_nil]
  · intro hkind
    refine ⟨exists_index hs hkind, fun i hi => ?_⟩
    rw [hi.index_eq hs]
    exact ⟨_, rfl, rfl, rfl⟩
  · intro hkind
    refine ⟨exists_permission hs hkind, fun p hp => ?_⟩
    rw [hp.permission_eq hs]
    exact ⟨distinct_eq_eraseDups _, rfl⟩

/-- A column that is assigned twice, one that is indexed twice, and one of two privileges. -/
theorem fields_agree_repeated :
    (∃ s, parseOne {} "UPDATE t SET a = 1, b = '2', a = '3' WHERE c = 4" = .ok s ∧
      s.fields = ["a", "b"] ∧ s.updates.lookup "a" = some "3") ∧
      (∃ s index, parseOne {} "CREATE INDEX i ON t (a DESC, b, a)" = .ok s ∧
        s.index = some index ∧ s.fields = ["a", "b", "a"] ∧
        index.columns = [⟨"a", .descending⟩, ⟨"b", .ascending⟩, ⟨"a", .ascending⟩]) ∧
      ∃ s, parseOne {} "GRANT SELECT (a, b, a), UPDATE (b) ON t TO u" = .ok s ∧
        s.fields = ["a", "b"] ∧ s.privileges.map (·.columns) = [["a", "b", "a"], ["b"]] := by
  refine ⟨?_, ?_, ?_⟩
  · let u : Update :=
      { table := ⟨"t", by decide⟩
        assignments := [⟨⟨"a", by decide⟩, ⟨.word "1", "1", by decide⟩⟩,
          ⟨⟨"b", by decide⟩, ⟨.literal "2", "2", by decide⟩⟩,
          ⟨⟨"a", by decide⟩, ⟨.literal "3", "3", by decide⟩⟩]
        filter := [.word "c", .keyword .equal, .word "4"]
        assigns := by simp }
    have hs : parseOne {} "UPDATE t SET a = 1, b = '2', a = '3' WHERE c = 4" = .ok
        { kind := .update, tables := ["t"], fields := ["a", "b"],
          conditions := [⟨.field "c", some (.compare .eq (.literal "4"))⟩],
          updates := [("a", "3"), ("b", "2")] } := by
      decide +kernel
    obtain ⟨-, -, hfields, hupdates⟩ := ((fields_agree hs).1 rfl).2 u (by decide +kernel)
    exact ⟨_, hs, hfields, hupdates "a"⟩
  · let i : IndexDefinition :=
      { name := ⟨"i", by decide⟩, table := ⟨"t", by decide⟩
        columns := [⟨"a", some .descending, by decide⟩, ⟨"b", none, by decide⟩,
          ⟨"a", none, by decide⟩]
        sorts := by simp }
    have hs : parseOne {} "CREATE INDEX i ON t (a DESC, b, a)" = .ok
        (Draft.withIndex "t" "i"
          [⟨"a", .descending⟩, ⟨"b", .ascending⟩, ⟨"a", .ascending⟩]) := by
      decide +kernel
    obtain ⟨index, hindex, hfields, hcolumns⟩ :=
      ((fields_agree hs).2.1 rfl).2 i (by decide +kernel)
    exact ⟨_, index, hs, hindex, by rw [hfields, hcolumns]; rfl, hcolumns⟩
  · let p : Permission :=
      { kind := .grant, word := .on, privileges := [⟨.select, ["a", "b", "a"]⟩, ⟨.update, ["b"]⟩]
        tables := [⟨"t", by decide⟩], users := [⟨"u", by decide⟩], permits := .inl rfl
        introduces := by decide, columns := by decide, nonempty := by simp }
    have hs : parseOne {} "GRANT SELECT (a, b, a), UPDATE (b) ON t TO u" = .ok
        { Draft.withPrivileges .grant p.privileges with tables := ["t"], users := ["u"] } := by
      decide +kernel
    obtain ⟨hfields, hprivileges⟩ := ((fields_agree hs).2.2 (.inl rfl)).2 p (by decide +kernel)
    refine ⟨_, hs, hfields.trans ?_, by rw [hprivileges]; rfl⟩
    rw [hprivileges]
    decide

end Texts

end SqlReader
