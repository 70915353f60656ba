import SqlReader.Batch

/-!
# The two ways to parse a batch

A batch that is parsed in order up to the first error says the same as the
results of its texts one by one, up to and with the first that is an error.
-/

namespace SqlReader

/-- The batch stopped at the first error among the results of its texts. -/
structure BatchError.StopsIn (e : BatchError) (results : List (Except Error Statement)) :
    Prop where
  failed : results[e.index]? = some (.error e.source)
  least : ∀ i source, results[i]? = some (.error source) → e.index ≤ i
  parsed_eq : results.take e.index = e.parsed.map .ok
  length_eq : e.parsed.length = e.index

theorem getElem?_map_ok_ne (statements : List Statement) (i : Nat) (source : Error) :
    (statements.map .ok : List (Except Error Statement))[i]? ≠ some (.error source) := by
  rw [List.getElem?_map]
  cases statements[i]? <;> simp

theorem map_ok_inj {statements others : List Statement} :
    statements.map .ok = (others.map .ok : List (Except Error Statement)) ↔ statements = others :=
  List.map_inj_right fun _ _ => Except.ok.inj

namespace BatchError.StopsIn

variable {e e' : BatchError} {results later : List (Except Error Statement)}

theorem of_split (hlength : e.parsed.length = e.index)
    (h : results = e.parsed.map .ok ++ .error e.source :: later) : e.StopsIn results := by
  constructor
  · rw [h, ← hlength]
    simp
  · intro i source hi
    -- before the failed text stand results of texts that were parsed
    apply Nat.le_of_not_lt
    intro hlt
    rw [h, List.getElem?_append_left (by simpa [hlength] using hlt)] at hi
    exact getElem?_map_ok_ne e.parsed i source hi
  · rw [h, ← hlength]
    simp
  · exact hlength

/-- The results of the texts decide where the batch stops. -/
theorem unique (h : e.StopsIn results) (h' : e'.StopsIn results) : e = e' := by
  have hindex : e.index = e'.index :=
    Nat.le_antisymm (h.least _ _ h'.failed) (h'.least _ _ h.failed)
  have hsource : e.source = e'.source := by
    have hfailed := h.failed
    rw [hindex, h'.failed] at hfailed
    exact (Except.error.inj (Option.some.inj hfailed)).symm
  have hparsed : e.parsed = e'.parsed := by
    apply map_ok_inj.mp
    rw [← h.parsed_eq, ← h'.parsed_eq, hindex]
  calc e = ⟨e.parsed, e.index, e.source⟩ := rfl
    _ = ⟨e'.parsed, e'.index, e'.source⟩ := by rw [hparsed, hindex, hsource]

theorem not_all_ok (h : e.StopsIn results) (statements : List Statement) :
    results ≠ statements.map .ok := by
  rintro rfl
  exact getElem?_map_ok_ne _ _ _ h.failed

end BatchError.StopsIn

/-- The statements so far and the texts to come decide the outcome: each text adds
its statement, or ends the batch under its number. -/
theorem parseAfter_cases (settings : Settings) {index : Nat} {parsed : List Statement}
    (hindex : parsed.length = index) (texts : List String) :
    (∃ later, parseAfter settings index parsed texts = .ok (parsed ++ later) ∧
        parseEach settings texts = later.map .ok) ∨
      ∃ e, parseAfter settings index parsed texts = .error e ∧
        e.StopsIn (parsed.map .ok ++ parseEach settings texts) := by
  induction texts generalizing index parsed with
  | nil => exact .inl ⟨[], by rw [parseAfter, List.append_nil], rfl⟩
  | cons text texts ih =>
      have heach : parseEach settings (text :: texts) =
          parseOne settings text :: parseEach settings texts := rfl
      rw [heach, parseAfter]
      cases hresult : parseOne settings text with
      | error source => exact .inr ⟨⟨parsed, index, source⟩, rfl, .of_split hindex rfl⟩
      | ok statement =>
          have hlength : (parsed ++ [statement]).length = index + 1 := by simp [hindex]
          rcases ih hlength with ⟨later, hok, hresults⟩ | ⟨e, herror, hstops⟩
          · rw [List.append_assoc] at hok
            exact .inl ⟨statement :: later, hok, by rw [hresults, List.map_cons]⟩
          · rw [List.map_append, List.append_assoc] at hstops
            exact .inr ⟨e, herror, hstops⟩

theorem parseMany_cases (settings : Settings) (texts : List String) :
    (∃ statements, parseMany settings texts = .ok statements ∧
        parseEach settings texts = statements.map .ok) ∨
      ∃ e, parseMany settings texts = .error e ∧ e.StopsIn (parseEach settings texts) := by
  have hstart : ([] : List Statement).length = 0 := rfl
  exact parseAfter_cases settings hstart texts

/-- Parsing in order agrees with parsing every text by itself: it gives all
statements when no text fails, and stops at the first failure otherwise. -/
theorem parseMany_follows_parseEach (settings : Settings) (texts : List String) :
    (parseEach settings texts).length = texts.length ∧
      (∀ i : Nat, (parseEach settings texts)[i]? = texts[i]?.map (parseOne settings)) ∧
      (∀ statements, parseMany settings texts = .ok statements ↔
        parseEach settings texts = statements.map .ok) ∧
      ∀ e, parseMany settings texts = .error e ↔ e.StopsIn (parseEach settings texts) := by
  refine ⟨List.length_map _, fun i => List.getElem?_map, ?_, ?_⟩
  · intro statements
    rcases parseMany_cases settings texts with ⟨others, hok, hresults⟩ | ⟨e, herror, hstops⟩
    · rw [hok, hresults, Except.ok.injEq, map_ok_inj]
    · rw [herror]
      simpa using hstops.not_all_ok statements
  · intro e
    rcases parseMany_cases settings texts with ⟨statements, hok, hresults⟩ | ⟨e', herror, hstops⟩
    · rw [hok]
      simpa using fun h : e.StopsIn _ => h.not_all_ok statements hresults
    · rw [herror]
      constructor
      · intro h
        exact Except.error.inj h ▸ hstops
      · intro h
        rw [hstops.unique h]

end SqlReader
