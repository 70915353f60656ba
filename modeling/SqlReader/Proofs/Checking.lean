import Mathlib.Data.List.Basic
import SqlReader.Command.Execution

/-!
# Checking the lines of a text

The command that checks a text reports on every line that holds a statement, once,
in the order of the lines and under the number of the line.
-/

namespace SqlReader

open Text

/-! ## Lines -/

namespace Text

/-- `ending` ends a line, and `after` follows: a line feed or a carriage return with
a line feed, as the longer of the two that stands there; or nothing at the end of
the text, unless the line is empty. -/
inductive EndsLine (line : List Char) : List Char → List Char → Prop
  | feed {after : List Char} (hline : line.getLast? ≠ some '\r') : EndsLine line ['\n'] after
  | returnFeed {after : List Char} : EndsLine line ['\r', '\n'] after
  | text (hline : line ≠ []) : EndsLine line [] []

inductive LineAt : List Char → Nat → List Char → Prop
  | first {line ending after : List Char} (hfeed : '\n' ∉ line)
      (hends : EndsLine line ending after) : LineAt (line ++ ending ++ after) 1 line
  | later {line ending after found : List Char} {number : Nat} (hfeed : '\n' ∉ line)
      (hends : EndsLine line ending after) (hlater : LineAt after number found) :
      LineAt (line ++ ending ++ after) (number + 1) found

section Lines

variable {cs line ending after : List Char} {c : Char} {rest : List (List Char)} {number : Nat}

theorem lines_cons (hfeed : c ≠ '\n') (hreturn : c = '\r' → cs.head? ≠ some '\n')
    (h : lines cs = line :: rest) : lines (c :: cs) = (c :: line) :: rest := by
  rw [lines, h]
  · exact hfeed
  · rintro tail hc rfl
    exact hreturn hc rfl

theorem lines_singleton (hfeed : c ≠ '\n') : lines [c] = [[c]] := by
  rw [lines, lines]
  · exact hfeed
  · intro tail _ htail
    cases htail

namespace EndsLine

/-- A line without its first character is ended in the same way. -/
theorem tail (h : EndsLine (c :: line) ending after) (hne : line ≠ [] ∨ ending ≠ []) :
    EndsLine line ending after := by
  cases h with
  | feed hline =>
      refine .feed fun hlast => hline ?_
      rw [List.getLast?_cons, hlast]
      rfl
  | returnFeed => exact .returnFeed
  | text => exact .text (hne.resolve_right (fun h => h rfl))

/-- A carriage return in a line has no line feed behind it. -/
theorem head?_ne (hfeed : '\n' ∉ line) (h : EndsLine (c :: line) ending after) (hc : c = '\r') :
    (line ++ ending ++ after).head? ≠ some '\n' := by
  cases line with
  | cons d line =>
      intro hd
      exact hfeed (by simp [Option.some.inj hd])
  | nil =>
      cases h with
      | feed hline => exact absurd (congrArg some hc) hline
      | returnFeed => simp
      | text => simp

end EndsLine

/-- The first line of a text is the one that ends first. -/
theorem lines_append (hfeed : '\n' ∉ line) (hends : EndsLine line ending after) :
    lines (line ++ ending ++ after) = line :: lines after := by
  induction line with
  | nil =>
      cases hends with
      | feed => rfl
      | returnFeed => rfl
      | text hline => exact absurd rfl hline
  | cons c line ih =>
      obtain ⟨hc, hline⟩ := List.ne_and_not_mem_of_not_mem_cons hfeed
      by_cases hne : line ≠ [] ∨ ending ≠ []
      · exact lines_cons (Ne.symm hc) (hends.head?_ne hline) (ih hline (hends.tail hne))
      · obtain ⟨rfl, rfl⟩ : line = [] ∧ ending = [] := by simpa using hne
        cases hends with
        | text => exact lines_singleton (Ne.symm hc)

/-- A text that is not empty begins with a line. -/
theorem exists_endsLine (hne : cs ≠ []) :
    ∃ line ending after, cs = line ++ ending ++ after ∧ '\n' ∉ line ∧
      EndsLine line ending after := by
  induction cs with
  | nil => exact absurd rfl hne
  | cons c cs ih =>
      by_cases hc : c = '\n'
      · exact ⟨[], ['\n'], cs, by rw [hc]; rfl, by simp, .feed (by simp)⟩
      by_cases hreturn : c = '\r' ∧ cs.head? = some '\n'
      · obtain ⟨tail, rfl⟩ := List.head?_eq_some_iff.mp hreturn.2
        exact ⟨[], ['\r', '\n'], tail, by rw [hreturn.1]; rfl, by simp, .returnFeed⟩
      by_cases hcs : cs = []
      · exact ⟨[c], [], [], by rw [hcs]; rfl, by simpa using Ne.symm hc, .text (by simp)⟩
      obtain ⟨line, ending, after, rfl, hline, hends⟩ := ih hcs
      have hfeed : '\n' ∉ c :: line := List.not_mem_cons_of_ne_of_not_mem (Ne.symm hc) hline
      refine ⟨c :: line, ending, after, rfl, hfeed, ?_⟩
      cases hends with
      | returnFeed => exact .returnFeed
      | text => exact .text (by simp)
      | feed hlast =>
          refine .feed ?_
          cases line with
          | nil => exact fun h => hreturn ⟨by simpa using h, rfl⟩
          | cons d line => rwa [List.getLast?_cons_cons]

theorem lineAt_iff : LineAt cs number line ↔ 1 ≤ number ∧ (lines cs)[number - 1]? = some line := by
  constructor
  · intro h
    induction h with
    | first hfeed hends => exact ⟨Nat.le_refl 1, by rw [lines_append hfeed hends]; rfl⟩
    | @later _ _ _ _ number hfeed hends _ ih =>
        obtain ⟨m, rfl⟩ := Nat.exists_eq_add_of_le' ih.1
        exact ⟨Nat.le_add_left 1 _, by rw [lines_append hfeed hends]; exact ih.2⟩
  · rintro ⟨hpos, h⟩
    obtain ⟨m, rfl⟩ := Nat.exists_eq_add_of_le' hpos
    rw [Nat.add_sub_cancel] at h
    have hne : cs ≠ [] := by
      rintro rfl
      cases h
    induction m generalizing cs with
    | zero =>
        obtain ⟨first, ending, after, rfl, hfeed, hends⟩ := exists_endsLine hne
        rw [lines_append hfeed hends] at h
        obtain rfl := Option.some.inj h
        exact .first hfeed hends
    | succ m ih =>
        obtain ⟨first, ending, after, rfl, hfeed, hends⟩ := exists_endsLine hne
        rw [lines_append hfeed hends, List.getElem?_cons_succ] at h
        refine .later hfeed hends (ih (Nat.le_add_left 1 m) h ?_)
        rintro rfl
        cases h

end Lines

end Text

/-! ## Lines that hold statements -/

/-- The line is neither blank nor a comment. -/
def HoldsStatement (line : List Char) : Prop := trim line ≠ [] ∧ ¬ ['-', '-'] <+: trim line

instance : DecidablePred HoldsStatement := fun line =>
  inferInstanceAs (Decidable (trim line ≠ [] ∧ ¬ ['-', '-'] <+: trim line))

section StatementLines

variable {text sql : String} {number : Nat}

theorem statementLines_eq (text : String) :
    statementLines text = ((lines text.toList).zipIdx 1).filterMap fun p =>
      if HoldsStatement p.1 then some (p.2, String.ofList p.1) else none := by
  unfold statementLines
  congr 1
  funext ⟨line, number⟩
  dsimp only
  split
  next htrim => rw [if_neg (by simp [HoldsStatement, htrim])]
  next htrim => rw [if_neg (by simp [HoldsStatement, htrim])]
  next hblank hcomment =>
    refine (if_pos ⟨hblank, ?_⟩).symm
    rintro ⟨cs, hcs⟩
    exact hcomment cs hcs.symm

theorem mem_statementLines_iff :
    (number, sql) ∈ statementLines text ↔
      LineAt text.toList number sql.toList ∧ HoldsStatement sql.toList := by
  rw [statementLines_eq, List.mem_filterMap]
  constructor
  · rintro ⟨⟨line, n⟩, hmem, hline⟩
    dsimp only at hline
    split at hline
    next hholds =>
      obtain ⟨rfl, rfl⟩ := Prod.mk.inj (Option.some.inj hline)
      rw [String.toList_ofList]
      exact ⟨lineAt_iff.mpr (List.mk_mem_zipIdx_iff_le_and_getElem?_sub.mp hmem), hholds⟩
    · cases hline
  · rintro ⟨hline, hholds⟩
    refine ⟨(sql.toList, number), ?_, ?_⟩
    · exact List.mk_mem_zipIdx_iff_le_and_getElem?_sub.mpr (lineAt_iff.mp hline)
    · rw [if_pos hholds, String.ofList_toList]

/-- The lines come in the order of their numbers, each once. -/
theorem statementLines_sorted (text : String) :
    (statementLines text).Pairwise fun a b => a.1 < b.1 := by
  have hnumbers : ((lines text.toList).zipIdx 1).Pairwise fun p q => p.2 < q.2 := by
    rw [← List.pairwise_map (f := Prod.snd), List.zipIdx_map_snd]
    exact List.pairwise_lt_range'
  rw [statementLines_eq]
  refine hnumbers.filterMap _ fun p q hlt a ha b hb => ?_
  obtain ⟨-, hp⟩ := Option.ite_none_right_eq_some.mp ha
  obtain ⟨-, hq⟩ := Option.ite_none_right_eq_some.mp hb
  rwa [← Option.some.inj hp, ← Option.some.inj hq]

end StatementLines

/-! ## Reports -/

inductive Reported (config : Config) (number : Nat) (sql : String) : Bool → String → Prop
  | parsed {s : Statement} (h : parseOne config.parser sql = .ok s) :
      Reported config number sql false (s!"{number}: ok (" ++ s.kind.display ++ ")\n")
  | failed {e : Error} (h : parseOne config.parser sql = .error e)
      (hplain : config.output.caret = false ∨ e.offset? = none) :
      Reported config number sql true (s!"{number}: error\n" ++ (e.message ++ "\n"))
  | marked {e : Error} {pointer : String} (h : parseOne config.parser sql = .error e)
      (hcaret : config.output.caret = true) (hpointer : e.pointer? sql = some pointer) :
      Reported config number sql true
        (s!"{number}: error\n" ++ (pointer ++ "\n" ++ e.message ++ "\n"))

/-- An entry of a report: the line it is about, whether it tells of an error, and its
text. -/
structure Finding where
  number : Nat
  sql : String
  failed : Bool
  text : String

/-- What the command that checks a text does, entry by entry. -/
structure Checked (config : Config) (text : String) (execution : Execution)
    (findings : List Finding) : Prop where
  sorted : findings.Pairwise fun f g => f.number < g.number
  /-- There is an entry for every line that holds a statement, and no other. -/
  covers : ∀ number sql, (∃ f ∈ findings, f.number = number ∧ f.sql = sql) ↔
    LineAt text.toList number sql.toList ∧ HoldsStatement sql.toList
  reported : ∀ f ∈ findings, Reported config f.number f.sql f.failed f.text
  out_eq : execution.out = String.join (findings.map (·.text)) ++
    s!"{findings.length} statements, {findings.countP (·.failed)} failed\n"
  completes : ∃ passed, execution.result = .ok passed
  passes : execution.result = .ok true ↔
    ∀ number sql, LineAt text.toList number sql.toList → HoldsStatement sql.toList →
      ∃ s, parseOne config.parser sql = .ok s

def finding (config : Config) (line : Nat × String) : Finding :=
  let result := parseOne config.parser line.2
  ⟨line.1, line.2, !result.isOk, lineReport config line.1 line.2 result⟩

theorem reported_finding (config : Config) (number : Nat) (sql : String) :
    Reported config number sql (finding config (number, sql)).failed
      (finding config (number, sql)).text := by
  unfold finding
  cases h : parseOne config.parser sql with
  | ok s => exact .parsed h
  | error e =>
      simp only [lineReport, errorReport, Except.isOk, Except.toBool, Bool.not_false]
      cases hcaret : config.output.caret with
      | false =>
          have hreport : Reported config number sql true _ := .failed h (.inl hcaret)
          simpa using hreport
      | true =>
          cases hpointer : e.pointer? sql with
          | none =>
              have hoffset : e.offset? = none := Option.map_eq_none_iff.mp hpointer
              have hreport : Reported config number sql true _ := .failed h (.inr hoffset)
              simpa using hreport
          | some pointer => exact .marked h hcaret hpointer

/-- The three lists of a check run side by side: every line number is matched with the
statement of its line and with the result of that statement. -/
theorem entries_eq (config : Config) (numbered : List (Nat × String)) :
    (numbered.unzip.1.zip numbered.unzip.2).zip (parseEach config.parser numbered.unzip.2) =
      numbered.map fun line => (line, parseOne config.parser line.2) := by
  rw [List.zip_unzip, List.unzip_snd]
  unfold parseEach
  induction numbered with
  | nil => rfl
  | cons line numbered ih => exact congrArg (_ :: ·) ih

theorem failed_eq_false_iff (config : Config) (number : Nat) (sql : String) :
    (finding config (number, sql)).failed = false ↔ ∃ s, parseOne config.parser sql = .ok s := by
  unfold finding
  cases parseOne config.parser sql <;> simp [Except.isOk, Except.toBool]

/-- A check, written with the entries of its report. -/
theorem runCheck_eq (config : Config) (text : String) :
    let findings := (statementLines text).map (finding config)
    (runCheck config text).out = String.join (findings.map (·.text)) ++
        s!"{findings.length} statements, {findings.countP (·.failed)} failed\n" ∧
      (runCheck config text).result = .ok (findings.countP (·.failed) == 0) := by
  have hentries := entries_eq config (statementLines text)
  have hlength : (statementLines text).unzip.2.length = (statementLines text).length := by
    rw [List.unzip_snd, List.length_map]
  unfold runCheck
  cases hsplit : (statementLines text).unzip with
  | mk numbers statements =>
      rw [hsplit] at hentries hlength
      simp only [hentries, hlength, List.map_map, List.countP_map, List.length_map]
      exact ⟨rfl, rfl⟩

theorem runCheck_checked (config : Config) (text : String) :
    Checked config text (runCheck config text) ((statementLines text).map (finding config)) := by
  obtain ⟨hout, hresult⟩ := runCheck_eq config text
  refine ⟨?sorted, ?covers, ?reported, hout, ⟨_, rfl⟩, ?passes⟩
  case sorted => exact List.pairwise_map.mpr (statementLines_sorted text)
  case covers =>
    intro number sql
    rw [← mem_statementLines_iff]
    constructor
    · rintro ⟨f, hf, rfl, rfl⟩
      obtain ⟨line, hline, rfl⟩ := List.mem_map.mp hf
      exact hline
    · intro hmem
      exact ⟨finding config (number, sql), List.mem_map_of_mem hmem, rfl, rfl⟩
  case reported =>
    intro f hf
    obtain ⟨⟨number, sql⟩, -, rfl⟩ := List.mem_map.mp hf
    exact reported_finding config number sql
  case passes =>
    rw [hresult, Except.ok.injEq, beq_iff_eq, List.countP_eq_zero]
    constructor
    · intro h number sql hline hholds
      have hmem := List.mem_map_of_mem (f := finding config)
        (mem_statementLines_iff.mpr ⟨hline, hholds⟩)
      exact (failed_eq_false_iff config number sql).mp (Bool.eq_false_iff.mpr (h _ hmem))
    · intro h f hf
      obtain ⟨⟨number, sql⟩, hline, rfl⟩ := List.mem_map.mp hf
      obtain ⟨hat, hholds⟩ := mem_statementLines_iff.mp hline
      have hparsed := h number sql hat hholds
      exact Bool.eq_false_iff.mp ((failed_eq_false_iff config number sql).mpr hparsed)

/-- Checking a text gives one entry for every line that holds a statement, in the
order of the lines and under the number of the line, and then the number of
statements and of errors.  It succeeds just if every statement can be parsed. -/
theorem exists_checked (config : Config) (text : String) :
    ∃ findings, Checked config text (runCheck config text) findings := by
  exact ⟨_, runCheck_checked config text⟩

/-- A comment, a statement, an empty line and a statement that is refused at its end. -/
example : (runCheck { output := { caret := false } }
    "-- rows\r\nSELECT a FROM t\r\n\n UPDATE t SET a = 1").out =
      "2: ok (Select)\n4: error\n" ++
        "semantic error at offset 19: WHERE is mandatory for UPDATE and DELETE\n" ++
        "2 statements, 1 failed\n" := by
  decide +kernel

end SqlReader
