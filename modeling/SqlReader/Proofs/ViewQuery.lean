import SqlReader.Proofs.Definition.Parsing
import SqlReader.Proofs.Margins
import SqlReader.Proofs.Separation
import SqlReader.Proofs.WordLookup

/-!
# The query of a view

Behind the heading of a view the text of a selection is taken as it stands, from
its first token to its last.  Read by itself it is the same selection.
-/

namespace SqlReader

open Text

/-! ## Reading one token -/

section Tokens

variable {c : Char} {k : Keyword} {name : String} {names : List String} {t : Token}
  {ts : List Token} {cs rest after : List Char}

/-- White space before a token that has a meaning may be read over. -/
theorem Reads.skip (h : Reads cs (t :: ts) rest) (ht : t.Readable) :
    Reads (cs.dropWhile isSpace) (t :: ts) rest := by
  have hhead : ∀ c ∈ cs.head?, isSpace c = false := by
    cases h with
    | head => exact isSpace_head_of_readable ht
  have hnil : ∀ c ∈ ([] : List Char), isSpace c = true := by simp
  have hdrop : cs.dropWhile isSpace = cs := dropWhile_append_gap hnil hhead
  rwa [hdrop]

/-- A character that begins no operator of two is read before any text. -/
theorem reads_delimiter (hk : single? c = some k) (hpair : ∀ d, pair? c d = none)
    (h : Reads (after.dropWhile isSpace) ts rest) : Reads (c :: after) (.keyword k :: ts) rest := by
  have hc : isWordChar c = false := by
    revert hk
    fun_cases single? c <;> rintro ⟨⟩ <;> rfl
  have hreserved : reserved? [[c]] = some k := (single?_eq hc).symm.trans hk
  have hscan : scan ([c] ++ after) = ⟨.keyword k, [c], after⟩ := by
    apply scan_symbol (isSymbol_of_reserved? hreserved hc) hreserved
    intro d _
    exact (pair?_eq hc).symm.trans (hpair d)
  exact Reads.head_of_scan (by simp) hscan h

theorem reads_keyword (hopens : k.opens = false) (hafter : Spaced after)
    (h : Reads (after.dropWhile isSpace) ts rest) :
    Reads ((Token.keyword k).spelling ++ after) (.keyword k :: ts) rest :=
  Reads.head_of_scan (spelled_keyword k).spelling_ne_nil
    ((spelled_keyword k).scan_append hafter (shuts_keyword hopens _)) h

/-- A name is read before what ends no phrase. -/
theorem reads_name (hname : PlainName name) (hafter : WordBreak after)
    (hnext : closesPhrase (nextWord after) = false) (h : Reads (after.dropWhile isSpace) ts rest) :
    Reads (name.toList ++ after) (.word name :: ts) rest := by
  have hword := isWord_of_isIdentifier hname.identifier
  have hscan := scan_plain hword hafter (reserved?_eq_none_of_closesPhrase hnext) hname.unreserved
  rw [String.ofList_toList] at hscan
  exact Reads.head_of_scan hword.1 hscan h

end Tokens

/-! ## The heading of a view -/

def columnsText (columns : List String) : String :=
  if columns = [] then "" else " (" ++ ", ".intercalate columns ++ ")"

/-- The beginning of a view, up to its query: `CREATE VIEW v (a, b) AS `. -/
def viewHeading (view : String) (columns : List String) : String :=
  "CREATE VIEW " ++ view ++ columnsText columns ++ " AS "

section Heading

variable {view : String} {columns names : List String}

/-- Names with commas between them are read up to the closing bracket. -/
theorem reads_names (hne : names ≠ []) (hnames : ∀ name ∈ names, PlainName name)
    (after : List Char) :
    Reads ((", ".intercalate names).toList ++ ')' :: after) (namesTokens names) (')' :: after) := by
  induction names with
  | nil => exact absurd rfl hne
  | cons name names ih =>
      have hname := hnames name (by simp)
      cases names with
      | nil =>
          rw [String.intercalate_singleton]
          exact reads_name hname rfl closesPhrase_nil (.refl _)
      | cons next names =>
          have hrest := ih (by simp) fun name h => hnames name (List.mem_cons_of_mem _ h)
          have hnext : (Token.word next).Readable :=
            (spelled_of_plainName (hnames next (by simp))).readable
          have hcomma : Reads
              (',' :: ' ' :: ((", ".intercalate (next :: names)).toList ++ ')' :: after))
              (.keyword .comma :: namesTokens (next :: names)) (')' :: after) :=
            reads_delimiter rfl (fun _ => rfl) (hrest.skip hnext)
          rw [String.intercalate_cons_cons, String.toList_append, String.toList_append,
            List.append_assoc, List.append_assoc]
          exact reads_name hname rfl closesPhrase_nil hcomma

/-- What follows the name of a view: its columns and the word before its query. -/
theorem toList_columnsText (columns : List String) (query : List Char) :
    (columnsText columns ++ " AS ").toList ++ query =
      ' ' :: if columns = [] then "AS".toList ++ ' ' :: query
        else '(' :: ((", ".intercalate columns).toList ++
          ')' :: ' ' :: ("AS".toList ++ ' ' :: query)) := by
  unfold columnsText
  split <;> simp [String.toList_append]

theorem reads_columns (hcolumns : ∀ name ∈ columns, PlainName name) (query : List Char) :
    Reads (((columnsText columns ++ " AS ").toList ++ query).dropWhile isSpace)
      (columnsTokens columns ++ [.keyword .as]) (query.dropWhile isSpace) := by
  have has : Reads ("AS".toList ++ ' ' :: query) [.keyword .as] (query.dropWhile isSpace) :=
    reads_keyword (k := .as) rfl (spaced_blank query) (.refl _)
  rw [toList_columnsText]
  unfold columnsTokens
  split
  · exact has.skip trivial
  next hne =>
    have hclose : Reads (')' :: ' ' :: ("AS".toList ++ ' ' :: query))
        [.keyword .rightParen, .keyword .as] (query.dropWhile isSpace) :=
      reads_delimiter rfl (fun _ => rfl) (has.skip trivial)
    have hlist := (reads_names hne hcolumns _).append hclose
    have htokens : bracketed (namesTokens columns) ++ [.keyword .as] =
        .keyword .leftParen :: (namesTokens columns ++ [.keyword .rightParen, .keyword .as]) := by
      simp [bracketed]
    rw [htokens]
    obtain ⟨name, names, rfl⟩ := List.exists_cons_of_ne_nil hne
    have hname : (Token.word name).Readable :=
      (spelled_of_plainName (hcolumns name (by simp))).readable
    have hopen := reads_delimiter (c := '(') rfl (fun _ => rfl) (hlist.skip hname)
    exact hopen.skip trivial

/-- The heading is read before any text as the tokens of a view up to its query. -/
theorem reads_viewHeading (hview : PlainName view) (hcolumns : ∀ name ∈ columns, PlainName name)
    (query : List Char) :
    Reads ((viewHeading view columns).toList ++ query) (viewTokens view columns)
      (query.dropWhile isSpace) := by
  have hword : Reads (view.toList ++ ((columnsText columns ++ " AS ").toList ++ query))
      (.word view :: (columnsTokens columns ++ [.keyword .as])) (query.dropWhile isSpace) := by
    refine reads_name hview ?_ ?_ (reads_columns hcolumns query)
    · rw [toList_columnsText]
      exact (spaced_blank _).wordBreak
    · rw [toList_columnsText]
      split
      · have hnext : nextWord (' ' :: ("AS".toList ++ ' ' :: query)) = "AS".toList := rfl
        rw [hnext]
        decide
      · exact closesPhrase_nil
  have hreadable : (Token.word view).Readable := (spelled_of_plainName hview).readable
  have hcreate : Reads ("CREATE VIEW".toList ++
        ' ' :: (view.toList ++ ((columnsText columns ++ " AS ").toList ++ query)))
      (viewTokens view columns) (query.dropWhile isSpace) :=
    reads_keyword (k := .createView) rfl (spaced_blank _) (hword.skip hreadable)
  have htext : (viewHeading view columns).toList ++ query = "CREATE VIEW".toList ++
      ' ' :: (view.toList ++ ((columnsText columns ++ " AS ").toList ++ query)) := by
    simp [viewHeading, String.toList_append]
  rwa [htext]

end Heading

/-! ## The text of a selection -/

section Selection

variable {settings : Settings} {x : String} {s : Statement}

/-- A selection stands in its text from the first token to the last, and nothing
can be cut off the end of the last one. -/
theorem firm_of_select (hs : parseOne settings x = .ok s) (hkind : s.kind = .select) :
    Firm ((cursorText settings x).dropWhile isSpace) := by
  obtain ⟨-, ts, q, hsteps, hend, hfinish⟩ := Parser.parse_eq_ok_iff.mp hs
  obtain ⟨haccepting, -, rfl⟩ := Parser.finish_eq_ok_iff.mp hfinish
  have hlive : q.Live := by
    intro _ hdone
    have hadmitted := (hsteps.sound (Parser.sound_ofText settings x)).1.admitted.kind
    rw [hdone, hkind] at hadmitted
    simp [State.kinds] at hadmitted
  have hne : ts ≠ [] := by
    rintro rfl
    cases hsteps
    cases haccepting
  have hnil : q.cursor.rest = [] := by simpa [Cursor.atEnd] using hend
  obtain ⟨core, gap, -, hrest, hgap, hfirm, -⟩ :=
    (hsteps.reads hlive).transplant hne hsteps.readable
  rw [hnil, List.append_nil, Parser.ofText_rest] at hrest
  -- white space behind the last token was trimmed off before reading
  have htrimmed := trimEnd_dropWhile isSpace (trimEnd_trimEnd (statementText settings x.toList))
  rw [← cursorText, hrest] at htrimmed
  rwa [hrest, eq_nil_of_trimEnd hgap (trimEnd_of_suffix htrimmed), List.append_nil]

theorem scan_of_select (hs : parseOne settings x = .ok s) (hkind : s.kind = .select) :
    (scan ((cursorText settings x).dropWhile isSpace)).token = .keyword .select := by
  obtain ⟨k, ts, hopening, htokens⟩ := Parser.exists_tokensLeft hs
  obtain rfl : Keyword.select = k := by
    rw [hkind] at hopening
    exact Option.some.inj hopening
  cases hend : (Parser.ofText settings x).cursor.atEnd with
  | true => simp [Parser.tokensLeft_of_atEnd hend] at htokens
  | false =>
      rw [Parser.tokensLeft_of_not_atEnd hend] at htokens
      exact (List.cons.inj htokens).1

/-- White space before a selection does not belong to it. -/
theorem parseOne_trimmed (hlimit : settings.maxInputLength = 0) (hs : parseOne settings x = .ok s)
    (hkind : s.kind = .select) :
    parseOne settings (String.ofList ((cursorText settings x).dropWhile isSpace)) = .ok s := by
  have hnil : ∀ c ∈ ([] : List Char), isBlank c = true := by simp
  have hspace : ∀ c ∈ (cursorText settings x).takeWhile isSpace, isSpace c = true :=
    List.all_eq_true.mp List.all_takeWhile
  have hquery := cursorText_of_firm settings (firm_of_select hs hkind) hnil
  rw [List.append_nil] at hquery
  have hcut : cursorText settings x = (cursorText settings x).takeWhile isSpace ++
      cursorText settings (String.ofList ((cursorText settings x).dropWhile isSpace)) := by
    rw [hquery, List.takeWhile_append_dropWhile]
  have hmoved := parseOne_of_cursorText (.inl hlimit) (.inl hlimit) hspace hcut
  rw [hs] at hmoved
  cases hresult : parseOne settings (String.ofList ((cursorText settings x).dropWhile isSpace)) with
  | ok s' =>
      rw [hresult] at hmoved
      exact hmoved.symm
  | error e =>
      rw [hresult] at hmoved
      cases hmoved

end Selection

/-- A view keeps the meaning of its query: a selection behind the heading of a
view is read as that view, and the query of the view is read as that selection. -/
theorem parseOne_view_of_select {settings : Settings} {x view : String} {columns : List String}
    {s : Statement} (hlimit : settings.maxInputLength = 0) (hs : parseOne settings x = .ok s)
    (hkind : s.kind = .select) (hview : PlainName view)
    (hcolumns : ∀ name ∈ columns, PlainName name) :
    ∃ query,
      parseOne settings (viewHeading view columns ++ x) =
          .ok { kind := .createView, tables := [view], fields := columns,
                viewSelect := some query } ∧
        parseOne settings query = .ok s := by
  refine ⟨_, ?_, parseOne_trimmed hlimit hs hkind⟩
  have hne : cursorText settings x ≠ [] := by
    intro hnil
    have hfirm := firm_of_select hs hkind
    rw [hnil] at hfirm
    exact hfirm.ne_nil rfl
  apply Statement.parseOne_createView hlimit hview hcolumns (scan_of_select hs hkind)
  rw [Parser.ofText_rest, cursorText_append _ hne]
  exact (reads_viewHeading hview hcolumns _).skip trivial

/-- The selection has white space around it and a semicolon behind it. -/
theorem parseOne_view_of_select_columns :
    parseOne { maxInputLength := 0 } "\tselect a, b\nfrom t ; " =
        .ok { kind := .select, tables := ["t"], fields := ["a", "b"] } ∧
      ∃ query,
        parseOne { maxInputLength := 0 }
            (viewHeading "v" ["p", "q"] ++ "\tselect a, b\nfrom t ; ") =
          .ok { kind := .createView, tables := ["v"], fields := ["p", "q"],
                viewSelect := some query } ∧
        parseOne { maxInputLength := 0 } query =
          .ok { kind := .select, tables := ["t"], fields := ["a", "b"] } := by
  have hs : parseOne { maxInputLength := 0 } "\tselect a, b\nfrom t ; " =
      .ok { kind := .select, tables := ["t"], fields := ["a", "b"] } := by
    decide +kernel
  have hview : PlainName "v" := ⟨by decide, by decide +kernel⟩
  have hcolumns : ∀ name ∈ ["p", "q"], PlainName name := by
    intro name hname
    have hplain : ∀ name ∈ ["p", "q"],
        isIdentifier name = true ∧ reserved? [name.toList] = none := by
      decide +kernel
    exact ⟨(hplain name hname).1, (hplain name hname).2⟩
  exact ⟨hs, parseOne_view_of_select rfl hs rfl hview hcolumns⟩

end SqlReader
