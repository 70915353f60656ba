import SqlReader.Proofs.Writing.Clause

/-!
# Table definitions

The tree of a table definition: its elements, their clauses and the conditions
of their checks, with the tokens that spell them.  A definition means a list of
columns, which its elements build up one after the other: a column is added at
the end, and a clause that stands by itself changes columns that are there.
-/

namespace SqlReader

namespace Definition

/-! ## Names, values and conditions -/

structure Name where
  text : String
  identifier : isIdentifier text = true

def Name.token (n : Name) : Token := .word n.text

structure Value where
  token : Token
  text : String
  spells : token.value? = some text

/-- What a check says of its column. -/
inductive Test
  | compare (op : Operator) (comparison : op.isComparison = true) (right : Value)
  | like (negated : Bool) (pattern : Value)
  | inList (negated : Bool) (first : Value) (others : List Value)

namespace Test

def predicate : Test → Predicate
  | compare op _ right => .compare op (.literal right.text)
  | like negated pattern => .like negated pattern.text
  | inList negated first others => .inList negated ((first :: others).map (·.text))

def operands : Test → List Token
  | compare _ _ right => [right.token]
  | like _ pattern => [pattern.token]
  | inList _ first others => bracketed (commaList (fun v => [v.token]) (first :: others))

def tokens (t : Test) : List Token := .keyword t.predicate.operator.keyword :: t.operands

end Test

structure Term where
  column : Name
  test : Test

namespace Term

def condition (t : Term) : Condition := ⟨.field t.column.text, some t.test.predicate⟩

def tokens (t : Term) : List Token := t.column.token :: t.test.tokens

end Term

structure Chain where
  first : Term
  links : List (Connective × Term)

namespace Chain

def conditions (c : Chain) : List Condition :=
  c.first.condition :: c.links.map (·.2.condition)

def connectives (c : Chain) : List Connective := c.links.map (·.1)

def linkTokens (link : Connective × Term) : List Token :=
  .keyword link.1.keyword :: link.2.tokens

def tokens (c : Chain) : List Token := c.first.tokens ++ c.links.flatMap linkTokens

def clause (c : Chain) : ColumnClause := .check c.conditions c.connectives

end Chain

/-! ## Elements -/

inductive InlineClause
  | notNull
  | unique
  | primaryKey
  | default (value : Value)
  | references (table column : Name)
  | check (chain : Chain)

namespace InlineClause

def clause : InlineClause → ColumnClause
  | notNull => .notNull
  | unique => .unique
  | primaryKey => .primaryKey
  | default value => .default value.text
  | references table column => .references ⟨table.text, column.text⟩
  | check chain => chain.clause

/-- The target of a foreign key. -/
def targetTokens (table column : Name) : List Token :=
  .keyword .references :: table.token :: bracketed [column.token]

def tokens : InlineClause → List Token
  | notNull => [.keyword .notNull]
  | unique => [.keyword .unique]
  | primaryKey => [.keyword .primaryKey]
  | default value => [.keyword .default, value.token]
  | references table column => targetTokens table column
  | check chain => .keyword .check :: bracketed chain.tokens

end InlineClause

structure Length where
  text : String
  size : UInt32
  spells : Draft.columnLength? (.word text) = some size

structure Field where
  name : Name
  type : String
  typed : DataType.ofName type ≠ .unknown
  length : Option Length
  clauses : List InlineClause

namespace Field

def bare (f : Field) : Column :=
  { name := f.name.text, dataType := .ofName f.type, length := f.length.map (·.size) }

def column (f : Field) : Column := (f.clauses.map (·.clause)).foldl ColumnClause.apply f.bare

def lengthTokens : Option Length → List Token
  | none => []
  | some length => bracketed [.word length.text]

def tokens (f : Field) : List Token :=
  [f.name.token] ++ ([.word f.type] ++
    (lengthTokens f.length ++ f.clauses.flatMap InlineClause.tokens))

def add (f : Field) (clause : InlineClause) : Field :=
  { f with clauses := f.clauses ++ [clause] }

end Field

inductive TableClause
  | primaryKey (first : Name) (others : List Name)
  | foreignKey (column table target : Name)
  | check (chain : Chain)

namespace TableClause

/-- The columns that the clause names and what it makes of them, in its order. -/
def marks : TableClause → List (String × ColumnClause)
  | primaryKey first others => (first :: others).map fun name => (name.text, .primaryKey)
  | foreignKey column table target => [(column.text, .references ⟨table.text, target.text⟩)]
  | check chain => [(chain.first.column.text, chain.clause)]

def tokens : TableClause → List Token
  | primaryKey first others =>
    .keyword .primaryKey :: bracketed (commaList (fun name => [name.token]) (first :: others))
  | foreignKey column table target =>
    .keyword .foreignKey :: (bracketed [column.token] ++ InlineClause.targetTokens table target)
  | check chain => .keyword .check :: bracketed chain.tokens

end TableClause

inductive Element
  | field (f : Field)
  | clause (c : TableClause)

/-- Changes the column of that name; of several, the last. -/
def mark (columns : List Column) (m : String × ColumnClause) : Option (List Column) :=
  (lastIdx? (·.name == m.1) columns).map fun i => columns.modify i fun c => m.2.apply c

namespace Element

def isField : Element → Bool
  | field _ => true
  | clause _ => false

def tokens : Element → List Token
  | field f => f.tokens
  | clause c => c.tokens

/-- The columns after the element, if those that it names are there. -/
def build (columns : List Column) : Element → Option (List Column)
  | field f => some (columns ++ [f.column])
  | clause c => c.marks.foldlM mark columns

def names : Element → List String
  | field f => [f.name.text]
  | clause c => c.marks.map (·.1)

end Element

end Definition

structure Definition where
  table : Definition.Name
  elements : List Definition.Element
  begins : elements.head?.any Definition.Element.isField = true

namespace Definition

def tokens (d : Definition) : List Token :=
  [.keyword .createTable] ++ ([d.table.token] ++ bracketed (commaList Element.tokens d.elements))

/-- The first element is a column. -/
theorem exists_field (d : Definition) : ∃ f others, d.elements = .field f :: others := by
  have hbegins := d.begins
  cases hall : d.elements with
  | nil => simp [hall] at hbegins
  | cons e others =>
      cases e with
      | field f => exact ⟨f, others, rfl⟩
      | clause c => simp [hall, Element.isField] at hbegins

/-- The columns of the table, if every clause names columns before it. -/
def columns? (d : Definition) : Option (List Column) := d.elements.foldlM Element.build []

end Definition

end SqlReader
