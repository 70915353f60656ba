import Mathlib.Computability.Language
import Mathlib.Order.CompletePartialOrder
import SqlReader.Lexicon.Token
import SqlReader.Statement.Basic

/-!
# Sentences

The grammar of statements as a language over tokens, written without any states.
Brackets, repetitions and choices are those of regular languages; two things
are not regular: the rows of an insertion are as long as its list of columns,
and the constraints of a table name columns that are defined before them.
-/

namespace SqlReader

namespace Sentence

open scoped Computability

/-! ## Single tokens -/

def one (P : Token → Prop) : Language Token := {w | ∃ t, P t ∧ w = [t]}

def kw (k : Keyword) : Language Token := one (· = .keyword k)

def anyOf (ks : List Keyword) : Language Token := one fun t => ∃ k ∈ ks, t = .keyword k

def IsName (t : Token) : Prop := ∃ s, t = .word s ∧ isIdentifier s = true

def IsValue (t : Token) : Prop :=
  (∃ s, t = .literal s) ∨ ∃ s, t = .word s ∧ s.toList.all isWordChar = true

def name : Language Token := one IsName

def value : Language Token := one IsValue

def nameIn (names : List String) : Language Token := one fun t => ∃ s ∈ names, t = .word s

/-! ## Repetition -/

def maybe (A : Language Token) : Language Token := 1 + A

def parens (A : Language Token) : Language Token := kw .leftParen * A * kw .rightParen

def listOf (item : Language Token) : Language Token := item * (kw .comma * item)∗

def listOfSucc (item : Language Token) (n : Nat) : Language Token :=
  item * (kw .comma * item) ^ n

/-- Conditions linked by `AND` and `OR`; the first may have another form. -/
def chain (first condition : Language Token) : Language Token :=
  first * (anyOf [.and, .or] * condition)∗

/-! ## Conditions -/

def comparisons : List Keyword :=
  [.equal, .notEqual, .greater, .less, .greaterEqual, .lessEqual, .like, .notLike]

def checkOperation : Language Token :=
  anyOf comparisons * value + anyOf [.inList, .notInList] * parens (listOf value)

def operation : Language Token :=
  checkOperation + anyOf [.between, .notBetween] * value * kw .and * value

def condition : Language Token := name * operation

def checkCondition : Language Token := name * checkOperation

def filter : Language Token := kw .whereClause * chain condition condition

/-! ## Queries and changes -/

def sorted : Language Token := name * maybe (anyOf [.asc, .desc])

def ordering : Language Token := kw .orderBy * listOf sorted

def selected : Language Token := name + one (· = .word "*")

def select : Language Token :=
  kw .select * listOf selected * kw .fromClause * listOf name * maybe filter * maybe ordering

/-- An insertion into `n + 1` columns. -/
def insertInto (n : Nat) : Language Token :=
  kw .insertInto * name * parens (listOfSucc name n) * kw .values *
    listOf (parens (listOfSucc value n))

def insert : Language Token := ⨆ n, insertInto n

def assignment : Language Token := name * kw .equal * value

def update : Language Token := kw .update * name * kw .set * listOf assignment * filter

def delete : Language Token := kw .deleteFrom * name * filter

/-! ## Tables -/

def typeName : Language Token := one fun t => ∃ s, t = .word s ∧ DataType.ofName s ≠ .unknown

def typeLength : Language Token :=
  one fun t => ∃ s n, t = .word s ∧ Text.unsigned? s = some n ∧ n < 2 ^ 32

def target : Language Token := kw .references * name * parens name

def columnConstraint : Language Token :=
  anyOf [.notNull, .unique, .primaryKey] + kw .default * value +
    kw .check * parens (chain checkCondition checkCondition) + target

def columnType : Language Token :=
  typeName * maybe (parens typeLength) * columnConstraint∗

/-- A constraint of the table, when columns of these names are defined. -/
def tableConstraint (names : List String) : Language Token :=
  kw .primaryKey * parens (listOf (nameIn names)) +
    kw .foreignKey * parens (nameIn names) * target +
    kw .check * parens (chain (nameIn names * checkOperation) checkCondition)

/-- What follows an element of a table when columns of these names are defined. -/
inductive Elements : List String → List Token → Prop
  | close {names : List String} : Elements names [.keyword .rightParen]
  | column {names : List String} {s : String} {definition rest : List Token}
      (hs : isIdentifier s = true) (hdefinition : definition ∈ columnType)
      (hrest : Elements (names ++ [s]) rest) :
      Elements names (.keyword .comma :: .word s :: (definition ++ rest))
  | constraint {names : List String} {clause rest : List Token}
      (hclause : clause ∈ tableConstraint names) (hrest : Elements names rest) :
      Elements names (.keyword .comma :: (clause ++ rest))

def elements (names : List String) : Language Token := {w | Elements names w}

def fromColumn (names : List String) : Language Token :=
  ⨆ s, one (fun t => t = .word s ∧ isIdentifier s = true) * columnType * elements (names ++ [s])

def createTable : Language Token :=
  kw .createTable * name * kw .leftParen * fromColumn []

/-! ## Views, indexes, users and privileges -/

/-- A view.  Its query is kept as text, so anything may follow `SELECT`. -/
def createView : Language Token :=
  kw .createView * name * maybe (parens (listOf name)) * kw .as * kw .select * ⊤

def createIndex : Language Token :=
  kw .createIndex * name * kw .on * name * parens (listOf sorted)

def createUser : Language Token := kw .createUser * name * kw .identifiedBy * value

def privilege : Language Token :=
  anyOf [.select, .insert, .update, .delete, .allPrivileges] * maybe (parens (listOf name))

def privileges : Language Token :=
  listOf privilege * anyOf [.onTable, .on] * listOf name

def grant : Language Token := kw .grant * privileges * kw .toClause * listOf name

def revoke : Language Token := kw .revoke * privileges * kw .fromClause * listOf name

/-! ## Membership by the first token -/

section Membership

variable {A B C : Language Token} {P : Token → Prop} {k : Keyword} {ks : List Keyword}
  {t : Token} {ts w : List Token}

theorem keyword?_eq_some_iff : t.keyword? = some k ↔ t = .keyword k := by
  cases t <;> simp [Token.keyword?]

theorem isName_iff : IsName t ↔ ∃ s, t.identifier? = some s := by
  cases t <;> simp [IsName, Token.identifier?]

theorem isValue_iff : IsValue t ↔ ∃ s, t.value? = some s := by
  cases t <;> simp [IsValue, Token.value?]

theorem cons_mem_one_mul : t :: ts ∈ one P * A ↔ P t ∧ ts ∈ A := by
  rw [Language.mem_mul]
  constructor
  · rintro ⟨_, ⟨u, hu, rfl⟩, b, hb, heq⟩
    obtain ⟨rfl, rfl⟩ := List.cons.inj heq
    exact ⟨hu, hb⟩
  · rintro ⟨ht, hts⟩
    exact ⟨[t], ⟨t, ht, rfl⟩, ts, hts, rfl⟩

@[simp] theorem cons_mem_kw_mul : t :: ts ∈ kw k * A ↔ t.keyword? = some k ∧ ts ∈ A := by
  rw [kw, cons_mem_one_mul, keyword?_eq_some_iff]

@[simp] theorem cons_mem_anyOf_mul :
    t :: ts ∈ anyOf ks * A ↔ (∃ k ∈ ks, t.keyword? = some k) ∧ ts ∈ A := by
  simp only [anyOf, cons_mem_one_mul, keyword?_eq_some_iff]

@[simp] theorem cons_mem_name_mul :
    t :: ts ∈ name * A ↔ (∃ s, t.identifier? = some s) ∧ ts ∈ A := by
  rw [name, cons_mem_one_mul, isName_iff]

@[simp] theorem cons_mem_value_mul :
    t :: ts ∈ value * A ↔ (∃ s, t.value? = some s) ∧ ts ∈ A := by
  rw [value, cons_mem_one_mul, isValue_iff]

/-- A word alone is a word before nothing. -/
theorem mem_iff_mem_mul_one : w ∈ A ↔ w ∈ A * 1 := by
  rw [mul_one]

@[simp] theorem cons_mem_kw : t :: ts ∈ kw k ↔ t.keyword? = some k ∧ ts ∈ (1 : Language Token) := by
  rw [mem_iff_mem_mul_one, cons_mem_kw_mul]

@[simp] theorem cons_mem_value :
    t :: ts ∈ value ↔ (∃ s, t.value? = some s) ∧ ts ∈ (1 : Language Token) := by
  rw [mem_iff_mem_mul_one, cons_mem_value_mul]

theorem mem_kstar_mul : w ∈ A∗ * C ↔ w ∈ C ∨ w ∈ A * (A∗ * C) := by
  rw [← Language.mem_add]
  nth_rewrite 1 [← Language.one_add_self_mul_kstar_eq_kstar]
  rw [add_mul, one_mul, mul_assoc]

theorem mem_kstar : w ∈ A∗ ↔ w ∈ (1 : Language Token) ∨ w ∈ A * A∗ := by
  rw [← Language.mem_add, Language.one_add_self_mul_kstar_eq_kstar]

/-- The first token of a repetition begins an item or what follows. -/
@[simp] theorem cons_mem_kstar_mul : t :: ts ∈ A∗ * C ↔ t :: ts ∈ C ∨ t :: ts ∈ A * (A∗ * C) :=
  mem_kstar_mul

@[simp] theorem cons_mem_kstar : t :: ts ∈ A∗ ↔ t :: ts ∈ A * A∗ := by
  rw [mem_kstar, Language.mem_one]
  simp only [reduceCtorEq, false_or]

@[simp] theorem mem_maybe_mul : w ∈ maybe A * C ↔ w ∈ C ∨ w ∈ A * C := by
  rw [maybe, add_mul, one_mul, Language.mem_add]

@[simp] theorem mem_maybe : w ∈ maybe A ↔ w ∈ (1 : Language Token) ∨ w ∈ A := by
  rw [maybe, Language.mem_add]

@[simp] theorem mem_add_mul : w ∈ (A + B) * C ↔ w ∈ A * C ∨ w ∈ B * C := by
  rw [add_mul, Language.mem_add]

@[simp] theorem cons_mem_parens_mul :
    t :: ts ∈ parens B * A ↔ t.keyword? = some .leftParen ∧ ts ∈ B * (kw .rightParen * A) := by
  rw [parens, mul_assoc, mul_assoc, cons_mem_kw_mul]

@[simp] theorem cons_mem_checkOperation_mul :
    t :: ts ∈ checkOperation * A ↔
      (∃ k ∈ comparisons, t.keyword? = some k) ∧ ts ∈ value * A ∨
        (∃ k ∈ [.inList, .notInList], t.keyword? = some k) ∧
          ts ∈ parens (listOf value) * A := by
  rw [checkOperation, mem_add_mul, mul_assoc, mul_assoc, cons_mem_anyOf_mul, cons_mem_anyOf_mul]

@[simp] theorem cons_mem_operation_mul :
    t :: ts ∈ operation * A ↔
      t :: ts ∈ checkOperation * A ∨
        (∃ k ∈ [.between, .notBetween], t.keyword? = some k) ∧
          ts ∈ value * (kw .and * (value * A)) := by
  rw [operation, mem_add_mul, mul_assoc, mul_assoc, mul_assoc, cons_mem_anyOf_mul]

@[simp] theorem cons_mem_condition_mul :
    t :: ts ∈ condition * A ↔ (∃ s, t.identifier? = some s) ∧ ts ∈ operation * A := by
  rw [condition, mul_assoc, cons_mem_name_mul]

@[simp] theorem cons_mem_filter_mul :
    t :: ts ∈ filter * A ↔
      t.keyword? = some .whereClause ∧ ts ∈ chain condition condition * A := by
  rw [filter, mul_assoc, cons_mem_kw_mul]

@[simp] theorem cons_mem_filter :
    t :: ts ∈ filter ↔ t.keyword? = some .whereClause ∧ ts ∈ chain condition condition := by
  rw [filter, cons_mem_kw_mul]

@[simp] theorem cons_mem_sorted_mul :
    t :: ts ∈ sorted * A ↔
      (∃ s, t.identifier? = some s) ∧ ts ∈ maybe (anyOf [.asc, .desc]) * A := by
  rw [sorted, mul_assoc, cons_mem_name_mul]

@[simp] theorem cons_mem_ordering :
    t :: ts ∈ ordering ↔ t.keyword? = some .orderBy ∧ ts ∈ listOf sorted := by
  rw [ordering, cons_mem_kw_mul]

@[simp] theorem cons_mem_selected_mul :
    t :: ts ∈ selected * A ↔ ((∃ s, t.identifier? = some s) ∨ t = .word "*") ∧ ts ∈ A := by
  rw [selected, mem_add_mul, cons_mem_name_mul, cons_mem_one_mul, or_and_right]

@[simp] theorem cons_mem_assignment_mul :
    t :: ts ∈ assignment * A ↔ (∃ s, t.identifier? = some s) ∧ ts ∈ kw .equal * (value * A) := by
  rw [assignment, mul_assoc, mul_assoc, cons_mem_name_mul]

@[simp] theorem cons_mem_target_mul :
    t :: ts ∈ target * A ↔ t.keyword? = some .references ∧ ts ∈ name * (parens name * A) := by
  rw [target, mul_assoc, mul_assoc, cons_mem_kw_mul]

@[simp] theorem cons_mem_columnConstraint_mul :
    t :: ts ∈ columnConstraint * A ↔
      (∃ k ∈ [.notNull, .unique, .primaryKey], t.keyword? = some k) ∧ ts ∈ A ∨
        t.keyword? = some .default ∧ ts ∈ value * A ∨
        t.keyword? = some .check ∧ ts ∈ parens (chain checkCondition checkCondition) * A ∨
        t.keyword? = some .references ∧ ts ∈ name * (parens name * A) := by
  rw [columnConstraint, mem_add_mul, mem_add_mul, mem_add_mul, mul_assoc, mul_assoc,
    cons_mem_anyOf_mul, cons_mem_kw_mul, cons_mem_kw_mul, cons_mem_target_mul, or_assoc, or_assoc]

@[simp] theorem cons_mem_tableConstraint_mul {names : List String} :
    t :: ts ∈ tableConstraint names * A ↔
      t.keyword? = some .primaryKey ∧ ts ∈ parens (listOf (nameIn names)) * A ∨
        t.keyword? = some .foreignKey ∧ ts ∈ parens (nameIn names) * (target * A) ∨
        t.keyword? = some .check ∧
          ts ∈ parens (chain (nameIn names * checkOperation) checkCondition) * A := by
  rw [tableConstraint, mem_add_mul, mem_add_mul, mul_assoc, mul_assoc, mul_assoc, mul_assoc,
    cons_mem_kw_mul, cons_mem_kw_mul, cons_mem_kw_mul, or_assoc]

@[simp] theorem cons_mem_privilege_mul :
    t :: ts ∈ privilege * A ↔
      (∃ k ∈ [.select, .insert, .update, .delete, .allPrivileges], t.keyword? = some k) ∧
        ts ∈ maybe (parens (listOf name)) * A := by
  rw [privilege, mul_assoc, cons_mem_anyOf_mul]

end Membership

end Sentence

/-- The sentences of the statement language. -/
def sentence : Language Token :=
  Sentence.select + Sentence.insert + Sentence.update + Sentence.delete + Sentence.createTable +
    Sentence.createView + Sentence.createIndex + Sentence.createUser + Sentence.grant +
    Sentence.revoke

end SqlReader
