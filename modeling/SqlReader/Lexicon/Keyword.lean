/-!
# Reserved words

The keywords, phrases, operators and delimiters of the statement language.
-/

namespace SqlReader

inductive Keyword
  | leftParen | rightParen | greaterEqual | lessEqual | notEqual | comma | equal | greater | less
  | select | insertInto | insert | values | update | set | deleteFrom | delete
  | whereClause | fromClause | groupBy | orderBy | having | asc | desc
  | createTable | createView | createIndex | createUser | as | on | check
  | notNull | unique | primaryKey | foreignKey | references | default
  | and | or | inList | notInList | like | notLike | between | notBetween
  | identifiedBy | onTable | toClause | grant | revoke | allPrivileges
  deriving DecidableEq

namespace Keyword

/-- The spelling that messages use. -/
def spelling : Keyword → String
  | leftParen => "("
  | rightParen => ")"
  | greaterEqual => ">="
  | lessEqual => "<="
  | notEqual => "!="
  | comma => ","
  | equal => "="
  | greater => ">"
  | less => "<"
  | select => "SELECT"
  | insertInto => "INSERT INTO"
  | insert => "INSERT"
  | values => "VALUES"
  | update => "UPDATE"
  | set => "SET"
  | deleteFrom => "DELETE FROM"
  | delete => "DELETE"
  | whereClause => "WHERE"
  | fromClause => "FROM"
  | groupBy => "GROUP BY"
  | orderBy => "ORDER BY"
  | having => "HAVING"
  | asc => "ASC"
  | desc => "DESC"
  | createTable => "CREATE TABLE"
  | createView => "CREATE VIEW"
  | createIndex => "CREATE INDEX"
  | createUser => "CREATE USER"
  | as => "AS"
  | on => "ON"
  | check => "CHECK"
  | notNull => "NOT NULL"
  | unique => "UNIQUE"
  | primaryKey => "PRIMARY KEY"
  | foreignKey => "FOREIGN KEY"
  | references => "REFERENCES"
  | default => "DEFAULT"
  | and => "AND"
  | or => "OR"
  | inList => "IN"
  | notInList => "NOT IN"
  | like => "LIKE"
  | notLike => "NOT LIKE"
  | between => "BETWEEN"
  | notBetween => "NOT BETWEEN"
  | identifiedBy => "IDENTIFIED BY"
  | onTable => "ON TABLE"
  | toClause => "TO"
  | grant => "GRANT"
  | revoke => "REVOKE"
  | allPrivileges => "ALL PRIVILEGES"

/-- The name under which listings show a keyword. -/
def name : Keyword → String
  | leftParen => "LeftParen"
  | rightParen => "RightParen"
  | greaterEqual => "GreaterEqual"
  | lessEqual => "LessEqual"
  | notEqual => "NotEqual"
  | comma => "Comma"
  | equal => "Equal"
  | greater => "Greater"
  | less => "Less"
  | select => "Select"
  | insertInto => "InsertInto"
  | insert => "Insert"
  | values => "Values"
  | update => "Update"
  | set => "Set"
  | deleteFrom => "DeleteFrom"
  | delete => "Delete"
  | whereClause => "Where"
  | fromClause => "From"
  | groupBy => "GroupBy"
  | orderBy => "OrderBy"
  | having => "Having"
  | asc => "Asc"
  | desc => "Desc"
  | createTable => "CreateTable"
  | createView => "CreateView"
  | createIndex => "CreateIndex"
  | createUser => "CreateUser"
  | as => "As"
  | on => "On"
  | check => "Check"
  | notNull => "NotNull"
  | unique => "Unique"
  | primaryKey => "PrimaryKey"
  | foreignKey => "ForeignKey"
  | references => "References"
  | default => "Default"
  | and => "And"
  | or => "Or"
  | inList => "In"
  | notInList => "NotIn"
  | like => "Like"
  | notLike => "NotLike"
  | between => "Between"
  | notBetween => "NotBetween"
  | identifiedBy => "IdentifiedBy"
  | onTable => "OnTable"
  | toClause => "To"
  | grant => "Grant"
  | revoke => "Revoke"
  | allPrivileges => "AllPrivileges"

end Keyword

end SqlReader
