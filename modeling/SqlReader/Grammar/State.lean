/-!
# States of the statement grammar

Every state says what may come next.  The states are grouped by the part of a
statement that they read, and a statement may end only in an accepting state.
-/

namespace SqlReader

inductive SelectPlace
  | field | commaOrFrom | table | commaOrClause
  deriving DecidableEq

inductive OrderPlace
  | field | directionOrComma | comma
  deriving DecidableEq

inductive InsertPlace
  | table | fieldsOpen | field | fieldsNext | valuesKeyword | valuesOpen | value | valuesNext
  | rowComma
  deriving DecidableEq

inductive UpdatePlace
  | table | set | field | equal | value | commaOrWhere
  deriving DecidableEq

inductive DeletePlace
  | table | whereKeyword
  deriving DecidableEq

inductive FilterPlace
  | field | operator | value | betweenLow | betweenAnd | betweenHigh
  | listOpen | listValue | listNext | conjunction
  deriving DecidableEq

inductive TablePlace
  | name | opening | field | fieldType | typeSuffix | fieldLength | lengthClose | columnTail
  | defaultValue | element | constraintEnd
  deriving DecidableEq

inductive CheckPlace
  | opening | field | operator | value | listOpen | listValue | listNext | conjunctionOrClose
  deriving DecidableEq

inductive PrimaryKeyPlace
  | opening | field | next
  deriving DecidableEq

inductive ForeignKeyPlace
  | opening | field | close | references | table | tableOpen | column | columnClose
  deriving DecidableEq

inductive ViewPlace
  | name | columnsOrAs | field | fieldsNext | asKeyword | query
  deriving DecidableEq

inductive IndexPlace
  | name | on | table | opening | field | orderOrNext | next
  deriving DecidableEq

inductive UserPlace
  | name | identifiedBy | password
  deriving DecidableEq

inductive PrivilegePlace
  | action | columnsOrNext | column | columnsNext | commaOrOn | table | tablesNext
  | grantee | granteeComma
  deriving DecidableEq

inductive State
  | beginning
  | select (place : SelectPlace)
  | order (place : OrderPlace)
  | insert (place : InsertPlace)
  | update (place : UpdatePlace)
  | delete (place : DeletePlace)
  | filter (place : FilterPlace)
  | table (place : TablePlace)
  | check (place : CheckPlace)
  | primaryKey (place : PrimaryKeyPlace)
  | foreignKey (place : ForeignKeyPlace)
  | view (place : ViewPlace)
  | index (place : IndexPlace)
  | user (place : UserPlace)
  | privilege (place : PrivilegePlace)
  /-- Only the end of the text may follow. -/
  | done
  deriving DecidableEq

namespace State

def isAccepting : State → Bool
  | select .commaOrClause
  | order .directionOrComma
  | order .comma
  | insert .rowComma
  | update .commaOrWhere
  | delete .whereKeyword
  | filter .conjunction
  | privilege .granteeComma
  | done => true
  | _ => false

def expectation : State → String
  | beginning =>
    "SELECT, INSERT INTO, UPDATE, DELETE FROM, CREATE TABLE, CREATE VIEW, " ++
      "CREATE INDEX, CREATE USER, GRANT or REVOKE"
  | select .field => "a column name or '*'"
  | select .commaOrFrom => "',' or FROM"
  | select .table => "a table name"
  | select .commaOrClause => "',', WHERE, ORDER BY or end of statement"
  | order .field => "a column name to ORDER BY"
  | order .directionOrComma => "ASC, DESC, ',' or end of statement"
  | order .comma => "',' or end of statement"
  | insert .table => "a table name to INSERT INTO"
  | insert .fieldsOpen => "'(' before the column list"
  | insert .field => "a column name to INSERT"
  | insert .fieldsNext => "',' or ')' in the column list"
  | insert .valuesKeyword => "VALUES"
  | insert .valuesOpen => "'(' before the values"
  | insert .value => "a value to INSERT"
  | insert .valuesNext => "',' or ')' in the values"
  | insert .rowComma => "',' before the next row or end of statement"
  | update .table => "a table name to UPDATE"
  | update .set => "SET"
  | update .field => "a column name to UPDATE"
  | update .equal => "'='"
  | update .value => "a value to assign"
  | update .commaOrWhere => "',', WHERE or end of statement"
  | delete .table => "a table name to DELETE FROM"
  | delete .whereKeyword => "WHERE or end of statement"
  | filter .field => "a column name in WHERE"
  | filter .operator =>
    "a comparison operator, LIKE, NOT LIKE, IN, NOT IN, BETWEEN or NOT BETWEEN"
  | filter .value => "a value to compare with"
  | filter .betweenLow => "the lower BETWEEN bound"
  | filter .betweenAnd => "AND between the BETWEEN bounds"
  | filter .betweenHigh => "the upper BETWEEN bound"
  | filter .listOpen => "'(' before the IN list"
  | filter .listValue => "a value in the IN list"
  | filter .listNext => "',' or ')' in the IN list"
  | filter .conjunction => "AND, OR or end of statement"
  | table .name => "a table name to CREATE"
  | table .opening => "'(' before the column definitions"
  | table .field => "a column name"
  | table .fieldType => "a data type (SMALLINT, DOUBLE, DATETIME or VARCHAR)"
  | table .typeSuffix => "a length, a constraint, ',' or ')'"
  | table .fieldLength => "an integer column length"
  | table .lengthClose => "')' after the column length"
  | table .columnTail => "NOT NULL, UNIQUE, PRIMARY KEY, DEFAULT, CHECK, REFERENCES, ',' or ')'"
  | table .defaultValue => "a DEFAULT value"
  | table .element => "a column name, PRIMARY KEY, FOREIGN KEY or CHECK"
  | table .constraintEnd => "',' or ')'"
  | check .opening => "'(' after CHECK"
  | check .field => "a column name in CHECK"
  | check .operator => "a comparison operator, LIKE, NOT LIKE, IN or NOT IN"
  | check .value => "a value to check against"
  | check .listOpen => "'(' before the IN list"
  | check .listValue => "a value in the IN list"
  | check .listNext => "',' or ')' in the IN list"
  | check .conjunctionOrClose => "AND, OR or ')' closing CHECK"
  | primaryKey .opening => "'(' after PRIMARY KEY"
  | primaryKey .field => "a column name in PRIMARY KEY"
  | primaryKey .next => "',' or ')' in PRIMARY KEY"
  | foreignKey .opening => "'(' after FOREIGN KEY"
  | foreignKey .field => "a column name in FOREIGN KEY"
  | foreignKey .close => "')' after the FOREIGN KEY column"
  | foreignKey .references => "REFERENCES"
  | foreignKey .table => "a referenced table name"
  | foreignKey .tableOpen => "'(' before the referenced column"
  | foreignKey .column => "a referenced column name"
  | foreignKey .columnClose => "')' after the referenced column"
  | view .name => "a view name to CREATE"
  | view .columnsOrAs => "'(' or AS"
  | view .field => "a view column name"
  | view .fieldsNext => "',' or ')' in the view columns"
  | view .asKeyword => "AS"
  | view .query => "SELECT"
  | index .name => "an index name to CREATE"
  | index .on => "ON"
  | index .table => "a table name to index"
  | index .opening => "'(' before the index columns"
  | index .field => "a column name to index"
  | index .orderOrNext => "ASC, DESC, ',' or ')'"
  | index .next => "',' or ')' in the index columns"
  | user .name => "a user name to CREATE"
  | user .identifiedBy => "IDENTIFIED BY"
  | user .password => "a password"
  | privilege .action => "SELECT, INSERT, UPDATE, DELETE or ALL PRIVILEGES"
  | privilege .columnsOrNext => "'(', ',' or ON TABLE"
  | privilege .column => "a column name for the privilege"
  | privilege .columnsNext => "',' or ')' in the privilege columns"
  | privilege .commaOrOn => "',' or ON TABLE"
  | privilege .table => "a table name"
  | privilege .tablesNext => "',', TO or FROM"
  | privilege .grantee => "a user name"
  | privilege .granteeComma => "',' or end of statement"
  | done => "end of statement"

/-- The name under which the log shows a state. -/
def name : State → String
  | beginning => "Beginning"
  | select .field => "SelectField"
  | select .commaOrFrom => "SelectCommaOrFrom"
  | select .table => "SelectFromTable"
  | select .commaOrClause => "SelectTableCommaOrClause"
  | order .field => "OrderByField"
  | order .directionOrComma => "OrderByDirectionOrComma"
  | order .comma => "OrderByComma"
  | insert .table => "InsertTable"
  | insert .fieldsOpen => "InsertFieldsOpeningParens"
  | insert .field => "InsertField"
  | insert .fieldsNext => "InsertFieldsCommaOrClosingParens"
  | insert .valuesKeyword => "InsertValuesKeyword"
  | insert .valuesOpen => "InsertValuesOpeningParens"
  | insert .value => "InsertValue"
  | insert .valuesNext => "InsertValuesCommaOrClosingParens"
  | insert .rowComma => "InsertRowComma"
  | update .table => "UpdateTable"
  | update .set => "UpdateSet"
  | update .field => "UpdateField"
  | update .equal => "UpdateEqual"
  | update .value => "UpdateValue"
  | update .commaOrWhere => "UpdateCommaOrWhere"
  | delete .table => "DeleteTable"
  | delete .whereKeyword => "DeleteWhere"
  | filter .field => "WhereField"
  | filter .operator => "WhereOperator"
  | filter .value => "WhereValue"
  | filter .betweenLow => "WhereBetweenLow"
  | filter .betweenAnd => "WhereBetweenAnd"
  | filter .betweenHigh => "WhereBetweenHigh"
  | filter .listOpen => "WhereInOpeningParens"
  | filter .listValue => "WhereInValue"
  | filter .listNext => "WhereInCommaOrClosingParens"
  | filter .conjunction => "WhereConjunction"
  | table .name => "CreateTableName"
  | table .opening => "CreateTableOpeningParens"
  | table .field => "CreateTableField"
  | table .fieldType => "CreateTableFieldType"
  | table .typeSuffix => "CreateTableTypeSuffix"
  | table .fieldLength => "CreateTableFieldLength"
  | table .lengthClose => "CreateTableFieldClosingParens"
  | table .columnTail => "CreateTableColumnTail"
  | table .defaultValue => "CreateTableDefaultValue"
  | table .element => "CreateTableElement"
  | table .constraintEnd => "CreateTableConstraintEnd"
  | check .opening => "CheckOpeningParens"
  | check .field => "CheckField"
  | check .operator => "CheckOperator"
  | check .value => "CheckValue"
  | check .listOpen => "CheckInOpeningParens"
  | check .listValue => "CheckInValue"
  | check .listNext => "CheckInCommaOrClosingParens"
  | check .conjunctionOrClose => "CheckConjunctionOrClosingParens"
  | primaryKey .opening => "PrimaryKeyOpeningParens"
  | primaryKey .field => "PrimaryKeyField"
  | primaryKey .next => "PrimaryKeyCommaOrClosingParens"
  | foreignKey .opening => "ForeignKeyOpeningParens"
  | foreignKey .field => "ForeignKeyField"
  | foreignKey .close => "ForeignKeyClosingParens"
  | foreignKey .references => "ForeignKeyReferences"
  | foreignKey .table => "ForeignKeyReferenceTable"
  | foreignKey .tableOpen => "ForeignKeyReferenceOpeningParens"
  | foreignKey .column => "ForeignKeyReferenceField"
  | foreignKey .columnClose => "ForeignKeyReferenceClosingParens"
  | view .name => "CreateViewName"
  | view .columnsOrAs => "CreateViewColumnsOrAs"
  | view .field => "CreateViewField"
  | view .fieldsNext => "CreateViewCommaOrClosingParens"
  | view .asKeyword => "CreateViewAs"
  | view .query => "CreateViewSelect"
  | index .name => "CreateIndexName"
  | index .on => "CreateIndexOn"
  | index .table => "CreateIndexTable"
  | index .opening => "CreateIndexOpeningParens"
  | index .field => "CreateIndexField"
  | index .orderOrNext => "CreateIndexOrderOrCommaOrClosingParens"
  | index .next => "CreateIndexCommaOrClosingParens"
  | user .name => "CreateUserName"
  | user .identifiedBy => "CreateUserIdentifiedBy"
  | user .password => "CreateUserPassword"
  | privilege .action => "PrivilegeAction"
  | privilege .columnsOrNext => "PrivilegeColumnsOrNext"
  | privilege .column => "PrivilegeColumn"
  | privilege .columnsNext => "PrivilegeColumnCommaOrClosingParens"
  | privilege .commaOrOn => "PrivilegeCommaOrOnTable"
  | privilege .table => "PrivilegeTable"
  | privilege .tablesNext => "PrivilegeTableCommaOrGrantee"
  | privilege .grantee => "Grantee"
  | privilege .granteeComma => "GranteeComma"
  | done => "Done"

end State

end SqlReader
