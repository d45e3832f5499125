import Djogi.Catalog

/-!
# Lowering operations to SQL

The emitters of `migrate/sql.rs`: every operation becomes a pair of scripts, `up` and
`down`, with a warning when the rollback loses something. A script is a list of
statements together with their text.
-/

namespace Djogi

/-! ## Texts -/

def utf8 (s : String) : List UInt8 := s.toUTF8.data.toList

/-- A byte read as a character, as the source's `b as char`. -/
def byteChar (b : UInt8) : Char := Char.ofNat b.toNat

def quoteBytes (quote : Char) (s : String) : String :=
  String.ofList (quote :: (utf8 s).flatMap (fun b =>
    if byteChar b = quote then [quote, quote] else [byteChar b]) ++ [quote])

def quoteIdent (name : String) : String := quoteBytes '"' name

def quoteStringLiteral (value : String) : String := quoteBytes '\'' value

def renderCommentLiteral (s : String) : String :=
  "E'" ++ String.ofList (s.toList.flatMap fun c =>
    if c = '\'' then ['\'', '\''] else if c = '\\' then ['\\', '\\'] else [c]) ++ "'"

def onDeleteSql : OnDeleteSchema → String
  | .restrict => "RESTRICT"
  | .cascade => "CASCADE"
  | .setNull => "SET NULL"
  | .setDefault => "SET DEFAULT"
  | .noAction => "NO ACTION"

def indexMethod : IndexTypeSchema → String
  | .bTree => "btree"
  | .gin => "gin"
  | .gist => "gist"
  | .hash => "hash"
  | .spgist => "spgist"
  | .brin => "brin"

def deferral (deferrable initiallyDeferred : Bool) : Deferral :=
  if !deferrable then .notDeferrable
  else if initiallyDeferred then .initiallyDeferred else .initiallyImmediate

def renderDeferrableClause : Deferral → String
  | .notDeferrable => ""
  | .initiallyDeferred => " DEFERRABLE INITIALLY DEFERRED"
  | .initiallyImmediate => " DEFERRABLE INITIALLY IMMEDIATE"

def commaList (l : List String) : String := ", ".intercalate l

/-- How a module writes identifiers: `sql.rs` quotes them, `pk_flip.rs` does not. -/
structure Style where
  ident : String → String
  /-- Between the referenced table and its column list. -/
  refGap : String

def sqlStyle : Style := ⟨quoteIdent, " "⟩

def flipStyle : Style := ⟨id, ""⟩

section Render

variable (q : Style)

def columnList (cols : List String) : String := "(" ++ commaList (cols.map q.ident) ++ ")"

def renderReferences (refTable refColumn : String) (onDelete : Option OnDeleteSchema)
    (d : Deferral) : String :=
  "REFERENCES " ++ q.ident refTable ++ q.refGap ++ "(" ++ q.ident refColumn ++ ")" ++
    (onDelete.map fun od => " ON DELETE " ++ onDeleteSql od).getD "" ++ renderDeferrableClause d

def ConstraintDef.render : ConstraintDef → String
  | .check _ expr => "CHECK (" ++ expr ++ ")"
  | .unique cols => "UNIQUE " ++ columnList q cols
  | .primaryKey cols => "PRIMARY KEY " ++ columnList q cols
  | .foreignKey col t r od d =>
      "FOREIGN KEY (" ++ q.ident col ++ ") " ++ renderReferences q t r od d
  | .exclude _ body => body

/-- A constraint inside a column definition: a unique one is left unnamed. -/
def renderInlineConstraint (e : String × ConstraintDef) : String :=
  match e.2 with
  | .unique _ => " UNIQUE"
  | .foreignKey _ t r od d =>
      " CONSTRAINT " ++ q.ident e.1 ++ " " ++ renderReferences q t r od d
  | d => " CONSTRAINT " ++ q.ident e.1 ++ " " ++ d.render q

def ValueClause.render : ValueClause → String
  | .none => ""
  | .default e => " DEFAULT " ++ e
  | .generated g =>
      " GENERATED ALWAYS AS (" ++ g.expression ++ ") " ++ (if g.stored then "STORED" else "VIRTUAL")
  | .identity k => " " ++ k.sqlClause

def ColumnDef.render (d : ColumnDef) : String :=
  q.ident d.name ++ " " ++ d.sqlType ++ (if d.notNull then " NOT NULL" else "") ++
    d.value.render ++ String.join (d.constraints.map (renderInlineConstraint q))

def partitionClause : PartitionSchema → String
  | .range col => "PARTITION BY RANGE (" ++ q.ident col ++ ")"
  | .hash col n =>
      "PARTITION BY HASH (" ++ q.ident col ++ ") /* partitions = " ++ toString n ++ " */"

def TableDef.render (d : TableDef) : String :=
  "CREATE TABLE " ++ q.ident d.name ++ " (\n" ++
    ",\n".intercalate (d.columns.map fun c => "    " ++ c.render q) ++
    (d.primaryKey.map fun cols => ",\n    PRIMARY KEY " ++ columnList q cols).getD "" ++
    String.join (d.exclusions.map fun e =>
      ",\n    CONSTRAINT " ++ q.ident e.1 ++ " " ++ e.2.render q) ++
    "\n)" ++ (d.partition.map fun p => " " ++ partitionClause q p).getD ""

def IndexColumnSchema.render (c : IndexColumnSchema) : String :=
  q.ident c.name ++ (c.opclass.map fun o => " " ++ o).getD "" ++
    (match c.order with | .asc => "" | .desc => " DESC") ++
    (match c.nulls with | .default => "" | .first => " NULLS FIRST" | .last => " NULLS LAST")

def IndexTargetSchema.render : IndexTargetSchema → String
  | .columns cols => "(" ++ commaList (cols.map (IndexColumnSchema.render q)) ++ ")"
  | .expression e => "((" ++ e ++ "))"

def renderCreateIndex (name : String) (d : IndexDef) (concurrently methodClause only : Bool) :
    String :=
  "CREATE " ++ (if d.unique then "UNIQUE " else "") ++ "INDEX " ++
    (if concurrently then "CONCURRENTLY " else "") ++ q.ident name ++
    (if only then "\n  ON ONLY " else " ON ") ++ q.ident d.table ++
    (if methodClause then " USING " ++ indexMethod d.method else "") ++ " " ++ d.target.render q ++
    (if d.include_.isEmpty then "" else " INCLUDE " ++ columnList q d.include_) ++
    (if d.nullsNotDistinct then " NULLS NOT DISTINCT" else "") ++
    (d.predicate.map fun p => " WHERE " ++ p).getD ""

def ColumnAction.render : ColumnAction → String
  | .setNotNull => "SET NOT NULL"
  | .dropNotNull => "DROP NOT NULL"
  | .setDefault e => "SET DEFAULT " ++ e
  | .dropDefault => "DROP DEFAULT"
  | .setType t using_ => "TYPE " ++ t ++ " USING " ++ using_
  | .setExpression e => "SET EXPRESSION AS (" ++ e ++ ")"
  | .dropExpression => "DROP EXPRESSION"
  | .addIdentity k => "ADD " ++ k.sqlClause
  | .setIdentity .byDefault => "SET GENERATED BY DEFAULT"
  | .setIdentity .always => "SET GENERATED ALWAYS"
  | .dropIdentity => "DROP IDENTITY"

def backfillKindLiteral : PkFlipFamily → String
  | .heer => "'heer'"
  | .ranj => "'ranj'"

/-- The two passes of the reverse backfill, the second without `SKIP LOCKED`. -/
def renderReverseBackfill (table src dst : String) (family : PkFlipFamily) : String :=
  let flip := match family with | .heer => "heerid_to_asc" | .ranj => "ranjid_to_asc"
  let pass (lock : String) :=
    "    LOOP\n        SET LOCAL lock_timeout = '30s';\n        WITH batch AS (\n" ++
    "            SELECT ctid FROM " ++ table ++ "\n            WHERE " ++ dst ++
    " IS NULL AND " ++ src ++ " IS NOT NULL\n            LIMIT 10000\n            " ++ lock ++
    "\n        )\n        UPDATE " ++ table ++ " t SET " ++ dst ++ " = " ++ flip ++ "(t." ++ src ++
    ")\n        FROM batch WHERE t.ctid = batch.ctid;\n" ++
    "        GET DIAGNOSTICS rows_done = ROW_COUNT;\n        COMMIT;\n" ++
    "        EXIT WHEN rows_done = 0;\n    END LOOP;\n"
  "DO $$\nDECLARE\n    rows_done int;\nBEGIN\n" ++ pass "FOR UPDATE SKIP LOCKED" ++
    pass "FOR UPDATE" ++ "END;\n$$"

def renderBackfill (table src dst : String) (family : PkFlipFamily) :
    PkFlipDirection → String
  | .ascToDesc =>
      "CALL heeranjid_bulk_backfill('" ++ table ++ "', '" ++ src ++ "', '" ++ dst ++ "', " ++
        backfillKindLiteral family ++ ", 10000)"
  | .descToAsc => renderReverseBackfill table src dst family

/-- The function of an autofill trigger, one assignment for each pair of columns. -/
def renderFunction (name : String) (body : List Autofill) : String :=
  "CREATE OR REPLACE FUNCTION " ++ name ++ "() RETURNS trigger AS $body$\nBEGIN\n" ++
    "    IF TG_OP = 'INSERT' THEN\n" ++
    String.join (body.map fun a =>
      "        IF NEW." ++ a.dst ++ " IS NULL THEN NEW." ++ a.dst ++ " := " ++ a.flip ++
        "(NEW." ++ a.src ++ "); END IF;\n") ++
    "    ELSIF TG_OP = 'UPDATE' THEN\n" ++
    String.join (body.map fun a =>
      let assign := "            NEW." ++ a.dst ++ " := " ++ a.flip ++ "(NEW." ++ a.src ++ ");\n"
      "        IF NEW." ++ a.src ++ " IS DISTINCT FROM OLD." ++ a.src ++ " THEN\n" ++ assign ++
        "        ELSIF NEW." ++ a.dst ++ " IS NULL THEN\n" ++ assign ++ "        END IF;\n") ++
    "    END IF;\n    RETURN NEW;\nEND;\n$body$ LANGUAGE plpgsql"

def ifExistsClause (b : Bool) : String := if b then "IF EXISTS " else ""

def commentValue (c : Option String) : String := (c.map renderCommentLiteral).getD "NULL"

/-- The text of a statement, without the semicolon that may follow. -/
def Stmt.render : Stmt → String
  | .createTable d => d.render q
  | .dropTable t => "DROP TABLE " ++ q.ident t
  | .renameTable a b => "ALTER TABLE " ++ q.ident a ++ " RENAME TO " ++ q.ident b
  | .addColumn t d => "ALTER TABLE " ++ q.ident t ++ " ADD COLUMN " ++ d.render q
  | .dropColumn t c e =>
      "ALTER TABLE " ++ q.ident t ++ " DROP COLUMN " ++ ifExistsClause e ++ q.ident c
  | .renameColumn t a b =>
      "ALTER TABLE " ++ q.ident t ++ " RENAME COLUMN " ++ q.ident a ++ " TO " ++ q.ident b
  | .alterColumn t c a =>
      "ALTER TABLE " ++ q.ident t ++ " ALTER COLUMN " ++ q.ident c ++ " " ++ a.render
  | .addConstraint t n d notValid =>
      "ALTER TABLE " ++ q.ident t ++ " ADD CONSTRAINT " ++ q.ident n ++ " " ++ d.render q ++
        (if notValid then " NOT VALID" else "")
  | .addPrimaryKey t cols =>
      "ALTER TABLE " ++ q.ident t ++ " ADD PRIMARY KEY " ++ columnList q cols
  | .addPrimaryKeyUsingIndex t n i =>
      "ALTER TABLE " ++ q.ident t ++ " ADD CONSTRAINT " ++ q.ident n ++
        " PRIMARY KEY USING INDEX " ++ q.ident i
  | .validateConstraint t n =>
      "ALTER TABLE " ++ q.ident t ++ " VALIDATE CONSTRAINT " ++ q.ident n
  | .dropConstraint t n e =>
      "ALTER TABLE " ++ q.ident t ++ " DROP CONSTRAINT " ++ ifExistsClause e ++ q.ident n
  | .createIndex n d concurrently methodClause only =>
      renderCreateIndex q n d concurrently methodClause only
  | .dropIndex n concurrently e =>
      "DROP INDEX " ++ (if concurrently then "CONCURRENTLY " else "") ++ ifExistsClause e ++ q.ident n
  | .commentOnTable t text => "COMMENT ON TABLE " ++ q.ident t ++ " IS " ++ commentValue text
  | .commentOnColumn t c text =>
      "COMMENT ON COLUMN " ++ q.ident t ++ "." ++ q.ident c ++ " IS " ++ commentValue text
  | .setParams t ps =>
      "ALTER TABLE " ++ q.ident t ++ " SET (" ++ commaList (ps.map fun p => p.1 ++ "=" ++ p.2) ++ ")"
  | .resetParams t ks => "ALTER TABLE " ++ q.ident t ++ " RESET (" ++ commaList ks ++ ")"
  | .setTablespace t ts =>
      "ALTER TABLE " ++ q.ident t ++ " SET TABLESPACE " ++ q.ident (ts.getD pgDefault)
  | .createType n vs =>
      "CREATE TYPE " ++ q.ident n ++ " AS ENUM (" ++ commaList (vs.map quoteStringLiteral) ++ ")"
  | .dropType n => "DROP TYPE " ++ q.ident n
  | .addValue n v place =>
      "ALTER TYPE " ++ q.ident n ++ " ADD VALUE " ++ quoteStringLiteral v ++
        (match place with
          | .before a => " BEFORE " ++ quoteStringLiteral a
          | .after a => " AFTER " ++ quoteStringLiteral a
          | .last => "")
  | .createFunction n body => renderFunction n body
  | .dropFunction n e => "DROP FUNCTION " ++ ifExistsClause e ++ n ++ "() CASCADE"
  | .createTrigger n t f =>
      "CREATE TRIGGER " ++ n ++ "\n    BEFORE INSERT OR UPDATE ON " ++ t ++
        "\n    FOR EACH ROW EXECUTE FUNCTION " ++ f ++ "()"
  | .dropTrigger n t e => "DROP TRIGGER " ++ ifExistsClause e ++ n ++ " ON " ++ t
  | .deferConstraints => "SET CONSTRAINTS ALL DEFERRED"
  | .backfill t src dst family direction => renderBackfill t src dst family direction
  | .countNull t c => "SELECT count(*) FROM " ++ t ++ " WHERE " ++ c ++ " IS NULL"
  | .countStale t src dst flip =>
      "SELECT count(*) FROM " ++ t ++ " WHERE (" ++ src ++ " IS NULL) IS DISTINCT FROM (" ++ dst ++
        " IS NULL) OR (" ++ src ++ " IS NOT NULL AND " ++ dst ++ " <> " ++ flip ++ "(" ++ src ++ "))"
  | .syncSequence t c =>
      "SELECT setval(pg_get_serial_sequence('" ++ t ++ "', '" ++ c ++
        "'), GREATEST(COALESCE((SELECT MAX(" ++ q.ident c ++ ") FROM " ++ q.ident t ++
        "), 0), 0) + 1, false)"
  | .remark text | .invalid text => text

end Render

/-! ## Scripts -/

/-- A statement and the text it stands for, with what ends it. -/
structure Line where
  stmt : Stmt
  text : String
  deriving DecidableEq, Repr

inductive LossyRollbackKind
  | dropColumn | dropTable | dropEnum | dropIndex | pkTypeFlipPostCutover | customCast
  deriving DecidableEq, Repr

structure LossyRollbackWarning where
  kind : LossyRollbackKind
  detail : String
  deriving DecidableEq, Repr

structure OperationSql where
  label : String
  up : List Line
  down : List Line
  lossy : Option LossyRollbackWarning
  deriving DecidableEq, Repr

def scriptText (l : List Line) : String := String.join (l.map Line.text)

def OperationSql.upStmts (o : OperationSql) : List Stmt := o.up.map Line.stmt

def OperationSql.downStmts (o : OperationSql) : List Stmt := o.down.map Line.stmt

/-- A comment ends itself, a statement ends with a semicolon. -/
def sqlText (s : Stmt) : String :=
  match s with
  | .remark t => t
  | s => s.render sqlStyle ++ ";"

/-- Statements on lines of their own. -/
def sqlScript : List Stmt → List Line
  | [] => []
  | [s] => [⟨s, sqlText s⟩]
  | s :: l => ⟨s, sqlText s ++ "\n"⟩ :: sqlScript l

@[simp] theorem sqlScript_stmts (l : List Stmt) : (sqlScript l).map Line.stmt = l := by
  induction l with
  | nil => rfl
  | cons s l ih =>
      cases l with
      | nil => rfl
      | cons s' l => rw [sqlScript, List.map_cons, ih]; simp

inductive SegmentKind
  | transactional | nonTransactional | metadataOnly
  deriving DecidableEq, Repr

/-- A run of operations with one execution mode. -/
structure Segment where
  kind : SegmentKind
  statements : List OperationSql
  deriving DecidableEq, Repr

def Segment.upStmts (s : Segment) : List Stmt := s.statements.flatMap OperationSql.upStmts

inductive SqlEmitError
  | unsupported (reason : String)
  | pkTypeFlipMustRouteToT9 (table : String) (from_ to_ : PkKindSchema)
  | invalidStorageParams (params reason : String)
  | diff (err : DiffError)
  deriving DecidableEq, Repr

/-- A lowering fails with an error of the emitter or by a panic of the source. -/
inductive LowerFailure
  | error (e : SqlEmitError)
  | panic
  deriving DecidableEq, Repr

/-! ## Constraint names -/

def rotl (x : UInt64) (b : UInt64) : UInt64 := (x <<< b) ||| (x >>> (64 - b))

structure SipState where
  v0 : UInt64
  v1 : UInt64
  v2 : UInt64
  v3 : UInt64

def SipState.round (s : SipState) : SipState :=
  let v0 := s.v0 + s.v1
  let v1 := rotl s.v1 13 ^^^ v0
  let v0 := rotl v0 32
  let v2 := s.v2 + s.v3
  let v3 := rotl s.v3 16 ^^^ v2
  let v0 := v0 + v3
  let v3 := rotl v3 21 ^^^ v0
  let v2 := v2 + v1
  let v1 := rotl v1 17 ^^^ v2
  let v2 := rotl v2 32
  ⟨v0, v1, v2, v3⟩

def SipState.absorb (s : SipState) (m : UInt64) : SipState :=
  let s := SipState.round { s with v3 := s.v3 ^^^ m }
  { s with v0 := s.v0 ^^^ m }

def littleEndian (bytes : List UInt8) : UInt64 :=
  bytes.foldr (fun b acc => (acc <<< 8) ||| b.toUInt64) 0

def sipBlocks : Nat → SipState → List UInt8 → SipState × List UInt8
  | 0, s, bytes => (s, bytes)
  | n + 1, s, bytes =>
      if bytes.length < 8 then (s, bytes)
      else sipBlocks n (s.absorb (littleEndian (bytes.take 8))) (bytes.drop 8)

/-- `DefaultHasher` of the standard library: SipHash-1-3 under the zero key. -/
def defaultHash (bytes : List UInt8) : UInt64 :=
  let init : SipState :=
    ⟨0x736f6d6570736575, 0x646f72616e646f6d, 0x6c7967656e657261, 0x7465646279746573⟩
  let r := sipBlocks bytes.length init bytes
  let s := r.1.absorb (((bytes.length.toUInt64 &&& 0xff) <<< 56) ||| littleEndian r.2)
  let s := SipState.round (SipState.round (SipState.round { s with v2 := s.v2 ^^^ 0xff }))
  s.v0 ^^^ s.v1 ^^^ s.v2 ^^^ s.v3

def hex16 (x : UInt64) : String :=
  let digits := Nat.toDigits 16 x.toNat
  String.ofList (List.replicate (16 - digits.length) '0' ++ digits)

/-- Keep a name of at most 63 bytes; cut a longer one to 46 and append its digest. -/
def truncateConstraint (name : String) : String :=
  if name.utf8ByteSize ≤ 63 then name
  else String.ofList (((utf8 name).take 46).map byteChar) ++ "_" ++ hex16 (defaultHash (utf8 name))

def checkConstraintName (table column : String) : String :=
  truncateConstraint (table ++ "_" ++ column ++ "_check")

def uniqueConstraintName (table column : String) : String :=
  truncateConstraint (table ++ "_" ++ column ++ "_key")

def fkConstraintName (table column : String) : String :=
  truncateConstraint (table ++ "_" ++ column ++ "_fkey")

/-- `descriptor::index_name` of a plain index on one column. -/
def indexName (table column : String) : String :=
  truncateConstraint (table ++ "_" ++ column ++ "_idx")

/-! ## Definitions -/

def fkDef (column : String) (fk : ForeignKeySchema) : ConstraintDef :=
  .foreignKey column fk.refTable fk.refColumn (some fk.onDelete)
    (deferral fk.deferrable fk.initiallyDeferred)

/-- At most one value clause: an identity wins over a generated expression, which wins
over a default. -/
def ColumnSchema.valueClause (c : ColumnSchema) : ValueClause :=
  match c.identity, c.generated, c.defaultSql with
  | some k, _, _ => .identity k
  | none, some g, _ => .generated g
  | none, none, some e => .default e
  | none, none, none => .none

def ColumnSchema.inlineConstraints (c : ColumnSchema) (table : String) :
    List (String × ConstraintDef) :=
  (if c.unique then [(uniqueConstraintName table c.name, .unique [c.name])] else []) ++
    (c.check.map fun e => (checkConstraintName table c.name, .check c.name e)).toList ++
    (c.foreignKey.map fun fk => (fkConstraintName table c.name, fkDef c.name fk)).toList

def columnDefinition (c : ColumnSchema) (table : String) : ColumnDef where
  name := c.name
  sqlType := c.sqlType
  notNull := !c.nullable
  value := c.valueClause
  constraints := c.inlineConstraints table

def renderExclusionBody (x : ExclusionConstraintSchema) : String :=
  "EXCLUDE USING " ++ x.using_ ++ " (" ++
    commaList (x.elements.map fun e => e.expr ++ " WITH " ++ e.withOperator) ++ ")" ++
    (x.whereClause.map fun w => " WHERE (" ++ w ++ ")").getD "" ++
    (if x.deferrable then
      " DEFERRABLE" ++ (if x.initiallyDeferred then " INITIALLY DEFERRED" else "")
    else "")

def exclusionDef (x : ExclusionConstraintSchema) : ConstraintDef :=
  .exclude (x.elements.map ExclusionElementSchema.expr) (renderExclusionBody x)

def pkTableClause (t : TableSchema) : Option (List String) :=
  if t.primaryKey.kind = .none ∨ t.primaryKey.columns = [] then none
  else some t.primaryKey.columns

def tableDefinition (t : TableSchema) : TableDef where
  name := t.table
  columns := t.columns.map fun c => columnDefinition c t.table
  primaryKey := pkTableClause t
  exclusions := t.exclusionConstraints.map fun x => (x.name, exclusionDef x)
  partition := t.partition

def indexDef (i : IndexSchema) : IndexDef where
  table := i.table
  unique := i.kind = .uniqueIndex
  method := i.indexType
  target := i.target
  include_ := i.include_
  nullsNotDistinct := i.nullsNotDistinct
  predicate := i.predicate

/-! ## Storage parameters -/

def isWordTail (c : Char) : Bool := c.isAlphanum || c = '_'

def isWord : List Char → Bool
  | [] => false
  | c :: cs => (c.isAlpha || c = '_') && cs.all isWordTail

def validateStorageParamKey (key : String) : Except String Unit :=
  match key.toList with
  | [] => .error "storage_params keys must not be empty"
  | c :: cs =>
      if key.utf8ByteSize > 63 then
        .error "storage_params keys must be at most 63 bytes"
      else if !(c.isAlpha || c = '_') then
        .error "storage_params keys must start with an ASCII letter or underscore"
      else if !cs.all isWordTail then
        .error ("storage_params keys must be plain ASCII reloption names; dotted keys are not " ++
          "supported")
      else .ok ()

def sqlControlWords : List String :=
  ["alter", "begin", "call", "comment", "commit", "copy", "create", "delete", "do", "drop",
    "execute", "from", "grant", "insert", "reset", "revoke", "rollback", "select", "set", "table",
    "truncate", "union", "update", "where"]

/-- Digits, then optionally a dot and digits. -/
def isStorageParamNumber (cs : List Char) : Bool :=
  let before := cs.takeWhile Char.isDigit
  match cs.dropWhile Char.isDigit with
  | [] => !before.isEmpty
  | c :: after => c = '.' && !before.isEmpty && !after.isEmpty && after.all Char.isDigit

def validateStorageParamValue (value : String) : Except String Unit :=
  let cs := value.toList
  if cs.isEmpty then .error "storage_params values must not be empty"
  else if isWord cs then
    if sqlControlWords.contains (String.ofList (cs.map Char.toLower)) then
      .error "storage_params values must not be SQL statement/control words"
    else .ok ()
  else if isStorageParamNumber cs then .ok ()
  else .error ("storage_params values must be bare words or decimal numbers; quotes, comments, " ++
    "commas, parentheses, semicolons, and SQL expressions are not supported")

/-- `char::is_whitespace` of the standard library. -/
def isWhitespace (c : Char) : Bool :=
  let n := c.toNat
  (9 ≤ n && n ≤ 13) || n = 32 || n = 0x85 || n = 0xA0 || n = 0x1680 ||
    (0x2000 ≤ n && n ≤ 0x200A) || n = 0x2028 || n = 0x2029 || n = 0x202F || n = 0x205F || n = 0x3000

def trimChars (cs : List Char) : List Char :=
  ((cs.dropWhile isWhitespace).reverse.dropWhile isWhitespace).reverse

def splitChars (sep : Char) : List Char → List (List Char)
  | [] => [[]]
  | c :: cs =>
      if c = sep then [] :: splitChars sep cs
      else match splitChars sep cs with
        | [] => [[c]]
        | p :: ps => (c :: p) :: ps

def parseStorageParam (part : List Char) : Except String (String × String) :=
  let part := trimChars part
  if part.isEmpty then .error "storage_params entries must not be empty"
  else if !part.contains '=' then
    .error "storage_params entries must use key=value form separated by commas"
  else
    let value := (part.dropWhile (· ≠ '=')).drop 1
    if value.contains '=' then
      .error "storage_params entries must contain exactly one `=`"
    else
      let key := String.ofList (trimChars (part.takeWhile (· ≠ '=')))
      let value := String.ofList (trimChars value)
      match validateStorageParamKey key with
      | .error e => .error e
      | .ok () => match validateStorageParamValue value with
        | .error e => .error e
        | .ok () => .ok (String.ofList (key.toList.map Char.toLower), value)

def parseStorageParts (entries : List (String × String)) :
    List (List Char) → Except String (List (String × String))
  | [] => .ok entries
  | part :: parts =>
      match parseStorageParam part with
      | .error e => .error e
      | .ok e =>
          if (entries.map Prod.fst).contains e.1 then
            .error ("duplicate storage_params key `" ++ e.1 ++ "`")
          else parseStorageParts (entries ++ [e]) parts

def parseStorageParams (params : String) : Except String (List (String × String)) :=
  if (trimChars params.toList).isEmpty then
    .error "storage_params must be a non-empty comma-separated key=value list"
  else parseStorageParts [] (splitChars ',' params.toList)

def parseStorageParamsForSql (params : String) :
    Except LowerFailure (List (String × String)) :=
  match parseStorageParams params with
  | .error reason => .error (.error (.invalidStorageParams params reason))
  | .ok entries => .ok entries

end Djogi
