import Djogi.Lib.Anchored
import Djogi.Operation

/-!
# Statements and the catalog

The statements the emitters of `migrate/sql.rs` and `migrate/pk_flip.rs` write, as
syntax, and what PostgreSQL does to its catalog when it runs one. `exec` fails where
PostgreSQL raises an error because a name is taken or missing; row data, locks and
permissions are outside the catalog.

A constraint belongs to its table and keeps its name when the table or a column is
renamed; a foreign key follows the table and the column it references; a dropped column
takes along every index and constraint that uses it.
-/

namespace Djogi

/-! ## The catalog -/

inductive Deferral
  | notDeferrable | initiallyImmediate | initiallyDeferred
  deriving DecidableEq, Repr

/-- `onDelete = none` is a clause left out, which PostgreSQL stores as `NO ACTION`. -/
inductive ConstraintDef
  | check (column expr : String)
  | unique (columns : List String)
  | primaryKey (columns : List String)
  | foreignKey (column refTable refColumn : String) (onDelete : Option OnDeleteSchema)
      (deferral : Deferral)
  | exclude (columns : List String) (body : String)
  deriving DecidableEq, Repr

structure CatColumn where
  sqlType : String
  notNull : Bool
  default : Option String
  generated : Option GeneratedColumnSchema
  identity : Option IdentityKindSchema
  comment : Option String
  deriving DecidableEq, Repr

structure CatTable where
  columns : OrdMap String CatColumn
  constraints : OrdMap String ConstraintDef
  partition : Option PartitionSchema
  comment : Option String
  params : OrdMap String String
  tablespace : String
  triggers : OrdMap String String
  deriving DecidableEq

structure IndexDef where
  table : String
  unique : Bool
  method : IndexTypeSchema
  target : IndexTargetSchema
  include_ : List String
  nullsNotDistinct : Bool
  predicate : Option String
  deriving DecidableEq, Repr

/-- One assignment of an autofill trigger: `dst := flip(src)`. -/
structure Autofill where
  src : String
  dst : String
  flip : String
  deriving DecidableEq, Repr

structure Catalog where
  tables : OrdMap String CatTable
  indexes : OrdMap String IndexDef
  enums : OrdMap String (List String)
  functions : OrdMap String (List Autofill)
  deriving DecidableEq

/-! ## Statements -/

/-- Where the values of a column come from; a column definition has one such clause. -/
inductive ValueClause
  | none
  | default (expr : String)
  | generated (g : GeneratedColumnSchema)
  | identity (k : IdentityKindSchema)
  deriving DecidableEq, Repr

structure ColumnDef where
  name : String
  sqlType : String
  notNull : Bool
  value : ValueClause
  constraints : List (String × ConstraintDef)
  deriving DecidableEq, Repr

structure TableDef where
  name : String
  columns : List ColumnDef
  primaryKey : Option (List String)
  exclusions : List (String × ConstraintDef)
  partition : Option PartitionSchema
  deriving DecidableEq, Repr

inductive ColumnAction
  | setNotNull | dropNotNull
  | setDefault (expr : String) | dropDefault
  | setType (sqlType using_ : String)
  | setExpression (expr : String) | dropExpression
  | addIdentity (k : IdentityKindSchema) | setIdentity (k : IdentityKindSchema) | dropIdentity
  deriving DecidableEq, Repr

inductive Stmt
  | createTable (d : TableDef)
  | dropTable (table : String)
  | renameTable (from_ to_ : String)
  | addColumn (table : String) (d : ColumnDef)
  | dropColumn (table column : String) (ifExists : Bool)
  | renameColumn (table from_ to_ : String)
  | alterColumn (table column : String) (a : ColumnAction)
  | addConstraint (table name : String) (d : ConstraintDef) (notValid : Bool)
  | addPrimaryKey (table : String) (columns : List String)
  | addPrimaryKeyUsingIndex (table name index : String)
  | validateConstraint (table name : String)
  | dropConstraint (table name : String) (ifExists : Bool)
  | createIndex (name : String) (d : IndexDef) (concurrently methodClause only : Bool)
  | dropIndex (name : String) (concurrently ifExists : Bool)
  | commentOnTable (table : String) (comment : Option String)
  | commentOnColumn (table column : String) (comment : Option String)
  | setParams (table : String) (params : List (String × String))
  | resetParams (table : String) (keys : List String)
  | setTablespace (table : String) (tablespace : Option String)
  | createType (name : String) (variants : List String)
  | dropType (name : String)
  | addValue (enumName variant : String) (place : Anchored.Place String)
  | createFunction (name : String) (body : List Autofill)
  | dropFunction (name : String) (ifExists : Bool)
  | createTrigger (name table function : String)
  | dropTrigger (name table : String) (ifExists : Bool)
  | deferConstraints
  | backfill (table src dst : String) (family : PkFlipFamily) (direction : PkFlipDirection)
  | countNull (table column : String)
  | countStale (table src dst flip : String)
  | syncSequence (table column : String)
  | remark (text : String)
  | invalid (text : String)
  deriving DecidableEq, Repr

/-! ## Constraints and indexes under renames -/

def renamed (from_ to_ name : String) : String := if name = from_ then to_ else name

namespace ConstraintDef

/-- Columns of its own table a constraint uses. -/
def columns : ConstraintDef → List String
  | .check c _ => [c]
  | .unique cs | .primaryKey cs => cs
  | .foreignKey c .. => [c]
  | .exclude cs _ => cs

/-- Table and column a foreign key references. -/
def target : ConstraintDef → Option (String × String)
  | .foreignKey _ t c _ _ => some (t, c)
  | _ => none

def renameColumn (from_ to_ : String) : ConstraintDef → ConstraintDef
  | .check c e => .check (renamed from_ to_ c) e
  | .unique cs => .unique (cs.map (renamed from_ to_))
  | .primaryKey cs => .primaryKey (cs.map (renamed from_ to_))
  | .foreignKey c t r od d => .foreignKey (renamed from_ to_ c) t r od d
  | .exclude cs b => .exclude (cs.map (renamed from_ to_)) b

def retargetTable (from_ to_ : String) : ConstraintDef → ConstraintDef
  | .foreignKey c t r od d => .foreignKey c (renamed from_ to_ t) r od d
  | d => d

def retargetColumn (table from_ to_ : String) : ConstraintDef → ConstraintDef
  | .foreignKey c t r od d =>
      .foreignKey c t (if t = table then renamed from_ to_ r else r) od d
  | d => d

/-- What the catalog stores: the default delete action is explicit, and an exclusion
constraint depends on those of its expressions that are columns. -/
def stored (columns : OrdMap String CatColumn) : ConstraintDef → ConstraintDef
  | .foreignKey c t r od d => .foreignKey c t r (some (od.getD .noAction)) d
  | .exclude cs b => .exclude (cs.filter columns.contains) b
  | d => d

/-- Must every column of the constraint exist? The expressions of an exclusion constraint
need not be columns. -/
def required : ConstraintDef → List String
  | .exclude .. => []
  | d => d.columns

end ConstraintDef

namespace IndexDef

def keyColumns (d : IndexDef) : List String :=
  match d.target with
  | .columns cols => cols.map IndexColumnSchema.name
  | .expression _ => []

def columns (d : IndexDef) : List String := d.keyColumns ++ d.include_

def renameColumn (from_ to_ : String) (d : IndexDef) : IndexDef :=
  { d with
    target := match d.target with
      | .columns cols => .columns (cols.map fun c => { c with name := renamed from_ to_ c.name })
      | .expression e => .expression e
    include_ := d.include_.map (renamed from_ to_) }

def uses (d : IndexDef) (table column : String) : Bool :=
  d.table = table && d.columns.contains column

end IndexDef

/-! ## Building blocks -/

def ColumnDef.state (d : ColumnDef) : CatColumn where
  sqlType := d.sqlType
  notNull := d.notNull
  default := match d.value with | .default e => some e | _ => none
  generated := match d.value with | .generated g => some g | _ => none
  identity := match d.value with | .identity k => some k | _ => none
  comment := none

def pgDefault : String := "pg_default"

def pkeyName (table : String) : String := table ++ "_pkey"

namespace TableDef

def catColumns (d : TableDef) : OrdMap String CatColumn :=
  .ofList (d.columns.map fun c =>
    (c.name, { c.state with notNull := c.notNull || (d.primaryKey.getD []).contains c.name }))

def catConstraints (d : TableDef) : List (String × ConstraintDef) :=
  d.columns.flatMap ColumnDef.constraints ++
    (d.primaryKey.map fun cols => (pkeyName d.name, .primaryKey cols)).toList ++ d.exclusions

def state (d : TableDef) : CatTable where
  columns := d.catColumns
  constraints := .ofList (d.catConstraints.map fun e => (e.1, e.2.stored d.catColumns))
  partition := d.partition
  comment := none
  params := .empty
  tablespace := pgDefault
  triggers := .empty

end TableDef

namespace CatTable

def addColumn (s : CatTable) (d : ColumnDef) : CatTable :=
  let columns := s.columns.insert d.name d.state
  { s with
    columns := columns
    constraints := d.constraints.foldl (fun m e => m.insert e.1 (e.2.stored columns))
      s.constraints }

def dropColumn (s : CatTable) (column : String) : CatTable :=
  { s with
    columns := s.columns.erase column
    constraints := s.constraints.filter fun _ d => !d.columns.contains column }

def renameColumn (s : CatTable) (from_ to_ : String) : CatTable :=
  match s.columns.get from_ with
  | none => s
  | some col =>
      { s with
        columns := (s.columns.erase from_).insert to_ col
        constraints := s.constraints.map (.renameColumn from_ to_) }

def mapConstraints (f : ConstraintDef → ConstraintDef) (s : CatTable) : CatTable :=
  { s with constraints := s.constraints.map f }

/-- Forget the foreign keys that reference a dropped column. -/
def forgetTarget (table column : String) (s : CatTable) : CatTable :=
  { s with constraints := s.constraints.filter fun _ d => d.target ≠ some (table, column) }

end CatTable

def ColumnAction.run (c : CatColumn) : ColumnAction → Option CatColumn
  | .setNotNull => some { c with notNull := true }
  | .dropNotNull => some { c with notNull := false }
  | .setDefault e => some { c with default := some e }
  | .dropDefault => some { c with default := none }
  | .setType t _ => some { c with sqlType := t }
  | .setExpression e => c.generated.map fun g => { c with generated := some { g with expression := e } }
  | .dropExpression => c.generated.map fun _ => { c with generated := none }
  | .addIdentity k => if c.identity.isSome then none else some { c with identity := some k }
  | .setIdentity k => c.identity.map fun _ => { c with identity := some k }
  | .dropIdentity => c.identity.map fun _ => { c with identity := none }

namespace Catalog

def empty : Catalog := ⟨.empty, .empty, .empty, .empty⟩

def setTable (c : Catalog) (table : String) (s : CatTable) : Catalog :=
  { c with tables := c.tables.insert table s }

/-- Act on one table; it has to exist. -/
def onTable (c : Catalog) (table : String) (f : CatTable → Option CatTable) : Option Catalog :=
  (c.tables.get table).bind fun s => (f s).map (c.setTable table)

/-- Act on one column; it has to exist. -/
def onColumn (c : Catalog) (table column : String) (f : CatColumn → Option CatColumn) :
    Option Catalog :=
  c.onTable table fun s => (s.columns.get column).bind fun col =>
    (f col).map fun col' => { s with columns := s.columns.insert column col' }

def hasColumn (c : Catalog) (table column : String) : Bool :=
  match c.tables.get table with
  | some s => s.columns.contains column
  | none => false

/-- Is the column a foreign key references there? -/
def targetPresent (c : Catalog) (d : ConstraintDef) : Bool :=
  match d.target with
  | some t => c.hasColumn t.1 t.2
  | none => true

def freshConstraints (s : CatTable) (l : List (String × ConstraintDef)) : Bool :=
  (l.map Prod.fst).Nodup && l.all fun e => !s.constraints.contains e.1

def createTable (c : Catalog) (d : TableDef) : Option Catalog :=
  let c' := c.setTable d.name d.state
  if !c.tables.contains d.name && (d.columns.map ColumnDef.name).Nodup &&
      (d.catConstraints.map Prod.fst).Nodup &&
      d.catConstraints.all (fun e => c'.targetPresent e.2 &&
        e.2.required.all d.catColumns.contains)
  then some c' else none

def dropTable (c : Catalog) (table : String) : Option Catalog :=
  if c.tables.contains table then
    some { c with
      tables := c.tables.erase table
      indexes := c.indexes.filter fun _ d => d.table ≠ table }
  else none

def renameTable (c : Catalog) (from_ to_ : String) : Option Catalog :=
  match c.tables.get from_ with
  | none => none
  | some s =>
      if c.tables.contains to_ then none
      else some { c with
        tables := ((c.tables.erase from_).insert to_ s).map
          (.mapConstraints (.retargetTable from_ to_))
        indexes := c.indexes.map fun d => { d with table := renamed from_ to_ d.table } }

def addColumn (c : Catalog) (table : String) (d : ColumnDef) : Option Catalog :=
  (c.tables.get table).bind fun s =>
    let c' := c.setTable table (s.addColumn d)
    if !s.columns.contains d.name && freshConstraints s d.constraints &&
        d.constraints.all (fun e => c'.targetPresent e.2)
    then some c' else none

def dropColumn (c : Catalog) (table column : String) (ifExists : Bool) : Option Catalog :=
  (c.tables.get table).bind fun s =>
    if s.columns.contains column then
      some { c with
        tables := (c.tables.insert table (s.dropColumn column)).map (.forgetTarget table column)
        indexes := c.indexes.filter fun _ d => !d.uses table column }
    else if ifExists then some c else none

def renameColumn (c : Catalog) (table from_ to_ : String) : Option Catalog :=
  (c.tables.get table).bind fun s =>
    if s.columns.contains from_ && !s.columns.contains to_ then
      some { c with
        tables := (c.tables.insert table (s.renameColumn from_ to_)).map
          (.mapConstraints (.retargetColumn table from_ to_))
        indexes := c.indexes.map fun d =>
          if d.table = table then d.renameColumn from_ to_ else d }
    else none

def addConstraint (c : Catalog) (table name : String) (d : ConstraintDef) : Option Catalog :=
  c.onTable table fun s =>
    if !s.constraints.contains name && d.required.all s.columns.contains && c.targetPresent d
    then some { s with constraints := s.constraints.insert name (d.stored s.columns) }
    else none

def dropConstraint (c : Catalog) (table name : String) (ifExists : Bool) : Option Catalog :=
  c.onTable table fun s =>
    if s.constraints.contains name then some { s with constraints := s.constraints.erase name }
    else if ifExists then some s else none

/-- The index becomes the key constraint and takes its name. -/
def promoteIndex (c : Catalog) (table name index : String) : Option Catalog :=
  (c.indexes.get index).bind fun d =>
    if d.table = table && d.unique then
      ({ c with indexes := c.indexes.erase index }).addConstraint table name
        (.primaryKey d.keyColumns)
    else none

def createIndex (c : Catalog) (name : String) (d : IndexDef) : Option Catalog :=
  if !c.indexes.contains name && c.tables.contains d.table &&
      d.columns.all (c.hasColumn d.table)
  then some { c with indexes := c.indexes.insert name d } else none

def dropIndex (c : Catalog) (name : String) (ifExists : Bool) : Option Catalog :=
  if c.indexes.contains name then some { c with indexes := c.indexes.erase name }
  else if ifExists then some c else none

/-- Run one statement; `none` is an error. -/
def exec (c : Catalog) : Stmt → Option Catalog
  | .createTable d => c.createTable d
  | .dropTable t => c.dropTable t
  | .renameTable a b => c.renameTable a b
  | .addColumn t d => c.addColumn t d
  | .dropColumn t col ifExists => c.dropColumn t col ifExists
  | .renameColumn t a b => c.renameColumn t a b
  | .alterColumn t col a => c.onColumn t col fun s => a.run s
  | .addConstraint t n d _ => c.addConstraint t n d
  | .addPrimaryKey t cols => c.addConstraint t (pkeyName t) (.primaryKey cols)
  | .addPrimaryKeyUsingIndex t n i => c.promoteIndex t n i
  | .validateConstraint t n =>
      c.onTable t fun s => if s.constraints.contains n then some s else none
  | .dropConstraint t n ifExists => c.dropConstraint t n ifExists
  | .createIndex n d _ _ _ => c.createIndex n d
  | .dropIndex n _ ifExists => c.dropIndex n ifExists
  | .commentOnTable t text => c.onTable t fun s => some { s with comment := text }
  | .commentOnColumn t col text => c.onColumn t col fun s => some { s with comment := text }
  | .setParams t ps => c.onTable t fun s =>
      some { s with params := ps.foldl (fun m p => m.insert p.1 p.2) s.params }
  | .resetParams t ks => c.onTable t fun s =>
      some { s with params := s.params.filter fun k _ => !ks.contains k }
  | .setTablespace t ts => c.onTable t fun s => some { s with tablespace := ts.getD pgDefault }
  | .createType n vs =>
      if c.enums.contains n then none else some { c with enums := c.enums.insert n vs }
  | .dropType n => if c.enums.contains n then some { c with enums := c.enums.erase n } else none
  | .addValue n v place => (c.enums.get n).bind fun vs =>
      (Anchored.insertAt v vs place).map fun vs' => { c with enums := c.enums.insert n vs' }
  | .createFunction n body => some { c with functions := c.functions.insert n body }
  | .dropFunction n ifExists =>
      if c.functions.contains n then some { c with functions := c.functions.erase n }
      else if ifExists then some c else none
  | .createTrigger n t f => c.onTable t fun s =>
      if s.triggers.contains n || !c.functions.contains f then none
      else some { s with triggers := s.triggers.insert n f }
  | .dropTrigger n t ifExists => c.onTable t fun s =>
      if s.triggers.contains n then some { s with triggers := s.triggers.erase n }
      else if ifExists then some s else none
  | .backfill t src dst _ _ | .countStale t src dst _ =>
      if c.hasColumn t src && c.hasColumn t dst then some c else none
  | .countNull t col | .syncSequence t col => if c.hasColumn t col then some c else none
  | .deferConstraints | .remark _ => some c
  | .invalid _ => none

/-- Run statements in order; the first error ends the run. -/
def execAll (c : Catalog) (l : List Stmt) : Option Catalog := l.foldlM exec c

@[simp] theorem execAll_nil (c : Catalog) : c.execAll [] = some c := rfl

@[simp] theorem execAll_cons (c : Catalog) (s : Stmt) (l : List Stmt) :
    c.execAll (s :: l) = (c.exec s).bind fun c' => c'.execAll l := rfl

theorem execAll_append (c : Catalog) (l₁ l₂ : List Stmt) :
    c.execAll (l₁ ++ l₂) = (c.execAll l₁).bind fun c' => c'.execAll l₂ := by
  simp [execAll, List.foldlM_append]

end Catalog

end Djogi
