import Seepage.Alias.Rule
import Seepage.Taint.Filter

set_option autoImplicit false

namespace Seepage

structure AnalysisConfig where
  taint : Taint.Settings := {}
  heap : Alias.Options := {}
  timeLimit : Option Nat := some 600
  memoryCeiling : Option Nat := some (20 * 1024 * 1024 * 1024)
deriving DecidableEq, Repr, Inhabited

end Seepage
