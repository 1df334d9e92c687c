import Seepage.Output.Report
import Seepage.Output.Table

set_option autoImplicit false

namespace Seepage.Output

inductive Format where
  | tables
  | document
deriving DecidableEq, Repr, Inhabited

def benchName : String := "bench.csv"

def tableFiles (report : Report) : List (String × String) :=
  (report.unit ++ "-result.csv", findingsTable report.findings) ::
    if report.findings.any (·.isInterPage) then
      [(report.unit ++ "-inter-page-result.csv", interPageTable report.findings)]
    else []

def files (format : Format) (report : Report) (metrics : Option Metrics) :
    List (String × String) :=
  match format with
  | .tables => tableFiles report
  | .document => [(report.unit ++ "-result.json", (document report metrics).pretty)]

end Seepage.Output
