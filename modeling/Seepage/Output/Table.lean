import Seepage.Taint.Finding

set_option autoImplicit false

namespace Seepage.Output

def fieldChar (c : Char) : Char :=
  if c = '|' || c = '\n' || c = '\r' then ' ' else c

def field (text : String) : String :=
  .ofList (text.toList.map fieldChar)

def pageName (file : String) : String :=
  let backwards := file.toList.reverse
  let extension := backwards.takeWhile (· != '.')
  match backwards.dropWhile (· != '.') with
  | '.' :: stem => if extension.contains '/' then file else .ofList stem.reverse
  | _ => file

def row (fields : List String) : String :=
  String.intercalate "|" (fields.map field) ++ "\n"

def findingsHeader : String := "page_name|page_method|ident|source|sink\n"

def findingRow (found : Taint.Finding) : String :=
  row [pageName found.sink.file, found.method.getD "", found.ident.getD "", found.source,
    found.sink.api]

def findingsTable (findings : List Taint.Finding) : String :=
  findingsHeader ++ String.join ((findings.filter (!·.isInterPage)).map findingRow)

def interPageHeader : String := "from_page|to_page|event_name|source|sink\n"

def interPageRow (found : Taint.Finding) : String :=
  row [pageName found.sourceFile, pageName found.sink.file, found.channel.getD "", found.source,
    found.sink.api]

def interPageTable (findings : List Taint.Finding) : String :=
  interPageHeader ++ String.join ((findings.filter (·.isInterPage)).map interPageRow)

def benchHeader : String := "unit|phase|millis\n"

def benchRows (unit : String) (metrics : Metrics) : String :=
  String.join (metrics.rows.map fun (phase, millis) => row [unit, phase.label, toString millis]) ++
    row [unit, "total", toString (metrics.totalMicros / 1000)]

def benchTable (units : List (String × Metrics)) : String :=
  benchHeader ++ String.join (units.map fun (unit, metrics) => benchRows unit metrics)

end Seepage.Output
