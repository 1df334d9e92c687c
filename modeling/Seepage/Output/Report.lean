import Seepage.Analysis.Report
import Seepage.Document.Pretty

set_option autoImplicit false

namespace Seepage.Output

open Document (Value optionalField)

def globalNode (id : GlobalNode) : Value :=
  .table [("file", .natural id.file), ("node", .natural id.node)]

def binding (found : Markup.Binding) : Value :=
  .table ([("file", .string found.file), ("name", .string found.name),
      ("line", .natural found.line), ("element", .string found.element),
      ("input_type", .string found.inputType)] ++
    optionalField "handler" found.handler)

def label : Taint.Label → Value
  | .api name site =>
    .table [("type", .string "api"), ("name", .string name), ("at", globalNode site)]
  | .markup found => .table [("type", .string "markup"), ("binding", binding found)]

def sink (found : Taint.Sink) : Value :=
  .table [("api", .string found.api), ("file", .string found.file), ("node", .natural found.node),
    ("line", .natural found.line), ("column", .natural found.column)]

def pathStep (step : Taint.PathStep) : Value :=
  .table [("file", .string step.file), ("node", .natural step.node), ("kind", .string step.kind),
    ("line", .natural step.line)]

def finding (found : Taint.Finding) : Value :=
  .table ([("source", .string found.source), ("label", label found.label),
      ("source_file", .string found.sourceFile), ("sink", sink found.sink),
      ("path", .array (found.path.map pathStep)), ("method", .optional found.method),
      ("ident", .optional found.ident)] ++
    optionalField "channel" found.channel)

def diagnostic (found : Diagnostic) : Value :=
  .table ([("code", .string found.concern.code), ("severity", .string found.severity.label),
      ("message", .string found.message), ("file", .string found.file),
      ("line", .natural found.line), ("column", .natural found.column)] ++
    optionalField "suggestion" found.suggestion)

def ingestError (error : IngestError) : Value :=
  .table [("file", .string error.file), ("message", .string error.message)]

def overrun (found : Overrun) : Value :=
  .table [("reason", .string "memory_limit"), ("estimated_bytes", .natural found.estimated),
    ("ceiling_bytes", .natural found.ceiling)]

def status : Option Overrun → List (String × Value)
  | none => [("status", .string "completed")]
  | some found => [("status", .string "failed"), ("failure", overrun found)]

def report (found : Report) : Value :=
  .table ([("unit", .string found.unit)] ++ status found.failure ++
    [("files_analyzed", .natural found.filesAnalyzed),
     ("findings", .array (found.findings.map finding)),
     ("ingestion_errors", .array (found.ingestErrors.map ingestError)),
     ("diagnostics", .array (found.diagnostics.map diagnostic))])

def sizes (found : Sizes) : Value :=
  .table [("nodes", .natural found.nodes), ("edges", .natural found.edges),
    ("locations", .natural found.locations), ("link_edges", .natural found.linkEdges),
    ("findings", .natural found.findings), ("taint_steps", .natural found.taintSteps)]

def milliseconds (micros : Nat) : Value :=
  let digits := (Nat.toDigits 10 (1000 + micros % 1000)).drop 1
  let places := (digits.reverse.dropWhile (· == '0')).reverse
  .float (toString (micros / 1000) ++ "." ++ if places.isEmpty then "0" else .ofList places)

def durations (metrics : Metrics) : Value :=
  .table ((Phase.all.filter fun phase => metrics.measured.any (·.1 == phase)).map fun phase =>
    (phase.label, milliseconds (metrics.micros phase)))

def summary (found : Report) : Value :=
  .table [("files_analyzed", .natural found.filesAnalyzed),
    ("findings", .natural found.findings.length),
    ("inter_page_findings", .natural (found.findings.filter (·.isInterPage)).length),
    ("ingestion_errors", .natural found.ingestErrors.length),
    ("diagnostics", .natural found.diagnostics.length)]

def document (found : Report) (metrics : Option Metrics) : Value :=
  .table ([("version", .string "1.0"),
      ("metadata", .table [("minitaint_version", .string "0.1.0"), ("unit", .string found.unit)]),
      ("summary", summary found),
      ("report", report found)] ++
    metrics.toList.map fun metrics =>
      ("metrics", .table [("durations", durations metrics), ("sizes", sizes metrics.sizes)]))

end Seepage.Output
