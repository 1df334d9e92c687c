set_option autoImplicit false

namespace Seepage

inductive Phase where
  | ingest
  | control
  | data
  | heap
  | link
  | taint
deriving DecidableEq, Repr, Inhabited

namespace Phase

def all : List Phase := [.ingest, .control, .data, .heap, .link, .taint]

def label : Phase → String
  | .ingest => "ingest"
  | .control => "cfg"
  | .data => "data_flow"
  | .heap => "alias"
  | .link => "link"
  | .taint => "taint"

end Phase

structure Sizes where
  nodes : Nat := 0
  edges : Nat := 0
  locations : Nat := 0
  linkEdges : Nat := 0
  findings : Nat := 0
  taintSteps : Nat := 0
deriving DecidableEq, Repr, Inhabited

def Sizes.add (a b : Sizes) : Sizes where
  nodes := a.nodes + b.nodes
  edges := a.edges + b.edges
  locations := a.locations + b.locations
  linkEdges := a.linkEdges + b.linkEdges
  findings := a.findings + b.findings
  taintSteps := a.taintSteps + b.taintSteps

structure Metrics where
  measured : List (Phase × Nat) := []
  sizes : Sizes := {}
deriving DecidableEq, Repr, Inhabited

namespace Metrics

def record (metrics : Metrics) (phase : Phase) (micros : Nat) : Metrics :=
  { metrics with measured := metrics.measured ++ [(phase, micros)] }

def addSizes (metrics : Metrics) (sizes : Sizes) : Metrics :=
  { metrics with sizes := metrics.sizes.add sizes }

def absorb (metrics other : Metrics) : Metrics :=
  ⟨metrics.measured ++ other.measured, metrics.sizes.add other.sizes⟩

def micros (metrics : Metrics) (phase : Phase) : Nat :=
  (metrics.measured.filter (·.1 == phase)).foldl (fun total found => total + found.2) 0

def totalMicros (metrics : Metrics) : Nat :=
  metrics.measured.foldl (fun total found => total + found.2) 0

def rows (metrics : Metrics) : List (Phase × Nat) :=
  Phase.all.map fun phase => (phase, metrics.micros phase / 1000)

end Metrics

end Seepage
