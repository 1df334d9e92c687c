import Seepage.Analysis.Config

set_option autoImplicit false

namespace Seepage

structure AnalysisSection where
  timeoutSecs : Nat := 600
  memoryLimitMb : Nat := 20 * 1024
  pathDetails : Bool := false
  prototypeFallback : Bool := true
  maxFallbackOwners : Option Nat := none
deriving DecidableEq, Repr, Inhabited

structure Settings where
  sources : List String := []
  sinks : List String := []
  analysis : AnalysisSection := {}
deriving DecidableEq, Repr, Inhabited

def maxCount : Nat := 0xffff_ffff_ffff_ffff

namespace AnalysisSection

def timeLimit (analysis : AnalysisSection) : Option Nat :=
  if analysis.timeoutSecs = 0 then none else some analysis.timeoutSecs

def memoryCeiling (analysis : AnalysisSection) : Option Nat :=
  if analysis.memoryLimitMb = 0 then none
  else some (min (analysis.memoryLimitMb * (1024 * 1024)) maxCount)

def heap (analysis : AnalysisSection) : Alias.Options where
  prototypeFallback := analysis.prototypeFallback
  maxFallbackOwners := analysis.maxFallbackOwners

end AnalysisSection

namespace Settings

def taint (settings : Settings) : Taint.Settings where
  sources := .ofNames settings.sources
  sinks := .ofNames settings.sinks
  mode := if settings.analysis.pathDetails then .detailed else .deduplicated

def config (settings : Settings) : AnalysisConfig where
  taint := settings.taint
  heap := settings.analysis.heap
  timeLimit := settings.analysis.timeLimit
  memoryCeiling := settings.analysis.memoryCeiling

end Settings

end Seepage
