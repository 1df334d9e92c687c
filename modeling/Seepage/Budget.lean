set_option autoImplicit false

namespace Seepage

structure Overrun where
  estimated : Nat
  ceiling : Nat
deriving DecidableEq, Repr, Inhabited

def Overrun.message (overrun : Overrun) : String :=
  "estimated memory " ++ toString overrun.estimated ++ " bytes exceeds ceiling of " ++
    toString overrun.ceiling ++ " bytes"

structure Budget where
  ceiling : Option Nat
  charged : Nat := 0
deriving DecidableEq, Repr, Inhabited

namespace Budget

def maxBytes : Nat := 0xffff_ffff_ffff_ffff

def unlimited : Budget := { ceiling := none }

def add (budget : Budget) (bytes : Nat) : Budget :=
  { budget with charged := min (budget.charged + bytes) maxBytes }

def overrun? (budget : Budget) : Option Overrun :=
  match budget.ceiling with
  | some ceiling => if ceiling < budget.charged then some ⟨budget.charged, ceiling⟩ else none
  | none => none

def check (budget : Budget) : Except Overrun Unit :=
  match budget.overrun? with
  | some overrun => .error overrun
  | none => .ok ()

def charge (budget : Budget) (bytes : Nat) : Except Overrun Budget := do
  let budget := budget.add bytes
  budget.check
  return budget

-- Loops look at the budget once in a number of rounds.
def checkEvery (budget : Budget) (interval round : Nat) : Except Overrun Unit :=
  if round % interval = 0 then budget.check else .ok ()

end Budget

end Seepage
