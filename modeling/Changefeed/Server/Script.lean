import Changefeed.Fault
import Changefeed.SortedMap

/-!
# Scripted failures

A script says which calls fail: the call of a kind with a number, counted from 0 over all calls of
that kind, fails with a given fault.  Calls that fail are counted too.
-/

namespace Changefeed

/-- A failure of one call. -/
structure ScriptedFault (κ : Type) where
  call : κ
  number : Nat
  fault : Fault
deriving DecidableEq, Repr

/-- The failures to come, and the calls made so far. -/
structure Script (κ : Type) where
  faults : List (ScriptedFault κ) := []
  made : SortedMap κ Nat := []

namespace Script

variable {κ : Type} [Ord κ] [DecidableEq κ]

/-- The number of calls of a kind made so far. -/
def count (s : Script κ) (call : κ) : Nat := (s.made.find? call).getD 0

/-- Makes a call: the fault it fails with, if any, and the script after it. -/
def make (s : Script κ) (call : κ) : Option Fault × Script κ :=
  ((s.faults.find? fun f => f.call = call && f.number = s.count call).map ScriptedFault.fault,
    { s with made := s.made.insert call (s.count call + 1) })

end Script
end Changefeed
