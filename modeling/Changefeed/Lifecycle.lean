import Changefeed.Split

/-!
# The life of a split

A split is assigned, opened, read, and then completed or failed; it may also fail before it is read.
Completed and failed are final.
-/

namespace Changefeed

/-- Where a split is in its life. -/
inductive SplitState where
  | assigned
  | opened
  | reading
  | completed
  | failed
deriving DecidableEq, Repr

namespace SplitState

/-- The state in a word. -/
def text : SplitState → String
  | .assigned => "assigned"
  | .opened => "opened"
  | .reading => "reading"
  | .completed => "completed"
  | .failed => "failed"

/-- No state follows. -/
def isTerminal : SplitState → Bool
  | .completed | .failed => true
  | .assigned | .opened | .reading => false

/-- The second state may follow the first one. -/
def canMoveTo : SplitState → SplitState → Bool
  | .assigned, .opened | .opened, .reading | .reading, .completed | .reading, .failed
  | .assigned, .failed | .opened, .failed => true
  | _, _ => false

/-- A state without successor is terminal, and a terminal one has none. -/
theorem isTerminal_iff (s : SplitState) : s.isTerminal = true ↔ ∀ t, s.canMoveTo t = false := by
  cases s
  case assigned => exact ⟨nofun, fun h => absurd (h .opened) (by decide)⟩
  case opened => exact ⟨nofun, fun h => absurd (h .reading) (by decide)⟩
  case reading => exact ⟨nofun, fun h => absurd (h .failed) (by decide)⟩
  case completed => exact ⟨fun _ t => by cases t <;> rfl, fun _ => rfl⟩
  case failed => exact ⟨fun _ t => by cases t <;> rfl, fun _ => rfl⟩

end SplitState

/-- A split's identity with its state. -/
structure Lifecycle where
  splitId : SplitId
  state : SplitState := .assigned
deriving DecidableEq, Repr

namespace Lifecycle

/-- The life after a move, which has to be an allowed one. -/
def move (l : Lifecycle) (next : SplitState) : Outcome Lifecycle :=
  if l.state.canMoveTo next then .ok { l with state := next }
  else .error (.invalidState (.badTransition l.splitId.text l.state.text next.text))

/-- The life after a move, or as it is where the move is not allowed. -/
def moveIfAllowed (l : Lifecycle) (next : SplitState) : Lifecycle :=
  if l.state.canMoveTo next then { l with state := next } else l

end Lifecycle
end Changefeed
