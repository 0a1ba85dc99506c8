import Changefeed.Metrics
import Changefeed.Server.Basic

/-!
# What tasks share

The tasks of a connector share the server, a layout history, perhaps a place where layouts are kept
for longer, and the counters.  An action may fail and may change what is shared; a failure keeps
the changes made before it.
-/

namespace Changefeed

/-- What the tasks of a connector share. -/
structure Shared where
  server : Server
  history : SchemaHistory := .empty
  /-- Where layouts are kept beyond the life of a history, if anywhere. -/
  backend : Option LayoutBackend := none
  metrics : Metrics := {}

/-- Something that may fail and may change what is shared. -/
def Act (α : Type) := Shared → Outcome α × Shared

namespace Act

variable {α β : Type}

/-- The action as a function of what is shared. -/
def run (act : Act α) (sh : Shared) : Outcome α × Shared := act sh

/-- Does nothing. -/
def done (a : α) : Act α := fun sh => (.ok a, sh)

/-- Does one thing after the other, unless the first one fails. -/
def andThen (act : Act α) (next : α → Act β) : Act β := fun sh =>
  match act sh with
  | (.ok a, sh) => next a sh
  | (.error f, sh) => (.error f, sh)

instance : Monad Act where
  pure := done
  bind := andThen

/-- Asks the server. -/
def ask (act : ServerAct α) : Act α := fun sh =>
  ((act sh.server).1, { sh with server := (act sh.server).2 })

/-- Goes on with a result, or fails. -/
def ofOutcome (r : Outcome α) : Act α := fun sh => (r, sh)

/-- Fails unless a condition holds. -/
def require (condition : Bool) (f : Fault) : Act Unit :=
  ofOutcome (if condition then .ok () else .error f)

/-- Adds a batch of layouts to the history. -/
def commit (b : SchemaBatch) : Act Unit := fun sh =>
  (.ok (), { sh with history := b.commit sh.history })

end Act
end Changefeed
