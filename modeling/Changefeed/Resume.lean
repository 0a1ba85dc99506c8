import Changefeed.Offset

/-!
# Whether a position can still be served

A place in a log file can be served while the server retains the file.  A transaction set can be
served when the server has executed all of it and has purged nothing of what is left to replicate.
What is left is counted from the set completed by the server's own transactions below its highest
ones, because a client that has seen a transaction of a source has seen all before it that the
server knows.  The initial position and the empty set can always be served.
-/

namespace Changefeed

/-- Why a position cannot be served. -/
inductive Unresumable where
  | fileNotRetained (filename : String)
  | noTransactionsKnown
  /-- The completed set goes beyond what the server knows. -/
  | notContained (completed known : GtidSet)
  /-- Transactions still to be replicated that are gone. -/
  | purged (missing : GtidSet)
deriving DecidableEq, Repr

namespace Unresumable

/-- The reason in words. -/
def message : Unresumable → String
  | .fileNotRetained filename =>
    "binlog file '" ++ filename ++ "' is no longer retained by the server"
  | .noTransactionsKnown =>
    "connector used GTIDs previously, but the server does not know of any GTIDs"
  | .notContained completed known =>
    "connector GTID set " ++ completed.text ++ " is not contained in the server GTID set "
      ++ known.text
  | .purged missing =>
    "GTIDs " ++ missing.text ++ " needed to replicate have been purged by the server"

/-- The fault of a position that cannot be served. -/
def toFault (u : Unresumable) (o : Offset) : Fault := .offsetNotAvailable o.text u.message

end Unresumable

/-- What a server retains of its log. -/
structure RetainedLog where
  logFiles : List String := []
  known : GtidSet := .empty
  purged : GtidSet := .empty

namespace Resume

/-- Checks a log file's name; the empty one means "start now". -/
def checkFile (filename : String) (retained : List String) : Option Unresumable :=
  if filename = "" ∨ retained.contains filename then none else some (.fileNotRetained filename)

/-- Checks a set against the transactions that the server knows and those that it has purged. -/
def checkGtidSet (requested known purged : GtidSet) : Option Unresumable :=
  if requested.isEmpty then none
  else if known.isEmpty then some .noTransactionsKnown
  else
    let completed := GtidSet.fixRestored known requested
    if completed.isContainedWithin known then
      let outstanding := known.subtract completed
      let available := outstanding.subtract purged
      if outstanding = available then none else some (.purged (outstanding.subtract available))
    else some (.notContained completed known)

/-- Checks a position; `none` when it can be served. -/
def check (o : Offset) (server : RetainedLog) : Option Unresumable :=
  match o with
  | .binlog filename _ => checkFile filename server.logFiles
  | .gtid set => checkGtidSet set server.known server.purged

/-- The check as a fault. -/
def ensure (o : Offset) (server : RetainedLog) : Outcome Unit :=
  match check o server with
  | none => .ok ()
  | some u => .error (u.toFault o)

end Resume
end Changefeed
