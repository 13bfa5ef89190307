import PipelineExpansion.Diagnostic

/-!
# Limits and what is used of them

The evaluation of a template is charged: every node costs an event, and the texts it makes cost their
bytes. Charges are recorded before they are held against the limit, so what was used up is known after a
failure too.
-/

namespace PipelineExpansion.Template

/-- The ceilings of a load. For `maxFiles` and `maxResultLength`, zero stands for no ceiling. -/
structure Limits where
  maxDepth : Nat := 100
  maxEvents : Nat := 1000000
  maxBytes : Nat := 10485760
  maxFiles : Nat := 0
  maxResultLength : Nat := 10485760
deriving DecidableEq, Repr

/-- What one template has used up. -/
structure Usage where
  events : Nat := 0
  bytes : Nat := 0
deriving DecidableEq, Repr

/-- A step whose use of events and bytes is counted. -/
abbrev Charged (α : Type) := ExceptT Diagnostic (StateM Usage) α

namespace Limits

/-- The diagnostic of too many events. -/
def eventsExceeded : Diagnostic := .limit "Maximum number of template evaluation events exceeded"

/-- The diagnostic of too many bytes. -/
def bytesExceeded (l : Limits) : Diagnostic :=
  .limit ("Maximum template size of " ++ toString l.maxBytes ++ " bytes exceeded")

/-- The diagnostic of too many files. -/
def filesExceeded (l : Limits) : Diagnostic :=
  .limit ("Maximum file count of " ++ toString l.maxFiles ++ " exceeded.")

/-- The diagnostic of collections nested too deeply. -/
def depthExceeded (l : Limits) : Diagnostic :=
  .limit ("Maximum object depth of " ++ toString l.maxDepth ++ " exceeded")

/-- Charges events. -/
def chargeEvents (l : Limits) (count : Nat) : Charged Unit := do
  modify fun u => { u with events := u.events + count }
  if l.maxEvents < (← get).events then throw eventsExceeded

/-- Charges bytes. -/
def chargeBytes (l : Limits) (count : Nat) : Charged Unit := do
  modify fun u => { u with bytes := u.bytes + count }
  if l.maxBytes < (← get).bytes then throw l.bytesExceeded

/-- Charges a number of events that a caller gives. The counter has 64 bits and starts again from zero beyond
them, where evaluation never gets, which charges its nodes one by one. -/
def addEvents (l : Limits) (count : Nat) : Charged Unit := do
  modify fun u => { u with events := (u.events + count) % Nat.pow 2 64 }
  l.chargeEvents 0

/-- Charges a number of bytes that a caller gives, in a counter of 64 bits. -/
def addBytes (l : Limits) (count : Nat) : Charged Unit := do
  modify fun u => { u with bytes := (u.bytes + count) % Nat.pow 2 64 }
  l.chargeBytes 0

/-- Charges a node at a depth. -/
def enter (l : Limits) (depth : Nat) : Charged Unit := do
  if l.maxDepth < depth then throw l.depthExceeded
  l.chargeEvents 1

end Limits
end PipelineExpansion.Template
