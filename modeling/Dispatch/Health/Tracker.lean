import Dispatch.Config
import Dispatch.Invoker

/-!
# Health of one invoker

A tracker follows the heartbeats of one invoker. A heartbeat makes the invoker healthy from any
state, missed heartbeats only ever make it worse, and a report of shutdown or an operator takes it
offline. The tracker never reads a clock: every step is told the time.
-/

set_option autoImplicit false

namespace Dispatch

/-- How many missed heartbeats mean what. -/
structure Thresholds where
  /-- Expected time between two heartbeats. -/
  interval : Duration
  unhealthyAfter : UInt32
  unresponsiveAfter : UInt32
deriving DecidableEq

/-- The health that a number of missed heartbeats means. -/
def Thresholds.health (t : Thresholds) (missed : Nat) : Health :=
  if t.unresponsiveAfter.toNat ≤ missed then .unresponsive
  else if t.unhealthyAfter.toNat ≤ missed then .unhealthy
  else .healthy

def HealthSettings.thresholds (s : HealthSettings) : Thresholds :=
  ⟨s.heartbeatInterval, s.unhealthyAfter, s.unresponsiveAfter⟩

/-- How bad a state of health is. -/
def Health.severity : Health → Nat
  | .healthy => 0
  | .unhealthy => 1
  | .unresponsive => 2
  | .offline => 3

/-- What is known of one invoker. -/
structure HeartbeatTracker where
  status : Health
  thresholds : Thresholds
  lastHeartbeat : Option Instant
  lastUserAction : Option UInt64
deriving DecidableEq

namespace HeartbeatTracker

/-- An invoker without a heartbeat is offline. -/
def new (thresholds : Thresholds) : HeartbeatTracker := ⟨.offline, thresholds, none, none⟩

/-- Takes in a heartbeat. -/
def beat (t : HeartbeatTracker) (now : Instant) : InvokerStatus → HeartbeatTracker
  | .up => { t with status := .healthy, lastHeartbeat := some now }
  | .shuttingDown => { t with status := .offline, lastHeartbeat := none }

/-- Whole heartbeat intervals since the last heartbeat, as a 32-bit word; an interval below a
millisecond counts as one. -/
def missed (t : HeartbeatTracker) (now : Instant) : Nat :=
  match t.lastHeartbeat with
  | none => 0
  | some last => min (now.millisSince last / max t.thresholds.interval.millis 1) Numeral.maxWord32

/-- Counts missed heartbeats; only a worse health replaces the present one. -/
def evaluate (t : HeartbeatTracker) (now : Instant) : HeartbeatTracker :=
  if t.status = .offline then t
  else
    let derived := t.thresholds.health (t.missed now)
    if t.status.severity < derived.severity then { t with status := derived } else t

/-- An operator takes the invoker out. -/
def takeOffline (t : HeartbeatTracker) : HeartbeatTracker :=
  { t with status := .offline, lastHeartbeat := none }

/-- A user's activation ended on the invoker; the latest such time is kept. -/
def recordUserAction (t : HeartbeatTracker) (time : UInt64) : HeartbeatTracker :=
  { t with
    lastUserAction := some (match t.lastUserAction with
      | none => time
      | some before => max before time) }

end HeartbeatTracker

end Dispatch
