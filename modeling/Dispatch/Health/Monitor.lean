import Dispatch.Health.Tracker
import Dispatch.Table

/-!
# Health of the fleet

The monitor holds a tracker for every invoker that ever sent a heartbeat. Each change of an
invoker's health is a transition, numbered one after the other; the number of transitions is the
monitor's version. A feed is what a subscriber sees of them.
-/

set_option autoImplicit false

namespace Dispatch

/-- A change of an invoker's health. -/
structure Transition where
  invoker : InvokerId
  before : Health
  after : Health
  /-- The monitor's version once it has happened. -/
  version : Nat
deriving DecidableEq, Repr

/-- The health of every invoker that ever sent a heartbeat. -/
structure HealthMonitor where
  settings : HealthSettings
  trackers : Table InvokerId HeartbeatTracker
  /-- How many transitions there have been. The counter behind it is a 64-bit word, so it is this
  number for the first `2 ^ 64 - 1` of them. -/
  version : Nat
deriving DecidableEq

namespace HealthMonitor

def new (settings : HealthSettings) : HealthMonitor := ⟨settings, [], 0⟩

def tracker? (m : HealthMonitor) (id : InvokerId) : Option HeartbeatTracker :=
  Table.get? id m.trackers

/-- The tracker of an invoker, a new one at its first heartbeat. -/
def trackerOrNew (m : HealthMonitor) (id : InvokerId) : HeartbeatTracker :=
  (m.tracker? id).getD (.new m.settings.thresholds)

/-- Current health; an unknown invoker is offline. -/
def health (m : HealthMonitor) (id : InvokerId) : Health :=
  match m.tracker? id with
  | some t => t.status
  | none => .offline

def lastUserAction (m : HealthMonitor) (id : InvokerId) : Option UInt64 :=
  (m.tracker? id).bind (·.lastUserAction)

/-- Replaces an invoker's tracker; a change of health is a transition. -/
def replace (m : HealthMonitor) (id : InvokerId) (before : Health) (tracker : HeartbeatTracker) :
    HealthMonitor × Option Transition :=
  let trackers := Table.set id tracker m.trackers
  if before = tracker.status then ({ m with trackers }, none)
  else
    let version := m.version + 1
    ({ m with trackers, version }, some ⟨id, before, tracker.status, version⟩)

/-- Takes in a heartbeat that came at `now`. -/
def beat (m : HealthMonitor) (id : InvokerId) (status : InvokerStatus) (now : Instant) :
    HealthMonitor × Option Transition :=
  let t := m.trackerOrNew id
  m.replace id t.status (t.beat now status)

/-- Counts the missed heartbeats of one invoker. -/
def evaluate (now : Instant) (m : HealthMonitor) (id : InvokerId) :
    HealthMonitor × Option Transition :=
  match m.tracker? id with
  | none => (m, none)
  | some t => m.replace id t.status (t.evaluate now)

/-- Counts the missed heartbeats of some invokers, one after the other. -/
def evaluateAll (now : Instant) : List InvokerId → HealthMonitor → HealthMonitor × List Transition
  | [], m => (m, [])
  | id :: rest, m =>
    let (m, transition) := evaluate now m id
    let (m, transitions) := evaluateAll now rest m
    (m, transition.toList ++ transitions)

/-- Counts the missed heartbeats of every invoker. -/
def sweep (m : HealthMonitor) (now : Instant) : HealthMonitor × List Transition :=
  evaluateAll now (m.trackers.map (·.1)) m

/-- An operator takes an invoker out; it comes back with its next heartbeat. -/
def remove (m : HealthMonitor) (id : InvokerId) : HealthMonitor × Option Transition :=
  match m.tracker? id with
  | none => (m, none)
  | some t => m.replace id t.status t.takeOffline

/-- Notes that a user's activation ended on a known invoker. -/
def recordUserAction (m : HealthMonitor) (id : InvokerId) (time : UInt64) : HealthMonitor :=
  match m.tracker? id with
  | none => m
  | some t => { m with trackers := Table.set id (t.recordUserAction time) m.trackers }

end HealthMonitor

/-- What a subscriber has not yet read. Transitions that it is too slow for are counted and lost,
oldest first. -/
structure Feed where
  unread : List Transition
  lost : Nat
deriving DecidableEq, Repr

namespace Feed

/-- A feed keeps this many transitions. -/
def capacity : Nat := 256

def empty : Feed := ⟨[], 0⟩

def push (f : Feed) (t : Transition) : Feed :=
  if f.unread.length < capacity then { f with unread := f.unread ++ [t] }
  else ⟨f.unread.drop 1 ++ [t], f.lost + 1⟩

def pushAll (f : Feed) (ts : List Transition) : Feed := ts.foldl push f

/-- Reads all there is: how many were lost, if any, and what is left. -/
def drain (f : Feed) : Feed × List Nat × List Transition :=
  (empty, if f.lost = 0 then [] else [f.lost], f.unread)

end Feed

/-- A monitor and its subscriber, if there is one: every transition goes to the feed. -/
structure Watched where
  monitor : HealthMonitor
  feed : Option Feed
deriving DecidableEq

namespace Watched

def new (settings : HealthSettings) : Watched := ⟨.new settings, none⟩

/-- Starts a new subscription, in place of the one before it. -/
def subscribe (w : Watched) : Watched := { w with feed := some .empty }

/-- Takes over a monitor that has moved, and feeds its transitions. -/
def follow (w : Watched) (monitor : HealthMonitor) (ts : List Transition) : Watched :=
  ⟨monitor, w.feed.map (·.pushAll ts)⟩

def beat (w : Watched) (id : InvokerId) (status : InvokerStatus) (now : Instant) :
    Watched × Option Transition :=
  let (monitor, t) := w.monitor.beat id status now
  (w.follow monitor t.toList, t)

def remove (w : Watched) (id : InvokerId) : Watched × Option Transition :=
  let (monitor, t) := w.monitor.remove id
  (w.follow monitor t.toList, t)

def sweep (w : Watched) (now : Instant) : Watched × List Transition :=
  let (monitor, ts) := w.monitor.sweep now
  (w.follow monitor ts, ts)

/-- What the subscriber reads: how many transitions it lost, if any, and those that are left. -/
def drain (w : Watched) : Watched × Option (List Nat × List Transition) :=
  match w.feed with
  | none => (w, none)
  | some f =>
    let (feed, lost, ts) := f.drain
    ({ w with feed := some feed }, some (lost, ts))

end Watched

/-! ## Sweeping on a timer -/

/-- A loop that sweeps each time the timer has run for the interval. -/
structure SweepLoop where
  timer : SleepTimer
  watched : Watched
  /-- What is left until the next sweep, in nanoseconds of the timer. -/
  remaining : Nat

namespace SweepLoop

def start (timer : SleepTimer) (watched : Watched) : SweepLoop :=
  ⟨timer, watched, (timer.lasts watched.monitor.settings.sweepInterval).nanos⟩

/-- Moves the timer. The heartbeats' clock stands at `now`, so that the sweeps of one move after
the first find nothing new. -/
def advance (s : SweepLoop) (now : Instant) (span : Nat) : SweepLoop :=
  if span < s.remaining then { s with remaining := s.remaining - span }
  else
    let (watched, _) := s.watched.sweep now
    let interval := (s.timer.lasts watched.monitor.settings.sweepInterval).nanos
    { s with watched, remaining := interval - (span - s.remaining) % max interval 1 }

end SweepLoop

end Dispatch
