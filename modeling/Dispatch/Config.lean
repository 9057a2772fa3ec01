import Dispatch.Json.Record
import Dispatch.Time.Notation
import Dispatch.Toml.Document
import Dispatch.Toml.Printer

/-!
# Configuration

The settings of the controller in three sections. Every section and every field has a default, so
the empty text is a configuration. `Config.ofText` reads and validates; `Config.text?` writes.
-/

set_option autoImplicit false

namespace Dispatch

open Json (Codec Field)

/-- A duration as a string in compact notation. -/
def Duration.codec : Codec Duration :=
  Codec.string.refine
    (fun s =>
      match Duration.ofString? s with
      | some d => .ok d
      | none => .error (.invalidDuration s))
    Duration.text

/-- Placement and accounting. -/
structure BalancerSettings where
  /-- Share of the fleet, from its end, that serves blackbox actions. -/
  blackboxFraction : Binary64
  /-- How far reservations may exceed an invoker's memory. -/
  overProvision : Binary64
  /-- Added to an action's time limit before its activation is timed out. -/
  grace : Duration
  /-- How many positions one placement may probe; zero stands for all. -/
  maxProbes : UInt64
deriving DecidableEq

/-- How heartbeats decide on health. -/
structure HealthSettings where
  heartbeatInterval : Duration
  /-- Heartbeats missed before an invoker is unhealthy. -/
  unhealthyAfter : UInt32
  /-- Heartbeats missed before an invoker is unresponsive. -/
  unresponsiveAfter : UInt32
  /-- How often missed heartbeats are counted. -/
  sweepInterval : Duration
deriving DecidableEq

/-- What limits an action may ask for. -/
structure LimitBounds where
  minMemory : UInt64
  maxMemory : UInt64
  minTimeout : Duration
  maxTimeout : Duration
deriving DecidableEq

namespace BalancerSettings

def standard : BalancerSettings := ⟨.ofDecimal false 1 (-1), .one, .ofSecs 60, 0⟩

def codec : Codec BalancerSettings :=
  Codec.record "BalancerConfig"
    [.defaulted "blackbox_fraction" .float standard.blackboxFraction,
      .defaulted "over_provision_factor" .float standard.overProvision,
      .defaulted "timeout_grace" Duration.codec standard.grace,
      .defaulted "max_probes" (.word64Named "usize") standard.maxProbes]
    (fun (fraction, factor, grace, probes, _) => ⟨fraction, factor, grace, probes⟩)
    (fun b => (b.blackboxFraction, b.overProvision, b.grace, b.maxProbes, ()))

end BalancerSettings

namespace HealthSettings

def standard : HealthSettings := ⟨.ofSecs 1, 3, 10, .ofSecs 1⟩

def codec : Codec HealthSettings :=
  Codec.record "HealthSettings"
    [.defaulted "heartbeat_interval" Duration.codec standard.heartbeatInterval,
      .defaulted "unhealthy_after_missed" .word32 standard.unhealthyAfter,
      .defaulted "unresponsive_after_missed" .word32 standard.unresponsiveAfter,
      .defaulted "sweep_interval" Duration.codec standard.sweepInterval]
    (fun (interval, unhealthy, unresponsive, sweep, _) =>
      ⟨interval, unhealthy, unresponsive, sweep⟩)
    (fun h => (h.heartbeatInterval, h.unhealthyAfter, h.unresponsiveAfter, h.sweepInterval, ()))

end HealthSettings

namespace LimitBounds

def standard : LimitBounds := ⟨128, 512, .ofMillis 100, .ofSecs 300⟩

def codec : Codec LimitBounds :=
  Codec.record "LimitsConfig"
    [.defaulted "min_memory_mb" .word64 standard.minMemory,
      .defaulted "max_memory_mb" .word64 standard.maxMemory,
      .defaulted "min_timeout" Duration.codec standard.minTimeout,
      .defaulted "max_timeout" Duration.codec standard.maxTimeout]
    (fun (minMemory, maxMemory, minTimeout, maxTimeout, _) =>
      ⟨minMemory, maxMemory, minTimeout, maxTimeout⟩)
    (fun l => (l.minMemory, l.maxMemory, l.minTimeout, l.maxTimeout, ()))

end LimitBounds

/-- The settings of the controller. -/
structure Config where
  balancer : BalancerSettings
  health : HealthSettings
  limits : LimitBounds
deriving DecidableEq

namespace Config

def standard : Config := ⟨.standard, .standard, .standard⟩

def codec : Codec Config :=
  Codec.record "ControllerConfig"
    [.defaulted "balancer" BalancerSettings.codec .standard,
      .defaulted "health" HealthSettings.codec .standard,
      .defaulted "limits" LimitBounds.codec .standard]
    (fun (balancer, health, limits, _) => ⟨balancer, health, limits⟩)
    (fun c => (c.balancer, c.health, c.limits, ()))

/-- A setting outside its range. -/
inductive Violation where
  | blackboxFraction (value : Binary64)
  | overProvision (value : Binary64)
  | unhealthyAfterNone
  | thresholdsInverted (unresponsive unhealthy : UInt32)
  | heartbeatIntervalZero
  | memoryInverted
  | timeoutsInverted
deriving DecidableEq

namespace Violation

/-- The setting that is named. -/
def field : Violation → String
  | .blackboxFraction _ => "balancer.blackbox_fraction"
  | .overProvision _ => "balancer.over_provision_factor"
  | .unhealthyAfterNone => "health.unhealthy_after_missed"
  | .thresholdsInverted _ _ => "health.unresponsive_after_missed"
  | .heartbeatIntervalZero => "health.heartbeat_interval"
  | .memoryInverted => "limits.min_memory_mb"
  | .timeoutsInverted => "limits.min_timeout"

def reason : Violation → String
  | .blackboxFraction x => FloatStyle.plain.text x ++ " is not within 0.0..=1.0"
  | .overProvision x => FloatStyle.plain.text x ++ " must be at least 1.0"
  | .unhealthyAfterNone => "must be at least 1"
  | .thresholdsInverted unresponsive unhealthy =>
    toString unresponsive.toNat ++ " must exceed unhealthy_after_missed (" ++
      toString unhealthy.toNat ++ ")"
  | .heartbeatIntervalZero => "must be non-zero"
  | .memoryInverted => "exceeds max_memory_mb"
  | .timeoutsInverted => "exceeds max_timeout"

def message (v : Violation) : String :=
  "invalid config value for " ++ v.field ++ ": " ++ v.reason

end Violation

def isFraction (x : Binary64) : Bool := (Binary64.zero false).le x && x.le .one

/-- The first setting outside its range, if there is one. -/
def violation? (c : Config) : Option Violation :=
  let b := c.balancer
  let h := c.health
  let l := c.limits
  if !isFraction b.blackboxFraction then some (.blackboxFraction b.blackboxFraction)
  else if !Binary64.one.le b.overProvision then some (.overProvision b.overProvision)
  else if h.unhealthyAfter = 0 then some .unhealthyAfterNone
  else if h.unresponsiveAfter ≤ h.unhealthyAfter then
    some (.thresholdsInverted h.unresponsiveAfter h.unhealthyAfter)
  else if h.heartbeatInterval.isZero then some .heartbeatIntervalZero
  else if l.maxMemory < l.minMemory then some .memoryInverted
  else if l.maxTimeout < l.minTimeout then some .timeoutsInverted
  else none

/-- Why a text is no configuration. -/
inductive Fault where
  /-- The text is no TOML document. -/
  | malformed
  | mismatch (cause : Json.Mismatch)
  | violation (cause : Violation)
deriving DecidableEq

/-- A record written as a list may have more items than the record has fields. -/
def scope : Json.Scope := ⟨Json.deepest, true⟩

/-- Reads a configuration without checking the ranges of its settings. -/
def parse (text : List Char) : Except Fault Config :=
  match Toml.Document.ofText? text with
  | none => .error .malformed
  | some members =>
    match codec.read scope (.object 0 (Toml.memberNodes members) .closed) with
    | .ok c => .ok c
    | .error (.mismatch cause) => .error (.mismatch cause)
    | .error (.malformed _) => .error .malformed

/-- Reads a configuration. -/
def ofText (text : List Char) : Except Fault Config := do
  let c ← parse text
  match c.violation? with
  | none => return c
  | some v => throw (.violation v)

/-- Writes a configuration, unless it has an integer outside the range of TOML. -/
def text? (c : Config) : Option (List Char) := Toml.write? (codec.write c)

/-- Equality by value: the floats of two settings are compared as numbers. -/
def sameValue (c d : Config) : Bool :=
  c.balancer.blackboxFraction.sameValue d.balancer.blackboxFraction &&
    c.balancer.overProvision.sameValue d.balancer.overProvision &&
    c.balancer.grace = d.balancer.grace && c.balancer.maxProbes = d.balancer.maxProbes &&
    c.health = d.health && c.limits = d.limits

end Config

end Dispatch
