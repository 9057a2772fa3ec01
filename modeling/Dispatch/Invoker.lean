import Dispatch.Json.Record

/-!
# Invokers

What is known and said about the machines that run activations: their ordinals, the pool each
belongs to, their health, the capacity account of each, and the heartbeats they send.
-/

set_option autoImplicit false

namespace Dispatch

open Json (Codec Field Value)

/-- The ordinal of an invoker. -/
structure InvokerId where
  ordinal : UInt64
deriving DecidableEq, Repr, Inhabited

namespace InvokerId

/-- The topic that carries the activations of an invoker; it is also how an invoker is named. -/
def topic (id : InvokerId) : String := "invoker" ++ Numeral.text id.ordinal.toNat

def codec : Codec InvokerId := (Codec.word64Named "usize").map InvokerId.mk InvokerId.ordinal

end InvokerId

/-- The fleet is parted by how far the code that an action runs is trusted. -/
inductive Pool where
  | managed
  | blackbox
deriving DecidableEq, Repr, Inhabited

namespace Pool

def name : Pool → String
  | .managed => "managed"
  | .blackbox => "blackbox"

def codec : Codec Pool := Codec.variants [("managed", .managed), ("blackbox", .blackbox)] name

end Pool

/-- Health of an invoker as its heartbeats show it. -/
inductive Health where
  | healthy
  | unhealthy
  | unresponsive
  | offline
deriving DecidableEq, Repr, Inhabited

namespace Health

/-- Only healthy invokers get new activations. -/
def isUsable (h : Health) : Bool := h = .healthy

def name : Health → String
  | .healthy => "healthy"
  | .unhealthy => "unhealthy"
  | .unresponsive => "unresponsive"
  | .offline => "offline"

def codec : Codec Health :=
  Codec.variants [("healthy", .healthy), ("unhealthy", .unhealthy),
    ("unresponsive", .unresponsive), ("offline", .offline)] name

end Health

/-- Memory and container slots of an invoker, in total and in use. -/
structure Capacity where
  totalMemory : UInt64
  usedMemory : UInt64
  totalSlots : UInt32
  usedSlots : UInt32
deriving DecidableEq, Repr, Inhabited

namespace Capacity

/-- Nothing there and nothing in use. -/
def none : Capacity := ⟨0, 0, 0, 0⟩

/-- These totals, nothing in use. -/
def unused (memory : UInt64) (slots : UInt32) : Capacity := ⟨memory, 0, slots, 0⟩

def codec : Codec Capacity :=
  Codec.record "InvokerCapacity"
    [.required "total_memory_mb" .word64, .required "used_memory_mb" .word64,
      .required "total_slots" .word32, .required "used_slots" .word32]
    (fun (total, used, slots, inUse, _) => ⟨total, used, slots, inUse⟩)
    (fun c => (c.totalMemory, c.usedMemory, c.totalSlots, c.usedSlots, ()))

end Capacity

/-- One row of the listing of invokers. -/
structure InvokerInfo where
  id : InvokerId
  pool : Pool
  health : Health
  capacity : Capacity
  /-- When the last activation of a user completed on the invoker. -/
  lastUserAction : Option UInt64
deriving DecidableEq, Repr

def InvokerInfo.codec : Codec InvokerInfo :=
  Codec.record "InvokerInfo"
    [.required "id" InvokerId.codec, .required "pool" Pool.codec,
      .required "health" Health.codec, .required "capacity" Capacity.codec,
      .optional "last_user_action_ms" .word64]
    (fun (id, pool, health, capacity, last, _) => ⟨id, pool, health, capacity, last⟩)
    (fun i => (i.id, i.pool, i.health, i.capacity, i.lastUserAction, ()))

/-- What an invoker says of itself. -/
inductive InvokerStatus where
  | up
  | shuttingDown
deriving DecidableEq, Repr, Inhabited

namespace InvokerStatus

def name : InvokerStatus → String
  | .up => "up"
  | .shuttingDown => "shutting_down"

def codec : Codec InvokerStatus :=
  Codec.variants [("up", .up), ("shutting_down", .shuttingDown)] name

end InvokerStatus

/-- An invoker's regular report. -/
structure Heartbeat where
  invoker : InvokerId
  capacity : Capacity
  /-- When the report was made, in milliseconds of the invoker's calendar. -/
  timestamp : UInt64
  status : InvokerStatus
deriving DecidableEq, Repr

namespace Heartbeat

/-- The topic that carries heartbeats. -/
def topic : String := "health"

def codec : Codec Heartbeat :=
  Codec.record "Heartbeat"
    [.required "invoker" InvokerId.codec, .required "capacity" Capacity.codec,
      .required "timestamp_ms" .word64, .required "status" InvokerStatus.codec]
    (fun (invoker, capacity, timestamp, status, _) => ⟨invoker, capacity, timestamp, status⟩)
    (fun h => (h.invoker, h.capacity, h.timestamp, h.status, ()))

end Heartbeat

end Dispatch
