import Dispatch.Config
import Dispatch.Action
import Dispatch.Table

/-!
# Store of actions

The store keeps the record of each action as text under its key. It accepts records within its
bounds, and reads them back when they are looked up.
-/

set_option autoImplicit false

namespace Dispatch

/-- What a store was doing, or asked to do, when it failed. -/
inductive StoreStage where
  | opening
  | transaction
  | table
  | reading
  | writing
  | serializing
  | deserializing
  | finding
  | checking
deriving DecidableEq, Repr

/-- Why a store has no answer. -/
structure StoreFault where
  stage : StoreStage
  detail : String
deriving DecidableEq, Repr

namespace StoreFault

/-- What stands before the detail in the wording. -/
def heading : StoreStage → String
  | .opening => "failed to open database: "
  | .transaction => "transaction error: "
  | .table => "table error: "
  | .reading => "read error: "
  | .writing => "write error: "
  | .serializing => "serialization error: "
  | .deserializing => "deserialization error: "
  | .finding => "action not found: "
  | .checking => "invalid action limits: "

def message (f : StoreFault) : String := heading f.stage ++ f.detail

end StoreFault

/-- Limits outside the platform's bounds. -/
inductive LimitFault where
  | memory (asked low high : UInt64)
  | timeout (askedMillis : UInt64) (low high : Duration)
deriving DecidableEq

namespace LimitFault

def detail : LimitFault → String
  | .memory asked low high =>
    "memory " ++ toString asked.toNat ++ " MB is outside " ++ toString low.toNat ++ "..=" ++
      toString high.toNat ++ " MB"
  | .timeout asked low high =>
    "timeout " ++ toString asked.toNat ++ " ms is outside " ++ toString low.millis ++ "..=" ++
      toString high.millis ++ " ms"

def storeFault (f : LimitFault) : StoreFault := ⟨.checking, f.detail⟩

end LimitFault

/-- The first of an action's limits that is outside the bounds. -/
def LimitBounds.fault? (b : LimitBounds) (l : ActionLimits) : Option LimitFault :=
  if l.memory < b.minMemory ∨ b.maxMemory < l.memory then
    some (.memory l.memory b.minMemory b.maxMemory)
  else if l.timeout < b.minTimeout ∨ b.maxTimeout < l.timeout then
    some (.timeout l.timeoutMillis b.minTimeout b.maxTimeout)
  else none

/-- Records by key, and the bounds for new ones. Keys that the medium fails to deliver are listed
with what it says. -/
structure Store where
  bounds : LimitBounds
  records : Table String Bytes
  outages : Table String StoreFault
deriving DecidableEq

namespace Store

def new (bounds : LimitBounds) : Store := ⟨bounds, [], []⟩

/-- The same records under other bounds. -/
def reopen (s : Store) (bounds : LimitBounds) : Store := { s with bounds }

/-- Puts text under a key, whatever it is. -/
def writeRaw (s : Store) (key : String) (text : Bytes) : Store :=
  { s with records := Table.set key text s.records }

/-- Stores a record within the bounds. -/
def put (s : Store) (a : Action) : Except StoreFault Store :=
  match s.bounds.fault? a.limits with
  | some f => .error f.storeFault
  | none => .ok (s.writeRaw a.key (Action.codec.encode a))

/-- Reads the record under a key, if there is one. -/
def find (s : Store) (key : String) : Except StoreFault (Option Action) :=
  match Table.get? key s.outages with
  | some f => .error f
  | none =>
    match Table.get? key s.records with
    | none => .ok none
    | some text =>
      match Action.codec.decode text with
      | .ok a => .ok (some a)
      | .error f => .error ⟨.deserializing, f.message⟩

/-- Reads the record of an action that must be there. -/
def get (s : Store) (name : QualifiedName) : Except StoreFault Action := do
  match ← s.find name.text with
  | some a => return a
  | none => throw ⟨.finding, name.text⟩

end Store

end Dispatch
