import Dispatch.Table
import Dispatch.Text.Utf8

/-!
# Message bus

Topics are bounded queues, each with one receiver that is handed out once. A topic comes into
being when it is first used from either side, so messages that were published before anyone
subscribed wait for the subscriber.
-/

set_option autoImplicit false

namespace Dispatch

/-- Where a topic's receiver is. -/
inductive Receiver where
  /-- Nobody has subscribed yet. -/
  | unclaimed
  | held
  | dropped
deriving DecidableEq, Repr

/-- A queue of messages, oldest first. -/
structure Topic where
  queue : List Bytes
  receiver : Receiver
deriving DecidableEq, Repr

namespace Topic

def new : Topic := ⟨[], .unclaimed⟩

end Topic

/-- Why the bus refuses. -/
inductive BusFault where
  | queueFull (topic : String)
  | closed (topic : String)
  | alreadySubscribed (topic : String)
deriving DecidableEq, Repr

def BusFault.message : BusFault → String
  | .queueFull topic => "topic " ++ topic ++ " is full"
  | .closed topic => "topic " ++ topic ++ " is closed"
  | .alreadySubscribed topic => "topic " ++ topic ++ " already has a subscriber"

/-- All topics in use, and how many messages each may hold. -/
structure Bus where
  capacity : Nat
  topics : Table String Topic
deriving DecidableEq, Repr

namespace Bus

/-- The capacity of a bus that asks for none. -/
def standardCapacity : Nat := 1024

/-- A topic holds at least one message. -/
def new (capacity : Nat) : Bus := ⟨max capacity 1, []⟩

/-- A topic as it stands, new if it was never used. -/
def topic (b : Bus) (name : String) : Topic := (Table.get? name b.topics).getD .new

def put (b : Bus) (name : String) (t : Topic) : Bus :=
  { b with topics := Table.set name t b.topics }

/-- Appends a message to a topic, unless its receiver is gone or its queue is full. -/
def publish (b : Bus) (name : String) (message : Bytes) : Except BusFault Bus :=
  let t := b.topic name
  if t.receiver = .dropped then .error (.closed name)
  else if b.capacity ≤ t.queue.length then .error (.queueFull name)
  else .ok (b.put name { t with queue := t.queue ++ [message] })

/-- Hands out a topic's receiver. -/
def subscribe (b : Bus) (name : String) : Except BusFault Bus :=
  let t := b.topic name
  if t.receiver = .unclaimed then .ok (b.put name { t with receiver := .held })
  else .error (.alreadySubscribed name)

/-- Whether a topic's receiver was handed out and is still there. -/
def isHeld (b : Bus) (name : String) : Bool := (b.topic name).receiver = .held

/-- Takes the oldest message of a topic. -/
def receive? (b : Bus) (name : String) : Option (Bytes × Bus) :=
  let t := b.topic name
  match t.queue with
  | [] => none
  | message :: rest => some (message, b.put name { t with queue := rest })

/-- Drops a topic's receiver, and the messages with it. -/
def drop (b : Bus) (name : String) : Bus := b.put name ⟨[], .dropped⟩

end Bus

end Dispatch
