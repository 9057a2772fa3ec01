import Dispatch.Proofs.GatewayRuns
import Dispatch.Proofs.Json.Records

/-!
# Messages underway

A message on a topic is `about` an activation if whoever serves the topic reads it so: on the topic
of completions a completion of it, on the topic of an invoker the activation itself. `copies` counts
the messages on the bus that are about one activation. Only who publishes adds to them
(`copies_publish`), and who takes messages takes them away.
-/

set_option autoImplicit false

namespace Dispatch

/-! ## What is read of an identifier -/

/-- However the rest of it is read, a message is read with its own identifier. -/
theorem ActivationMessage.id_of_decode {m m' : ActivationMessage}
    (decoded : codec.decode (codec.encode m) = .ok m') : m'.id = m.id := by
  have own : ∀ scope, ActivationId.codec.read scope (.string (.ok m.id.text)) = .ok m.id :=
    fun _ => rfl
  obtain ⟨row, rfl⟩ := Json.Codec.first_of_decode own decoded
  rfl

/-- However the rest of it is read, a completion is read with its own identifier. -/
theorem Completion.id_of_decode {c c' : Completion}
    (decoded : codec.decode (codec.encode c) = .ok c') : c'.id = c.id := by
  have own : ∀ scope, ActivationId.codec.read scope (.string (.ok c.id.text)) = .ok c.id :=
    fun _ => rfl
  obtain ⟨row, rfl⟩ := Json.Codec.first_of_decode own decoded
  rfl

/-! ## Sums over a table -/

namespace Table

variable {κ α : Type}

/-- The sum of a weight over all entries, where the weight may depend on the key. -/
def tally (weight : κ → α → Nat) : Table κ α → Nat
  | [] => 0
  | (key, a) :: rest => weight key a + tally weight rest

variable [DecidableEq κ]

/-- An update puts the weight of the new entry in the place of that of the old one. -/
theorem tally_set (weight : κ → α → Nat) (key : κ) (value : α) (t : Table κ α) :
    tally weight (set key value t) + ((get? key t).map (weight key)).getD 0 =
      tally weight t + weight key value := by
  induction t with
  | nil => simp [set, get?, tally]
  | cons entry rest ih =>
      obtain ⟨k, a⟩ := entry
      by_cases same : k = key
      · subst same
        simp only [set, get?, if_true, tally, Option.map_some, Option.getD_some]
        omega
      · simp only [set, get?, if_neg same, tally]
        omega

end Table

/-! ## Messages on the bus -/

/-- The activation that a message is about, as it is read where its topic leads. -/
def about (name : String) (text : Bytes) : Option ActivationId :=
  if name = Completion.topic then (Completion.codec.decode text).toOption.map (·.id)
  else if name = Heartbeat.topic then none
  else (ActivationMessage.codec.decode text).toOption.map (·.id)

/-- Whatever stands on the topic of heartbeats, it is about no activation. -/
theorem about_heartbeat (text : Bytes) : about Heartbeat.topic text = none := by
  have apart : Heartbeat.topic ≠ Completion.topic := by decide
  rw [about, if_neg apart, if_pos rfl]

theorem about_invoker (id : InvokerId) (text : Bytes) :
    about id.topic text = (ActivationMessage.codec.decode text).toOption.map (·.id) := by
  rw [about, if_neg id.topic_ne_completion, if_neg id.topic_ne_heartbeat]

theorem about_completed (text : Bytes) :
    about Completion.topic text = (Completion.codec.decode text).toOption.map (·.id) := if_pos rfl

/-- A message about an activation names it. -/
theorem id_of_about_message {id : InvokerId} {m : ActivationMessage} {a : ActivationId}
    (told : about id.topic (ActivationMessage.codec.encode m) = some a) : m.id = a := by
  rw [about_invoker] at told
  cases decoded : ActivationMessage.codec.decode (ActivationMessage.codec.encode m) with
  | error f =>
      rw [decoded] at told
      cases told
  | ok m' =>
      rw [decoded] at told
      exact (ActivationMessage.id_of_decode decoded).symm.trans (Option.some.inj told)

/-- A message about a completion names its activation. -/
theorem id_of_about_completion {c : Completion} {a : ActivationId}
    (told : about Completion.topic (Completion.codec.encode c) = some a) : c.id = a := by
  rw [about_completed] at told
  cases decoded : Completion.codec.decode (Completion.codec.encode c) with
  | error f =>
      rw [decoded] at told
      cases told
  | ok c' =>
      rw [decoded] at told
      exact (Completion.id_of_decode decoded).symm.trans (Option.some.inj told)

/-- How many of a topic's messages are about an activation. -/
def mentions (id : ActivationId) (name : String) (queue : List Bytes) : Nat :=
  queue.countP fun text => about name text = some id

theorem mentions_append (id : ActivationId) (name : String) (first second : List Bytes) :
    mentions id name (first ++ second) = mentions id name first + mentions id name second :=
  List.countP_append

theorem mentions_singleton (id : ActivationId) (name : String) (text : Bytes) :
    mentions id name [text] = if about name text = some id then 1 else 0 := by
  by_cases own : about name text = some id <;> simp [mentions, own]

theorem ite_le_ite {p q : Prop} [Decidable p] [Decidable q] (imp : p → q) :
    (if p then 1 else 0) ≤ if q then 1 else 0 := by
  by_cases holds : p
  · exact Nat.le_of_eq (by rw [if_pos holds, if_pos (imp holds)])
  · rw [if_neg holds]
    exact Nat.zero_le _

namespace Bus

variable {id : ActivationId} {b : Bus} {name : String}

/-- How many messages on the bus are about an activation. -/
def copies (id : ActivationId) (b : Bus) : Nat :=
  b.topics.tally fun name t => mentions id name t.queue

/-- The messages of a topic are exchanged for others. -/
theorem copies_put (id : ActivationId) (b : Bus) (name : String) (t : Topic) :
    (b.put name t).copies id + mentions id name (b.topic name).queue =
      b.copies id + mentions id name t.queue := by
  have exchanged := Table.tally_set (fun name t => mentions id name t.queue) name t b.topics
  have old : ((Table.get? name b.topics).map fun t => mentions id name t.queue).getD 0 =
      mentions id name (b.topic name).queue := by
    unfold topic
    cases Table.get? name b.topics <;> rfl
  rwa [old] at exchanged

/-- Whoever leaves a topic no messages but those that it had adds none. -/
theorem copies_put_le {t : Topic} (fewer : t.queue.Sublist (b.topic name).queue) :
    (b.put name t).copies id ≤ b.copies id := by
  have exchanged := b.copies_put id name t
  have le : mentions id name t.queue ≤ mentions id name (b.topic name).queue :=
    fewer.countP_le
  omega

/-- **Who publishes adds one message at most.** -/
theorem copies_publish (id : ActivationId) (b : Bus) (name : String) (text : Bytes) :
    (b.act (.publish name text)).copies id ≤
      b.copies id + if about name text = some id then 1 else 0 := by
  show ((b.publish name text).toOption.getD b).copies id ≤ _
  cases outcome : b.publish name text with
  | error fault => exact Nat.le_add_right _ _
  | ok after =>
      obtain ⟨-, rfl⟩ := publish_eq_ok_iff.mp outcome
      have exchanged :=
        b.copies_put id name { b.topic name with queue := (b.topic name).queue ++ [text] }
      rw [mentions_append, mentions_singleton] at exchanged
      show (b.put name _).copies id ≤ _
      omega

/-- Who publishes what is about one activation at most adds a message of that one. -/
theorem copies_publish_of {own : Prop} [Decidable own] {text : Bytes}
    (named : about name text = some id → own) :
    (b.act (.publish name text)).copies id ≤ b.copies id + if own then 1 else 0 :=
  Nat.le_trans (b.copies_publish id name text) (Nat.add_le_add_left (ite_le_ite named) _)

/-- What is about no activation adds none. -/
theorem copies_publish_none {text : Bytes} (none : about name text = none) :
    (b.act (.publish name text)).copies id ≤ b.copies id := by
  have added := b.copies_publish id name text
  rw [none, if_neg nofun] at added
  exact added

theorem copies_subscribe_le (id : ActivationId) (b : Bus) (name : String) :
    (b.act (.subscribe name)).copies id ≤ b.copies id := by
  show ((b.subscribe name).toOption.getD b).copies id ≤ _
  unfold subscribe
  dsimp only
  split
  · exact copies_put_le (List.Sublist.refl _)
  · exact Nat.le_refl _

theorem copies_drop_le (id : ActivationId) (b : Bus) (name : String) :
    (b.act (.drop name)).copies id ≤ b.copies id :=
  copies_put_le (List.nil_sublist _)

theorem copies_receive_le (id : ActivationId) (b : Bus) (name : String) :
    (b.act (.receive name)).copies id ≤ b.copies id := by
  show (((b.receive? name).map (·.2)).getD b).copies id ≤ _
  unfold receive?
  dsimp only
  split
  · exact Nat.le_refl _
  · rename_i message rest queue
    refine copies_put_le ?_
    rw [queue]
    exact List.sublist_cons_self _ _

end Bus

end Dispatch
