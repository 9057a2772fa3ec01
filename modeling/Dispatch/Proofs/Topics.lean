import Dispatch.Activation
import Dispatch.Bus
import Mathlib.Logic.Function.Basic

/-!
# Laws of topics

Every invoker has a topic of its own (`topic_injective`), and none of them is the topic of
completions or that of heartbeats. A message that the bus accepts goes to the end of one queue
(`publish_eq_ok_iff`), and no other topic sees it.
-/

set_option autoImplicit false

namespace Dispatch

/-- Different numbers have different numerals. -/
theorem Numeral.text_injective : Function.Injective Numeral.text := by
  intro m n same
  have digits : Nat.toDigits 10 m = Nat.toDigits 10 n := String.ofList_inj.mp same
  rw [← Nat.ofDigitChars_ten_toDigits (n := m), digits, Nat.ofDigitChars_ten_toDigits]

namespace InvokerId

/-- The topic of an invoker is a word and a numeral. -/
theorem toList_topic (id : InvokerId) :
    id.topic.toList = "invoker".toList ++ (Numeral.text id.ordinal.toNat).toList :=
  String.toList_append

/-- **Different invokers have different topics.** -/
theorem topic_injective : Function.Injective topic := by
  intro i j same
  have letters := congrArg String.toList same
  rw [toList_topic, toList_topic, List.append_cancel_left_eq] at letters
  have ordinals := Numeral.text_injective (String.toList_inj.mp letters)
  obtain ⟨i⟩ := i
  obtain ⟨j⟩ := j
  rw [mk.injEq]
  exact UInt64.toNat_inj.mp ordinals

theorem head?_topic (id : InvokerId) : id.topic.toList.head? = some 'i' := by
  rw [toList_topic]
  rfl

theorem topic_ne_completion (id : InvokerId) : id.topic ≠ Completion.topic := by
  intro same
  have first := id.head?_topic
  rw [same] at first
  exact absurd first (by decide)

theorem topic_ne_heartbeat (id : InvokerId) : id.topic ≠ Heartbeat.topic := by
  intro same
  have first := id.head?_topic
  rw [same] at first
  exact absurd first (by decide)

end InvokerId

namespace Bus

theorem topic_put (b : Bus) (name other : String) (t : Topic) :
    (b.put name t).topic other = if name = other then t else b.topic other := by
  simp only [put, topic, Table.get?_set]
  split <;> rfl

/-- **A message is accepted where the receiver is there and the queue has room; it goes to the
end.** -/
theorem publish_eq_ok_iff {b after : Bus} {name : String} {message : Bytes} :
    b.publish name message = .ok after ↔
      ((b.topic name).receiver ≠ .dropped ∧ (b.topic name).queue.length < b.capacity) ∧
        after = b.put name { b.topic name with queue := (b.topic name).queue ++ [message] } := by
  unfold publish
  by_cases gone : (b.topic name).receiver = .dropped
  · simp [gone]
  · by_cases full : b.capacity ≤ (b.topic name).queue.length
    · simp [gone, full, Nat.not_lt.mpr full]
    · simp [gone, full, Nat.not_le.mp full, eq_comm]

end Bus

end Dispatch
