import Dispatch.Proofs.GatewayRuns
import Dispatch.Proofs.Topics

/-!
# What a topic delivers

A log of acts on a bus, each with what came of it, is all that its users see. Whatever they do,
what a topic delivered is a beginning of what it accepted, the rest is no longer than the capacity,
and the answers to a publish, to a subscription and to a receiver follow from the log of that topic
alone (`delivers_in_order`). `Turn` lists what one act can do to its topic; `Traces` ties a topic to
its log, and a turn keeps it (`Traces.turn`).
-/

set_option autoImplicit false

namespace Dispatch.Bus

/-! ## Acts and what comes of them -/

/-- What comes of an act. -/
inductive Response where
  | done
  | refused (fault : BusFault)
  | delivered (message : Bytes)
  /-- The receiver finds no message. -/
  | empty
  /-- Nobody holds the receiver that would receive or be dropped. -/
  | unheld
deriving DecidableEq

def Act.topic : Act → String
  | .publish topic _ => topic
  | .subscribe topic => topic
  | .receive topic => topic
  | .drop topic => topic

/-- What a bus does for an act; one that is refused changes nothing. -/
def respond (b : Bus) : Act → Bus × Response
  | .publish topic message =>
    match b.publish topic message with
    | .ok after => (after, .done)
    | .error fault => (b, .refused fault)
  | .subscribe topic =>
    match b.subscribe topic with
    | .ok after => (after, .done)
    | .error fault => (b, .refused fault)
  | .receive topic =>
    if b.isHeld topic then
      match b.receive? topic with
      | some (message, after) => (after, .delivered message)
      | none => (b, .empty)
    else (b, .unheld)
  | .drop topic => if b.isHeld topic then (b.drop topic, .done) else (b, .unheld)

def run (b : Bus) (acts : List Act) : Bus := acts.foldl (fun b act => (b.respond act).1) b

/-- The acts with what came of each. -/
def log : Bus → List Act → List (Act × Response)
  | _, [] => []
  | b, act :: rest => (act, (b.respond act).2) :: log (b.respond act).1 rest

/-- What one act can do to its topic. -/
inductive Turn (capacity : Nat) (t : Topic) : Act → Topic → Response → Prop where
  | accepted {topic : String} {message : Bytes} (there : t.receiver ≠ .dropped)
      (room : t.queue.length < capacity) :
      Turn capacity t (.publish topic message) { t with queue := t.queue ++ [message] } .done
  | closed {topic : String} {message : Bytes} (gone : t.receiver = .dropped) :
      Turn capacity t (.publish topic message) t (.refused (.closed topic))
  | full {topic : String} {message : Bytes} (there : t.receiver ≠ .dropped)
      (full : capacity ≤ t.queue.length) :
      Turn capacity t (.publish topic message) t (.refused (.queueFull topic))
  | handed {topic : String} (unclaimed : t.receiver = .unclaimed) :
      Turn capacity t (.subscribe topic) { t with receiver := .held } .done
  | taken {topic : String} (claimed : t.receiver ≠ .unclaimed) :
      Turn capacity t (.subscribe topic) t (.refused (.alreadySubscribed topic))
  | delivered {topic : String} {message : Bytes} {rest : List Bytes} (held : t.receiver = .held)
      (oldest : t.queue = message :: rest) :
      Turn capacity t (.receive topic) { t with queue := rest } (.delivered message)
  | empty {topic : String} (held : t.receiver = .held) (none : t.queue = []) :
      Turn capacity t (.receive topic) t .empty
  | notReceived {topic : String} (unheld : t.receiver ≠ .held) :
      Turn capacity t (.receive topic) t .unheld
  | dropped {topic : String} (held : t.receiver = .held) :
      Turn capacity t (.drop topic) ⟨[], .dropped⟩ .done
  | notDropped {topic : String} (unheld : t.receiver ≠ .held) :
      Turn capacity t (.drop topic) t .unheld

theorem topic_put_self (b : Bus) (name : String) (t : Topic) : (b.put name t).topic name = t := by
  rw [topic_put, if_pos rfl]

theorem isHeld_iff {b : Bus} {name : String} :
    b.isHeld name = true ↔ (b.topic name).receiver = .held := decide_eq_true_iff

/-- **Every act takes one of these turns at its topic.** -/
theorem turn_respond (b : Bus) (act : Act) :
    Turn b.capacity (b.topic act.topic) act ((b.respond act).1.topic act.topic)
      (b.respond act).2 := by
  cases act with
  | publish name message =>
      simp only [respond, publish, Act.topic]
      by_cases gone : (b.topic name).receiver = .dropped
      · rw [if_pos gone]
        exact .closed gone
      by_cases full : b.capacity ≤ (b.topic name).queue.length
      · rw [if_neg gone, if_pos full]
        exact .full gone full
      · rw [if_neg gone, if_neg full]
        show Turn _ _ _ ((b.put name _).topic name) _
        rw [topic_put_self]
        exact .accepted gone (Nat.not_le.mp full)
  | subscribe name =>
      simp only [respond, subscribe, Act.topic]
      by_cases unclaimed : (b.topic name).receiver = .unclaimed
      · rw [if_pos unclaimed]
        show Turn _ _ _ ((b.put name _).topic name) _
        rw [topic_put_self]
        exact .handed unclaimed
      · rw [if_neg unclaimed]
        exact .taken unclaimed
  | receive name =>
      simp only [respond, Act.topic]
      by_cases held : (b.topic name).receiver = .held
      · rw [if_pos (isHeld_iff.mpr held)]
        cases queue : (b.topic name).queue with
        | nil =>
            simp only [receive?, queue]
            exact .empty held queue
        | cons message rest =>
            simp only [receive?, queue, topic_put_self]
            exact .delivered held queue
      · rw [if_neg fun h => held (isHeld_iff.mp h)]
        exact .notReceived held
  | drop name =>
      simp only [respond, Act.topic]
      by_cases held : (b.topic name).receiver = .held
      · rw [if_pos (isHeld_iff.mpr held)]
        show Turn _ _ _ ((b.put name _).topic name) _
        rw [topic_put_self]
        exact .dropped held
      · rw [if_neg fun h => held (isHeld_iff.mp h)]
        exact .notDropped held

/-- The topic and the capacity decide which turn it is. -/
theorem Turn.unique {capacity : Nat} {t after after' : Topic} {act : Act} {r r' : Response}
    (turn : Turn capacity t act after r) (turn' : Turn capacity t act after' r') :
    after = after' ∧ r = r' := by
  cases turn with
  | accepted there room =>
      cases turn' with
      | accepted => exact ⟨rfl, rfl⟩
      | closed gone => exact absurd gone there
      | full _ full => exact absurd room (Nat.not_lt.mpr full)
  | closed gone =>
      cases turn' with
      | accepted there | full there => exact absurd gone there
      | closed => exact ⟨rfl, rfl⟩
  | full there full =>
      cases turn' with
      | accepted _ room => exact absurd room (Nat.not_lt.mpr full)
      | closed gone => exact absurd gone there
      | full => exact ⟨rfl, rfl⟩
  | handed unclaimed =>
      cases turn' with
      | handed => exact ⟨rfl, rfl⟩
      | taken claimed => exact absurd unclaimed claimed
  | taken claimed =>
      cases turn' with
      | handed unclaimed => exact absurd unclaimed claimed
      | taken => exact ⟨rfl, rfl⟩
  | delivered held oldest =>
      cases turn' with
      | delivered _ oldest' =>
          obtain ⟨rfl, rfl⟩ := List.cons.inj (oldest.symm.trans oldest')
          exact ⟨rfl, rfl⟩
      | empty _ none => cases oldest.symm.trans none
      | notReceived unheld => exact absurd held unheld
  | empty held none =>
      cases turn' with
      | delivered _ oldest => cases oldest.symm.trans none
      | empty => exact ⟨rfl, rfl⟩
      | notReceived unheld => exact absurd held unheld
  | notReceived unheld =>
      cases turn' with
      | delivered held | empty held => exact absurd held unheld
      | notReceived => exact ⟨rfl, rfl⟩
  | dropped held =>
      cases turn' with
      | dropped => exact ⟨rfl, rfl⟩
      | notDropped unheld => exact absurd held unheld
  | notDropped unheld =>
      cases turn' with
      | dropped held => exact absurd held unheld
      | notDropped => exact ⟨rfl, rfl⟩

/-- At most the topic of an act is another one afterwards. -/
theorem respond_put (b : Bus) (act : Act) :
    (b.respond act).1 = b ∨ ∃ t, (b.respond act).1 = b.put act.topic t := by
  cases act with
  | publish name message =>
      simp only [respond, publish]
      split
      · rename_i accepted
        split at accepted
        · cases accepted
        · split at accepted
          · cases accepted
          · cases accepted
            exact .inr ⟨_, rfl⟩
      · exact .inl rfl
  | subscribe name =>
      simp only [respond, subscribe]
      split
      · rename_i accepted
        split at accepted
        · cases accepted
          exact .inr ⟨_, rfl⟩
        · cases accepted
      · exact .inl rfl
  | receive name =>
      simp only [respond]
      split
      · cases queue : (b.topic name).queue with
        | nil =>
            refine .inl ?_
            simp only [receive?, queue]
        | cons message rest =>
            simp only [receive?, queue]
            exact .inr ⟨_, rfl⟩
      · exact .inl rfl
  | drop name =>
      simp only [respond]
      by_cases held : b.isHeld name = true
      · rw [if_pos held]
        exact .inr ⟨_, rfl⟩
      · rw [if_neg held]
        exact .inl rfl

theorem capacity_respond (b : Bus) (act : Act) : (b.respond act).1.capacity = b.capacity := by
  rcases b.respond_put act with same | ⟨t, put⟩
  · rw [same]
  · rw [put]
    rfl

theorem topic_respond_of_ne {b : Bus} {act : Act} {name : String} (apart : act.topic ≠ name) :
    (b.respond act).1.topic name = b.topic name := by
  rcases b.respond_put act with same | ⟨t, put⟩
  · rw [same]
  · rw [put, topic_put, if_neg apart]

/-- **What comes of the acts on a topic hangs on that topic alone.** -/
theorem log_filter {b c : Bus} (capacity : b.capacity = c.capacity) {name : String}
    (same : b.topic name = c.topic name) (acts : List Act) :
    (b.log acts).filter (·.1.topic = name) = c.log (acts.filter (·.topic = name)) := by
  induction acts generalizing b c with
  | nil => rfl
  | cons act rest ih =>
      by_cases own : act.topic = name
      · subst own
        have turn := b.turn_respond act
        rw [capacity, same] at turn
        obtain ⟨after, response⟩ := turn.unique (c.turn_respond act)
        have kept : (b.respond act).1.capacity = (c.respond act).1.capacity := by
          rw [capacity_respond, capacity_respond, capacity]
        rw [log, List.filter_cons_of_pos (by simp), List.filter_cons_of_pos (by simp), log,
          response, ih kept after]
      · have kept : (b.respond act).1.capacity = c.capacity :=
          (b.capacity_respond act).trans capacity
        have after : (b.respond act).1.topic name = c.topic name :=
          (topic_respond_of_ne own).trans same
        rw [log, List.filter_cons_of_neg (by simpa using own),
          List.filter_cons_of_neg (by simpa using own), ih kept after]

/-! ## What a log says of a topic -/

section Views

variable (topic : String)

/-- The message that a topic took. -/
def accepted? : Act × Response → Option Bytes
  | (.publish name message, .done) => if name = topic then some message else none
  | _ => none

/-- The message that a topic gave. -/
def delivered? : Act × Response → Option Bytes
  | (.receive name, .delivered message) => if name = topic then some message else none
  | _ => none

/-- The receiver of a topic was handed out. -/
def isHandingOut : Act × Response → Bool
  | (.subscribe name, .done) => name = topic
  | _ => false

/-- The receiver of a topic was dropped. -/
def isDropping : Act × Response → Bool
  | (.drop name, .done) => name = topic
  | _ => false

variable (log : List (Act × Response))

def accepted : List Bytes := log.filterMap (accepted? topic)

def delivered : List Bytes := log.filterMap (delivered? topic)

/-- What was accepted and not yet delivered. -/
def undelivered : List Bytes := (accepted topic log).drop (delivered topic log).length

def subscriptions : Nat := log.countP (isHandingOut topic)

def isClosed : Bool := log.any (isDropping topic)

end Views

/-- A topic after a log of acts. What a dropped receiver had not taken is lost. -/
structure Traces (capacity : Nat) (topic : String) (t : Topic) (log : List (Act × Response)) :
    Prop where
  order : ∃ lost, accepted topic log = delivered topic log ++ (t.queue ++ lost) ∧
    (t.queue ++ lost).length ≤ capacity ∧ (t.receiver ≠ .dropped → lost = [])
  handed : subscriptions topic log = if t.receiver = .unclaimed then 0 else 1
  closed : isClosed topic log = true ↔ t.receiver = .dropped

section Concat

variable {topic : String} {log : List (Act × Response)} {entry : Act × Response}

theorem accepted_concat :
    accepted topic (log ++ [entry]) = accepted topic log ++ (accepted? topic entry).toList := by
  rw [accepted, List.filterMap_append]
  cases taken : accepted? topic entry <;> simp [accepted, taken]

theorem delivered_concat :
    delivered topic (log ++ [entry]) =
      delivered topic log ++ (delivered? topic entry).toList := by
  rw [delivered, List.filterMap_append]
  cases given : delivered? topic entry <;> simp [delivered, given]

theorem subscriptions_concat :
    subscriptions topic (log ++ [entry]) =
      subscriptions topic log + if isHandingOut topic entry then 1 else 0 := by
  rw [subscriptions, List.countP_append, List.countP_singleton]
  rfl

theorem isClosed_concat :
    isClosed topic (log ++ [entry]) = (isClosed topic log || isDropping topic entry) := by
  rw [isClosed, List.any_append, List.any_cons, List.any_nil, Bool.or_false]
  rfl

end Concat

theorem traces_new (capacity : Nat) (topic : String) : Traces capacity topic .new [] where
  order := ⟨[], rfl, Nat.zero_le capacity, fun _ => rfl⟩
  handed := rfl
  closed := by simp [isClosed, Topic.new]

/-- An entry of a log that says nothing of a topic. -/
structure Silent (topic : String) (entry : Act × Response) : Prop where
  accepted : accepted? topic entry = none
  delivered : delivered? topic entry = none
  handed : isHandingOut topic entry = false
  dropped : isDropping topic entry = false

/-- Acts on other topics are silent. -/
theorem silent_of_ne {topic : String} {act : Act} (apart : act.topic ≠ topic)
    (response : Response) : Silent topic (act, response) := by
  constructor <;> cases act <;> cases response <;>
    simp_all [Act.topic, accepted?, delivered?, isHandingOut, isDropping]

theorem silent_of_refused (topic : String) (act : Act) (fault : BusFault) :
    Silent topic (act, .refused fault) := by
  constructor <;> cases act <;> rfl

theorem silent_of_empty (topic : String) (act : Act) : Silent topic (act, .empty) := by
  constructor <;> cases act <;> rfl

theorem silent_of_unheld (topic : String) (act : Act) : Silent topic (act, .unheld) := by
  constructor <;> cases act <;> rfl

section Traces

variable {capacity : Nat} {topic : String} {t : Topic} {log : List (Act × Response)}

theorem Traces.silent (traces : Traces capacity topic t log) {entry : Act × Response}
    (silent : Silent topic entry) : Traces capacity topic t (log ++ [entry]) where
  order := by
    rw [accepted_concat, delivered_concat, silent.accepted, silent.delivered, Option.toList_none,
      List.append_nil, List.append_nil]
    exact traces.order
  handed := by
    rw [subscriptions_concat, silent.handed]
    exact traces.handed
  closed := by
    rw [isClosed_concat, silent.dropped, Bool.or_false]
    exact traces.closed

/-- While the receiver is there nothing is lost. -/
theorem Traces.order_of_there (traces : Traces capacity topic t log)
    (there : t.receiver ≠ .dropped) :
    accepted topic log = delivered topic log ++ t.queue ∧ t.queue.length ≤ capacity := by
  obtain ⟨lost, order, bound, none⟩ := traces.order
  rw [none there, List.append_nil] at order bound
  exact ⟨order, bound⟩

theorem Traces.accept (traces : Traces capacity topic t log) (there : t.receiver ≠ .dropped)
    (room : t.queue.length < capacity) (message : Bytes) :
    Traces capacity topic { t with queue := t.queue ++ [message] }
      (log ++ [(.publish topic message, .done)]) where
  order := by
    obtain ⟨order, -⟩ := traces.order_of_there there
    refine ⟨[], ?_, ?_, fun _ => rfl⟩
    · rw [accepted_concat, delivered_concat, order]
      simp [accepted?, delivered?]
    · simpa using Nat.succ_le_of_lt room
  handed := by
    rw [subscriptions_concat]
    exact traces.handed
  closed := by
    rw [isClosed_concat]
    simpa [isDropping] using traces.closed

theorem Traces.deliver (traces : Traces capacity topic t log) (held : t.receiver = .held)
    {message : Bytes} {rest : List Bytes} (oldest : t.queue = message :: rest) :
    Traces capacity topic { t with queue := rest }
      (log ++ [(.receive topic, .delivered message)]) where
  order := by
    have there : t.receiver ≠ .dropped := by
      rw [held]
      nofun
    obtain ⟨order, bound⟩ := traces.order_of_there there
    rw [oldest] at order bound
    refine ⟨[], ?_, ?_, fun _ => rfl⟩
    · rw [accepted_concat, delivered_concat, order]
      simp [accepted?, delivered?]
    · simpa using Nat.le_of_succ_le bound
  handed := by
    rw [subscriptions_concat]
    exact traces.handed
  closed := by
    rw [isClosed_concat]
    simpa [isDropping] using traces.closed

theorem Traces.handOut (traces : Traces capacity topic t log)
    (unclaimed : t.receiver = .unclaimed) :
    Traces capacity topic { t with receiver := .held } (log ++ [(.subscribe topic, .done)]) where
  order := by
    have there : t.receiver ≠ .dropped := by
      rw [unclaimed]
      nofun
    obtain ⟨order, bound⟩ := traces.order_of_there there
    refine ⟨[], ?_, ?_, fun _ => rfl⟩
    · rw [accepted_concat, delivered_concat, order]
      simp [accepted?, delivered?]
    · simpa using bound
  handed := by
    rw [subscriptions_concat, traces.handed, if_pos unclaimed]
    simp [isHandingOut]
  closed := by
    rw [isClosed_concat]
    simpa [isDropping, unclaimed] using traces.closed

/-- What is in the queue is lost. -/
theorem Traces.close (traces : Traces capacity topic t log) (held : t.receiver = .held) :
    Traces capacity topic ⟨[], .dropped⟩ (log ++ [(.drop topic, .done)]) where
  order := by
    have there : t.receiver ≠ .dropped := by
      rw [held]
      nofun
    obtain ⟨order, bound⟩ := traces.order_of_there there
    refine ⟨t.queue, ?_, bound, fun there => absurd rfl there⟩
    rw [accepted_concat, delivered_concat, order]
    simp [accepted?, delivered?]
  handed := by
    rw [subscriptions_concat, traces.handed, held]
    rfl
  closed := by
    rw [isClosed_concat]
    simp [isDropping]

/-- **A turn keeps a topic and its log together.** -/
theorem Traces.turn {act : Act} (traces : Traces capacity act.topic t log) {after : Topic}
    {response : Response} (turn : Turn capacity t act after response) :
    Traces capacity act.topic after (log ++ [(act, response)]) := by
  cases turn with
  | accepted there room => exact traces.accept there room _
  | closed | full | taken => exact traces.silent (silent_of_refused _ _ _)
  | handed unclaimed => exact traces.handOut unclaimed
  | delivered held oldest => exact traces.deliver held oldest
  | empty => exact traces.silent (silent_of_empty _ _)
  | notReceived | notDropped => exact traces.silent (silent_of_unheld _ _)
  | dropped held => exact traces.close held

end Traces

/-- One act keeps every topic and the log together. -/
theorem Traces.step {b : Bus} {topic : String} {log : List (Act × Response)}
    (traces : Traces b.capacity topic (b.topic topic) log) (act : Act) :
    Traces b.capacity topic ((b.respond act).1.topic topic)
      (log ++ [(act, (b.respond act).2)]) := by
  by_cases own : act.topic = topic
  · subst own
    exact traces.turn (b.turn_respond act)
  · rw [topic_respond_of_ne own]
    exact traces.silent (silent_of_ne own _)

/-- **So does every run.** -/
theorem Traces.run {b : Bus} {topic : String} {log : List (Act × Response)}
    (traces : Traces b.capacity topic (b.topic topic) log) (acts : List Act) :
    Traces b.capacity topic ((b.run acts).topic topic) (log ++ b.log acts) := by
  induction acts generalizing b log with
  | nil =>
      rw [Bus.log, List.append_nil]
      exact traces
  | cons act rest ih =>
      have step := traces.step act
      rw [← capacity_respond b act] at step ⊢
      have further := ih step
      rw [List.append_assoc] at further
      exact further

theorem capacity_run (b : Bus) (acts : List Act) : (b.run acts).capacity = b.capacity := by
  induction acts generalizing b with
  | nil => rfl
  | cons act rest ih => exact (ih _).trans (b.capacity_respond act)

section Answers

variable {capacity : Nat} {topic : String} {t : Topic} {log : List (Act × Response)}

theorem Traces.undelivered_of_there (traces : Traces capacity topic t log)
    (there : t.receiver ≠ .dropped) : undelivered topic log = t.queue := by
  rw [undelivered, (traces.order_of_there there).1, List.drop_left]

theorem Traces.undelivered_length (traces : Traces capacity topic t log) :
    (undelivered topic log).length ≤ capacity := by
  obtain ⟨lost, order, bound, -⟩ := traces.order
  rw [undelivered, order, List.drop_left]
  exact bound

theorem Traces.unclaimed_iff (traces : Traces capacity topic t log) :
    t.receiver = .unclaimed ↔ subscriptions topic log = 0 := by
  rw [traces.handed]
  by_cases unclaimed : t.receiver = .unclaimed
  · simp [unclaimed]
  · simp [unclaimed]

theorem Traces.held_iff (traces : Traces capacity topic t log) :
    t.receiver = .held ↔ subscriptions topic log = 1 ∧ isClosed topic log = false := by
  rw [traces.handed, ← Bool.not_eq_true, traces.closed]
  cases t.receiver <;> simp

end Answers

/-- When a publish gets which answer. -/
theorem publish_answers (b : Bus) (topic : String) (message : Bytes) :
    (b.publish topic message = .error (.closed topic) ↔ (b.topic topic).receiver = .dropped) ∧
    (b.publish topic message = .error (.queueFull topic) ↔
      (b.topic topic).receiver ≠ .dropped ∧ b.capacity ≤ (b.topic topic).queue.length) ∧
    ((∃ after, b.publish topic message = .ok after) ↔
      (b.topic topic).receiver ≠ .dropped ∧ (b.topic topic).queue.length < b.capacity) := by
  by_cases gone : (b.topic topic).receiver = .dropped
  · simp [publish, gone]
  by_cases full : b.capacity ≤ (b.topic topic).queue.length
  · simp [publish, gone, full, Nat.not_lt.mpr full]
  · simp [publish, gone, full, Nat.not_le.mp full]

theorem subscribe_eq_ok_iff {b : Bus} {topic : String} :
    (∃ after, b.subscribe topic = .ok after) ↔ (b.topic topic).receiver = .unclaimed := by
  by_cases unclaimed : (b.topic topic).receiver = .unclaimed <;> simp [subscribe, unclaimed]

theorem receive_answer (b : Bus) (topic : String) :
    (b.respond (.receive topic)).2 =
      if (b.topic topic).receiver = .held then
        match (b.topic topic).queue with
        | [] => .empty
        | message :: _ => .delivered message
      else .unheld := by
  by_cases held : (b.topic topic).receiver = .held
  · rw [if_pos held, respond, if_pos (isHeld_iff.mpr held)]
    cases queue : (b.topic topic).queue with
    | nil | cons => simp only [receive?, queue]
  · rw [if_neg held, respond, if_neg fun h => held (isHeld_iff.mp h)]

theorem respond_of_refused {b : Bus} {act : Act} {fault : BusFault}
    (refused : (b.respond act).2 = .refused fault) : (b.respond act).1 = b := by
  cases act with
  | publish | subscribe =>
      simp only [respond] at refused ⊢
      split
      · rename_i accepted
        rw [accepted] at refused
        cases refused
      · rfl
  | receive =>
      rw [receive_answer] at refused
      split at refused
      · split at refused <;> cases refused
      · cases refused
  | drop =>
      simp only [respond] at refused
      split at refused <;> cases refused

/-- **A bus loses, repeats and reorders nothing that it accepted.** On a new bus of any capacity,
after any acts: what a topic delivered is a beginning of what it accepted, and the rest is no longer
than the capacity. A publish is refused as closed exactly if the receiver was dropped, as full
exactly if it was not and the rest has the length of the capacity, and is accepted otherwise. The
receiver is handed out once; whoever holds it gets the oldest message of the rest. A refusal changes
nothing, and what comes of the acts on a topic is what comes of them where no other topic is
used. -/
theorem delivers_in_order (capacity : Nat) (acts : List Act) (topic : String) :
    let b := (new capacity).run acts
    let log := (new capacity).log acts
    let rest := undelivered topic log
    (delivered topic log <+: accepted topic log ∧ rest.length ≤ max capacity 1) ∧
    (∀ message,
      (b.publish topic message = .error (.closed topic) ↔ isClosed topic log = true) ∧
      (b.publish topic message = .error (.queueFull topic) ↔
        isClosed topic log = false ∧ rest.length = max capacity 1) ∧
      ((∃ after, b.publish topic message = .ok after) ↔
        isClosed topic log = false ∧ rest.length < max capacity 1)) ∧
    (subscriptions topic log ≤ 1 ∧
      ((∃ after, b.subscribe topic = .ok after) ↔ subscriptions topic log = 0)) ∧
    (b.respond (.receive topic)).2 =
      (if subscriptions topic log = 1 ∧ isClosed topic log = false then
        match rest with
        | [] => .empty
        | message :: _ => .delivered message
      else .unheld) ∧
    (∀ act fault, (b.respond act).2 = .refused fault → (b.respond act).1 = b) ∧
    log.filter (·.1.topic = topic) = (new capacity).log (acts.filter (·.topic = topic)) := by
  intro b log rest
  have traces : Traces b.capacity topic (b.topic topic) log := by
    have begun := Traces.run (traces_new (new capacity).capacity topic) acts
    rw [← capacity_run] at begun
    exact begun
  have size : b.capacity = max capacity 1 := capacity_run _ acts
  have closed_iff : (b.topic topic).receiver ≠ .dropped ↔ isClosed topic log = false := by
    rw [← Bool.not_eq_true, traces.closed]
  have queue (there : (b.topic topic).receiver ≠ .dropped) : (b.topic topic).queue = rest :=
    (traces.undelivered_of_there there).symm
  have bound : rest.length ≤ max capacity 1 := size ▸ traces.undelivered_length
  refine ⟨⟨?_, bound⟩, fun message => ?_, ⟨?_, ?_⟩, ?_, fun act fault => respond_of_refused, ?_⟩
  · obtain ⟨lost, order, -⟩ := traces.order
    exact ⟨_, order.symm⟩
  · obtain ⟨closed, full, accepted⟩ := b.publish_answers topic message
    rw [closed, full, accepted, traces.closed, ← closed_iff, size]
    refine ⟨Iff.rfl, and_congr_right fun there => ?_, and_congr_right fun there => ?_⟩
    · rw [queue there]
      omega
    · rw [queue there]
  · rw [traces.handed]
    split <;> decide
  · rw [subscribe_eq_ok_iff, traces.unclaimed_iff]
  · rw [receive_answer]
    by_cases held : (b.topic topic).receiver = .held
    · rw [if_pos held, if_pos (traces.held_iff.mp held), queue (by rw [held]; nofun)]
    · rw [if_neg held, if_neg fun h => held (traces.held_iff.mpr h)]
  · exact log_filter rfl rfl acts

end Dispatch.Bus
