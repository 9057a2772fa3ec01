import Dispatch.Metrics

/-!
# Text exposition of metrics

Metrics are published as families: lines that tell a family's help and kind, then its samples,
each with labels and a value. `families` says what is published, `render` how it is written.
-/

set_option autoImplicit false

namespace Dispatch.Exposition

/-- One measured value. -/
structure Sample where
  labels : List (String × String)
  value : Nat
deriving DecidableEq, Repr

/-- The kinds of metrics. -/
inductive Kind where
  | counter
  | gauge
deriving DecidableEq, Repr

def Kind.name : Kind → String
  | .counter => "counter"
  | .gauge => "gauge"

/-- A metric with all its samples. -/
structure Family where
  name : String
  help : String
  kind : Kind
  samples : List Sample
deriving DecidableEq, Repr

/-- A metric that is one number. -/
def single (name help : String) (value : Nat) : Family := ⟨name, help, .counter, [⟨[], value⟩]⟩

/-- A metric with one sample for each invoker. -/
def perInvoker (name help : String) (infos : List InvokerInfo)
    (more : InvokerInfo → List (String × String)) (value : InvokerInfo → Nat) : Family :=
  ⟨name, help, .gauge, infos.map fun i =>
    ⟨("invoker", i.id.topic) :: ("pool", i.pool.name) :: more i, value i⟩⟩

/-- Everything that is published. -/
def families (c : Counters) (infos : List InvokerInfo) : List Family :=
  [single "whisk_activations_submitted_total" "Activations published to an invoker." c.submitted,
    single "whisk_activations_overloaded_total"
      "Submissions rejected because no invoker had capacity." c.overloaded,
    single "whisk_dispatch_failures_total" "Submissions whose bus publish failed."
      c.dispatchFailures,
    single "whisk_duplicate_completions_total"
      "Completion messages for already resolved activations." c.duplicateCompletions,
    ⟨"whisk_activations_resolved_total", "Activations resolved, by final status.", .counter,
      [⟨[("status", "success")], c.succeeded⟩,
        ⟨[("status", "application_error")], c.applicationErrors⟩,
        ⟨[("status", "system_error")], c.systemErrors⟩, ⟨[("status", "timeout")], c.timedOut⟩]⟩,
    perInvoker "whisk_invoker_healthy" "Whether the invoker is healthy (1) or not (0)." infos
      (fun i => [("state", i.health.name)]) (fun i => if i.health = .healthy then 1 else 0),
    perInvoker "whisk_invoker_memory_used_mb" "Memory reserved on the invoker." infos
      (fun _ => []) (fun i => i.capacity.usedMemory.toNat),
    perInvoker "whisk_invoker_memory_total_mb" "Memory the invoker advertises." infos
      (fun _ => []) (fun i => i.capacity.totalMemory.toNat)]

/-- A label with its value in quotes. -/
def renderLabel (label : String × String) : List Char :=
  label.1.toList ++ '=' :: '"' :: (label.2.toList ++ ['"'])

/-- Labels in braces, or nothing. -/
def renderLabels : List (String × String) → List Char
  | [] => []
  | first :: rest =>
    '\x7b' :: (renderLabel first ++ rest.flatMap (fun l => ',' :: renderLabel l) ++ ['\x7d'])

/-- The line of a sample. -/
def renderSample (name : String) (s : Sample) : List Char :=
  name.toList ++ renderLabels s.labels ++ ' ' :: (Numeral.write s.value ++ ['\n'])

/-- The lines of a family. -/
def renderFamily (f : Family) : List Char :=
  "# HELP ".toList ++ f.name.toList ++ ' ' :: (f.help.toList ++ ['\n']) ++
    "# TYPE ".toList ++ f.name.toList ++ ' ' :: (f.kind.name.toList ++ ['\n']) ++
    f.samples.flatMap (renderSample f.name)

/-- The text of all families. -/
def render (fs : List Family) : String := String.ofList (fs.flatMap renderFamily)

end Dispatch.Exposition
