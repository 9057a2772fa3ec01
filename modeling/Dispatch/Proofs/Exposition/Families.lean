import Dispatch.Proofs.Exposition.Lines
import Dispatch.Proofs.Topics
import Mathlib.Data.List.Forall2

/-!
# The metrics of a fleet as text

Families with different names are written one after the other, so the text is well formed whatever
their samples: each family has one line of help and one of its kind in front of its samples, which
stand together (`wellFormed_linesOf`). Lines that begin with the help of a family tell where the
samples before it end, so the lines determine the families (`linesOf_injective`). What is published
of a fleet is legible and gives each invoker samples of its own; it can be taken back to the
counters and to what it tells of each invoker (`well_formed_and_lossless`).
-/

set_option autoImplicit false

namespace Dispatch

theorem Pool.name_injective : Function.Injective Pool.name := by
  intro a b same
  cases a <;> cases b <;> simp_all [Pool.name]

theorem Health.name_injective : Function.Injective Health.name := by
  intro a b same
  cases a <;> cases b <;> simp_all [Health.name]

namespace Exposition

/-! ## Well-formed lines -/

namespace Line

/-- The line gives the help of this family. -/
def isHelp (name : String) : Line → Bool
  | .help family _ => family = name
  | _ => false

/-- The line gives the kind of this family. -/
def isType (name : String) : Line → Bool
  | .type family _ => family = name
  | _ => false

/-- The line is a sample of this family. -/
def isSample (name : String) : Line → Bool
  | .sample family _ _ => family = name
  | _ => false

end Line

/-- All samples of a family stand together; in front of them its help and its kind are given once,
and behind them no line belongs to it. -/
structure Grouped (name : String) (before samples after : List Line) : Prop where
  samples : ∀ l ∈ samples, l.isSample name = true
  noSample : ∀ l ∈ before, l.isSample name = false
  help : before.countP (·.isHelp name) = 1
  type : before.countP (·.isType name) = 1
  noMore : ∀ l ∈ after, l.family ≠ name

/-- The same labels with the same values, in whatever order. -/
def SameLabels (a b : List (String × String)) : Prop := ∀ l, l ∈ a ↔ l ∈ b

/-- No two samples of the family have the same labels. -/
def Family.Distinct (f : Family) : Prop :=
  f.samples.Pairwise fun s t => ¬SameLabels s.labels t.labels

/-- Lines as the format wants them: every family that a line belongs to is grouped, and no two
samples of a family have the same labels. -/
structure WellFormed (lines : List Line) : Prop where
  grouped : ∀ l ∈ lines, ∃ before samples after, lines = before ++ samples ++ after ∧
    Grouped l.family before samples after
  distinct : lines.Pairwise fun k l => ∀ name labels labels' value value',
    k = .sample name labels value → l = .sample name labels' value' → ¬SameLabels labels labels'

theorem family_of_mem {f : Family} {l : Line} (member : l ∈ f.lines) : l.family = f.name := by
  simp only [Family.lines, List.mem_cons, List.mem_map] at member
  obtain rfl | rfl | ⟨s, -, rfl⟩ := member <;> rfl

theorem family_of_isHelp {name : String} {l : Line} (help : l.isHelp name = true) :
    l.family = name := by
  cases l <;> simp_all [Line.isHelp, Line.family]

theorem family_of_isType {name : String} {l : Line} (type : l.isType name = true) :
    l.family = name := by
  cases l <;> simp_all [Line.isType, Line.family]

theorem family_of_isSample {name : String} {l : Line} (sample : l.isSample name = true) :
    l.family = name := by
  cases l <;> simp_all [Line.isSample, Line.family]

/-- The lines of a family stand between those of the families before and behind it. -/
theorem grouped_linesOf {before after : List Family} {f : Family}
    (apart : ∀ g ∈ before ++ after, g.name ≠ f.name) :
    Grouped f.name (linesOf before ++ [.help f.name f.help, .type f.name f.kind])
      (f.samples.map fun s => .sample f.name s.labels s.value) (linesOf after) := by
  have other : ∀ gs : List Family, (∀ g ∈ gs, g ∈ before ++ after) →
      ∀ l ∈ linesOf gs, l.family ≠ f.name := by
    intro gs inside l member
    obtain ⟨g, family, member⟩ := List.mem_flatMap.mp member
    rw [family_of_mem member]
    exact apart g (inside g family)
  have front := other before fun g member => List.mem_append_left _ member
  constructor
  case samples =>
    intro l member
    obtain ⟨s, -, rfl⟩ := List.mem_map.mp member
    simp [Line.isSample]
  case noSample =>
    intro l member
    rcases List.mem_append.mp member with earlier | header
    · by_contra sample
      exact front l earlier (family_of_isSample (by simpa using sample))
    · simp only [List.mem_cons, List.not_mem_nil, or_false] at header
      obtain rfl | rfl := header <;> rfl
  case help =>
    have none : (linesOf before).countP (·.isHelp f.name) = 0 :=
      List.countP_eq_zero.mpr fun l member help => front l member (family_of_isHelp help)
    rw [List.countP_append, none]
    simp [Line.isHelp]
  case type =>
    have none : (linesOf before).countP (·.isType f.name) = 0 :=
      List.countP_eq_zero.mpr fun l member type => front l member (family_of_isType type)
    rw [List.countP_append, none]
    simp [Line.isType]
  case noMore => exact other after fun g member => List.mem_append_right _ member

/-- **The lines of families with different names are well formed**, if no family has two samples
with the same labels. -/
theorem wellFormed_linesOf {fs : List Family} (names : (fs.map (·.name)).Nodup)
    (distinct : ∀ f ∈ fs, f.Distinct) : WellFormed (linesOf fs) where
  grouped := by
    intro l member
    obtain ⟨f, family, own⟩ := List.mem_flatMap.mp member
    obtain ⟨before, after, rfl⟩ := List.append_of_mem family
    have apart : ∀ g ∈ before ++ after, g.name ≠ f.name := by
      have moved : (f :: (before ++ after)).Perm (before ++ f :: after) := List.perm_middle.symm
      have distinct := (moved.map (·.name)).nodup_iff.mpr names
      intro g inside same
      exact (List.nodup_cons.mp distinct).1 (List.mem_map.mpr ⟨g, inside, same⟩)
    rw [family_of_mem own]
    refine ⟨_, _, _, ?_, grouped_linesOf apart⟩
    simp [linesOf, Family.lines]
  distinct := by
    apply List.pairwise_flatMap.mpr
    constructor
    · intro f family
      have samples : (f.samples.map fun s => Line.sample f.name s.labels s.value).Pairwise
          fun k l => ∀ name labels labels' value value', k = .sample name labels value →
            l = .sample name labels' value' → ¬SameLabels labels labels' := by
        apply List.pairwise_map.mpr
        apply (distinct f family).imp
        rintro s t apart _ _ _ _ _ ⟨⟩ ⟨⟩
        exact apart
      simp only [Family.lines, List.pairwise_cons]
      exact ⟨by simp, by simp, samples⟩
    · apply (List.pairwise_map.mp names).imp
      rintro f g apart k first l second name labels labels' value value' rfl rfl
      have own : name = f.name := family_of_mem first
      have other : name = g.name := family_of_mem second
      exact absurd (own.symm.trans other) apart

/-! ## Lines determine families -/

/-- Up to the next help, lines are samples. -/
theorem takeWhile_samples (name : String) (samples : List Sample) (fs : List Family) :
    ((samples.map fun s => Line.sample name s.labels s.value) ++ linesOf fs).takeWhile
      (·.isSample name) = samples.map fun s => Line.sample name s.labels s.value := by
  rw [List.takeWhile_append_of_pos (by simp [Line.isSample])]
  cases fs with
  | nil => simp [linesOf]
  | cons f fs => simp [linesOf, Family.lines, Line.isSample]

/-- **No two lists of families have the same lines.** -/
theorem linesOf_injective : Function.Injective linesOf := by
  intro fs
  induction fs with
  | nil =>
      intro gs same
      cases gs with
      | nil => rfl
      | cons g gs => simp [linesOf, Family.lines] at same
  | cons f fs ih =>
      intro gs same
      cases gs with
      | nil => simp [linesOf, Family.lines] at same
      | cons g gs =>
          obtain ⟨name, help, kind, samples⟩ := f
          obtain ⟨name', help', kind', samples'⟩ := g
          simp only [linesOf, List.flatMap_cons, Family.lines, List.cons_append, List.cons.injEq,
            Line.help.injEq, Line.type.injEq] at same
          obtain ⟨⟨rfl, rfl⟩, ⟨-, rfl⟩, rest⟩ := same
          have front := congrArg (List.takeWhile (·.isSample name)) rest
          rw [← linesOf, ← linesOf, takeWhile_samples, takeWhile_samples] at front
          rw [front, List.append_cancel_left_eq] at rest
          obtain rfl := ih rest
          have one : Function.Injective fun s : Sample => Line.sample name s.labels s.value := by
            rintro ⟨labels, value⟩ ⟨labels', value'⟩ same
            simpa using same
          obtain rfl := List.map_injective_iff.mpr one front
          rfl

/-! ## What is published of a fleet -/

theorem plainLabel_topic (id : InvokerId) : PlainLabel ("invoker", id.topic) where
  name := (by decide : isLabelName "invoker".toList = true)
  value := by
    intro c member
    have digits := Numeral.digits_write id.ordinal.toNat
    rw [InvokerId.toList_topic, List.mem_append] at member
    rcases member with word | digit
    · have plain : ∀ c ∈ "invoker".toList, c ≠ '"' ∧ c ≠ '\\' ∧ c ≠ '\n' := by simp
      exact plain c word
    · have digit : c.isDigit = true := digits c (by simpa [Numeral.text] using digit)
      exact ⟨Numeral.ne_of_isDigit digit _ rfl, Numeral.ne_of_isDigit digit _ rfl,
        Numeral.ne_of_isDigit digit _ rfl⟩

theorem plainLabel_pool (pool : Pool) : PlainLabel ("pool", pool.name) := by
  cases pool <;> exact ⟨by decide, by simp [Pool.name]⟩

theorem plainLabel_state (health : Health) : PlainLabel ("state", health.name) := by
  cases health <;> exact ⟨by decide, by simp [Health.name]⟩

section PerInvoker

variable {name help : String} {infos : List InvokerInfo}
  {more : InvokerInfo → List (String × String)} {value : InvokerInfo → Nat}

theorem legible_perInvoker (named : isFamilyName name.toList = true)
    (oneLine : '\n' ∉ help.toList) (plain : ∀ i, ∀ l ∈ more i, PlainLabel l) :
    (perInvoker name help infos more value).Legible where
  name := named
  help := oneLine
  labels := by
    intro s sample l label
    obtain ⟨i, -, rfl⟩ := List.mem_map.mp sample
    simp only [List.mem_cons] at label
    obtain rfl | rfl | label := label
    · exact plainLabel_topic i.id
    · exact plainLabel_pool i.pool
    · exact plain i l label

/-- Samples of different invokers differ in the label that names the invoker. -/
theorem distinct_perInvoker (ids : (infos.map (·.id)).Nodup)
    (other : ∀ i, ∀ l ∈ more i, l.1 ≠ "invoker") :
    (perInvoker name help infos more value).Distinct := by
  apply List.pairwise_map.mpr
  apply (List.pairwise_map.mp ids).imp
  intro i j apart same
  have label := (same ("invoker", i.id.topic)).mp List.mem_cons_self
  simp only [List.mem_cons, Prod.mk.injEq, true_and] at label
  rcases label with topic | ⟨word, -⟩ | more
  · exact apart (InvokerId.topic_injective topic)
  · exact absurd word (by decide)
  · exact other j _ more rfl

end PerInvoker

theorem legible_families (c : Counters) (infos : List InvokerInfo) :
    ∀ f ∈ families c infos, f.Legible := by
  have single (name help : String) (value : Nat) (named : isFamilyName name.toList = true)
      (oneLine : '\n' ∉ help.toList) : (single name help value).Legible :=
    ⟨named, oneLine, by simp [Exposition.single]⟩
  have status (value : String) (plain : ∀ c ∈ value.toList, c ≠ '"' ∧ c ≠ '\\' ∧ c ≠ '\n') :
      PlainLabel ("status", value) :=
    ⟨(by decide : isLabelName "status".toList = true), plain⟩
  have named : isFamilyName "whisk_activations_resolved_total".toList = true := by decide
  have help : '\n' ∉ "Activations resolved, by final status.".toList := by simp
  simp only [families, List.forall_mem_cons]
  refine ⟨single _ _ _ (by decide) (by simp), single _ _ _ (by decide) (by simp),
    single _ _ _ (by decide) (by simp), single _ _ _ (by decide) (by simp),
    ⟨named, help, ?_⟩, ?_, ?_, ?_, nofun⟩
  · simp only [List.forall_mem_cons]
    exact ⟨⟨status _ (by simp), nofun⟩, ⟨status _ (by simp), nofun⟩,
      ⟨status _ (by simp), nofun⟩, ⟨status _ (by simp), nofun⟩, nofun⟩
  · apply legible_perInvoker (by decide) (by simp)
    intro i l label
    obtain rfl := List.mem_singleton.mp label
    exact plainLabel_state i.health
  · exact legible_perInvoker (by decide) (by simp) nofun
  · exact legible_perInvoker (by decide) (by simp) nofun

theorem distinct_families (c : Counters) {infos : List InvokerInfo}
    (ids : (infos.map (·.id)).Nodup) : ∀ f ∈ families c infos, f.Distinct := by
  have lone (name help : String) (value : Nat) : (single name help value).Distinct :=
    List.pairwise_singleton _ _
  have status {a b : String} (apart : a ≠ b) : ¬SameLabels [("status", a)] [("status", b)] := by
    intro same
    have label := (same ("status", a)).mp List.mem_cons_self
    simp [apart] at label
  simp only [families, List.forall_mem_cons]
  refine ⟨lone _ _ _, lone _ _ _, lone _ _ _, lone _ _ _, ?_, ?_, ?_, ?_, nofun⟩
  · simp only [Family.Distinct, List.pairwise_cons, List.forall_mem_cons, List.not_mem_nil,
      false_implies, implies_true, List.Pairwise.nil, and_true]
    exact ⟨⟨status (by decide), status (by decide), status (by decide)⟩,
      ⟨status (by decide), status (by decide)⟩, status (by decide)⟩
  · apply distinct_perInvoker ids
    intro i l label
    obtain rfl := List.mem_singleton.mp label
    exact (by decide : "state" ≠ "invoker")
  · exact distinct_perInvoker ids nofun
  · exact distinct_perInvoker ids nofun

/-- What is published of two invokers tells the same. -/
structure SameRow (i j : InvokerInfo) : Prop where
  id : i.id = j.id
  pool : i.pool = j.pool
  health : i.health = j.health
  used : i.capacity.usedMemory = j.capacity.usedMemory
  total : i.capacity.totalMemory = j.capacity.totalMemory

/-- Rows that are published alike tell the same. -/
theorem sameRow_of_samples {i j : InvokerInfo}
    (state : [("invoker", i.id.topic), ("pool", i.pool.name), ("state", i.health.name)] =
      [("invoker", j.id.topic), ("pool", j.pool.name), ("state", j.health.name)])
    (used : i.capacity.usedMemory.toNat = j.capacity.usedMemory.toNat)
    (total : i.capacity.totalMemory.toNat = j.capacity.totalMemory.toNat) : SameRow i j := by
  simp only [List.cons.injEq, Prod.mk.injEq, true_and, and_true] at state
  obtain ⟨topic, pool, health⟩ := state
  exact ⟨InvokerId.topic_injective topic, Pool.name_injective pool, Health.name_injective health,
    UInt64.toNat_inj.mp used, UInt64.toNat_inj.mp total⟩

/-- The families tell the counters and the rows of the listing. -/
theorem of_families_eq {c c' : Counters} {infos infos' : List InvokerInfo}
    (same : families c infos = families c' infos') :
    c = c' ∧ List.Forall₂ SameRow infos infos' := by
  obtain ⟨submitted, overloaded, failures, succeeded, application, system, timedOut, duplicates⟩ :=
    c
  obtain ⟨submitted', overloaded', failures', succeeded', application', system', timedOut',
    duplicates'⟩ := c'
  simp only [families, single, perInvoker, List.cons.injEq, Family.mk.injEq, Sample.mk.injEq,
    true_and, and_true] at same
  obtain ⟨rfl, rfl, rfl, rfl, ⟨rfl, rfl, rfl, rfl⟩, healthy, used, total⟩ := same
  refine ⟨rfl, ?_⟩
  induction infos generalizing infos' with
  | nil =>
      obtain rfl := List.map_eq_nil_iff.mp healthy.symm
      exact .nil
  | cons i infos ih =>
      cases infos' with
      | nil => simp at healthy
      | cons j infos' =>
          simp only [List.map_cons, List.cons.injEq, Sample.mk.injEq] at healthy used total
          obtain ⟨⟨state, -⟩, healthy⟩ := healthy
          obtain ⟨⟨-, usedHere⟩, used⟩ := used
          obtain ⟨⟨-, totalHere⟩, total⟩ := total
          have row := sameRow_of_samples (by simpa using state) usedHere totalHere
          exact .cons row (ih healthy used total)

/-- **The text of the metrics is well formed and loses nothing.** Every line ends, and whatever the
counters and however many invokers there are, the text is read as the lines of the families; if no
two invokers have the same ordinal, these are well formed. Two texts are the same only if all
counters agree and the listings have the same rows, as far as they are published. -/
theorem well_formed_and_lossless :
    (∀ (c : Counters) (infos : List InvokerInfo),
      read? (render (families c infos)) = some (linesOf (families c infos)) ∧
      ((infos.map (·.id)).Nodup → WellFormed (linesOf (families c infos)))) ∧
    ∀ (c c' : Counters) (infos infos' : List InvokerInfo),
      render (families c infos) = render (families c' infos') →
        c = c' ∧ infos.length = infos'.length ∧ List.Forall₂ SameRow infos infos' := by
  constructor
  · intro c infos
    refine ⟨read?_render (legible_families c infos), ?_⟩
    intro ids
    have names : ((families c infos).map (·.name)).Nodup := by
      have known : (families c infos).map (·.name) = (families .zero []).map (·.name) := rfl
      rw [known]
      decide
    exact wellFormed_linesOf names (distinct_families c ids)
  · intro c c' infos infos' same
    have read := read?_render (legible_families c infos)
    rw [same, read?_render (legible_families c' infos'), Option.some_inj] at read
    obtain ⟨counters, rows⟩ := of_families_eq (linesOf_injective read.symm)
    exact ⟨counters, rows.length_eq, rows⟩

/-- Two invokers in different pools, the second with all memory that a word can count. -/
def demoInfos : List InvokerInfo :=
  [⟨⟨0⟩, .managed, .healthy, ⟨1024, 256, 4, 1⟩, some 7⟩,
    ⟨⟨10⟩, .blackbox, .unresponsive, ⟨18_446_744_073_709_551_615, 0, 1, 0⟩, none⟩]

/-- The same rows, with no slots and no action of a user: neither is published. -/
def demoIdle : List InvokerInfo :=
  demoInfos.map fun i => { i with
    capacity := { i.capacity with totalSlots := 0, usedSlots := 0 }
    lastUserAction := none }

theorem well_formed_and_lossless_demoInfos :
    (demoInfos.map (·.id)).Nodup ∧ WellFormed (linesOf (families .zero demoInfos)) ∧
    render (families .zero demoInfos) = render (families .zero demoIdle) ∧
    List.Forall₂ SameRow demoInfos demoIdle ∧
    render (families .zero demoInfos) ≠ render (families .zero demoInfos.reverse) := by
  obtain ⟨whole, lossless⟩ := well_formed_and_lossless
  have ids : (demoInfos.map (·.id)).Nodup := by decide
  have unpublished : render (families .zero demoInfos) = render (families .zero demoIdle) :=
    congrArg render rfl
  obtain ⟨-, -, rows⟩ := lossless .zero .zero demoInfos demoIdle unpublished
  refine ⟨ids, (whole .zero demoInfos).2 ids, unpublished, rows, ?_⟩
  intro same
  obtain ⟨-, -, rows⟩ := lossless .zero .zero demoInfos demoInfos.reverse same
  obtain _ | ⟨row, -⟩ := rows
  exact absurd row.id (by decide)

end Exposition

end Dispatch
