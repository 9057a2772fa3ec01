import Dispatch.Config
import Dispatch.Proofs.Notation
import Dispatch.Proofs.Toml.Codecs

/-!
# Configurations read back

A configuration that was accepted has a text, and that text is accepted as the same configuration
(`Config.accepted_again`). Each of its settings is of a kind that a document can hold: floats are
rounded, words have the range of the format because they came from it, and durations are nameable
though they may be written in another unit than they were read in.
-/

set_option autoImplicit false

namespace Dispatch

open Json (Codec Field Value)
open Toml (HasText ObjectOf)

/-! ## Scalars -/

theorem returns_float {x : Binary64} (rounded : x.IsRounded) :
    Codec.float.Returns HasText 0 x where
  written := ⟨_, _, Toml.legible_float rounded⟩
  rereads := by
    rintro scope - _ ⟨⟩
    rfl

theorem stable_float : Codec.float.Stable HasText 0 := by
  intro scope v x sound read
  refine returns_float ?_
  cases sound with
  | float rounded =>
      cases read
      exact rounded
  | @integer n =>
      cases read
      exact Binary64.isRounded_ofRatio Nat.one_pos
  | string | bool | dateTime | array | table => cases read

theorem returns_word64Named (expected : String) {n : UInt64}
    (small : n.toNat < 9_223_372_036_854_775_808) :
    (Codec.word64Named expected).Returns HasText 0 n where
  written := by
    have range : (n.toNat : Int) < 9_223_372_036_854_775_808 := by omega
    exact ⟨_, _, Toml.legible_integer (by omega) range⟩
  rereads _ _ := (Codec.echoes_word64Named expected n).reads

/-- A word of a document is one of the range of its format. -/
theorem stable_word64Named (expected : String) :
    (Codec.word64Named expected).Stable HasText 0 := by
  intro scope v n sound read
  refine returns_word64Named expected ?_
  obtain ⟨k, natural, rfl⟩ := Json.map_eq_ok read
  cases sound with
  | @integer m low high =>
      rw [Toml.Value.node, Codec.natural] at natural
      dsimp only at natural
      split at natural
      · rename_i range
        cases natural
        show m.toNat.toUInt64.toNat < _
        rw [Duration.toNat_toUInt64 (by omega)]
        omega
      · cases natural
  | float | string | bool | dateTime | array | table => cases natural

theorem returns_word32 (n : UInt32) : Codec.word32.Returns HasText 0 n where
  written := by
    have range : (n.toNat : Int) < 9_223_372_036_854_775_808 := by
      have word := n.toNat_lt
      omega
    exact ⟨_, _, Toml.legible_integer (by omega) range⟩
  rereads _ _ := (Codec.echoes_word32 n).reads

theorem stable_word32 : Codec.word32.Stable HasText 0 := fun _ _ n _ _ => returns_word32 n

theorem Duration.plain_text (d : Duration) : d.text.toList.all Toml.isPlain = true := by
  obtain ⟨n, unit, written, -⟩ := compact_eq d
  have digits : (Numeral.write n).all Toml.isPlain = true :=
    List.all_eq_true.mpr fun c member => Toml.isPlain_of_isDigit (Numeral.digits_write n c member)
  have letters : unit.suffix.all Toml.isPlain = true := by cases unit <;> decide
  rw [text, String.toList_ofList, written, List.all_append, digits, letters]
  rfl

theorem returns_duration {d : Duration} (nameable : d.Nameable) :
    Duration.codec.Returns HasText 0 d := by
  constructor
  case written => exact ⟨_, _, Toml.legible_string d.plain_text⟩
  case rereads =>
    intro scope _ node shown
    have read : Codec.string.read scope node = .ok d.text :=
      (Codec.echoes_string d.text).reads node shown
    rw [Duration.codec, Codec.refine]
    dsimp only
    rw [read]
    dsimp only [bind, Except.bind]
    rw [Duration.ofString?_text nameable]
    rfl

theorem stable_duration : Duration.codec.Stable HasText 0 := by
  intro scope v d sound read
  refine returns_duration ?_
  obtain ⟨s, string, read⟩ := Json.bind_eq_ok read
  dsimp only at read
  split at read
  · rename_i named
    cases read
    exact Duration.nameable_of_parse? named
  · cases read

/-! ## Equality by value -/

theorem Binary64.le_nan (x : Binary64) : x.le .nan = false := by cases x <;> rfl

theorem Binary64.le_self {x : Binary64} (number : x ≠ .nan) : x.le x = true := by
  cases x with
  | finite negative m e => exact decide_eq_true (Int.le_refl _)
  | infinite negative => cases negative <;> rfl
  | nan => exact absurd rfl number

/-- Only `nan` differs from itself. -/
theorem Binary64.sameValue_self {x : Binary64} (number : x ≠ .nan) : x.sameValue x = true := by
  rw [sameValue, le_self number]
  rfl

/-! ## Sections -/

theorem BalancerSettings.stable : codec.Stable (ObjectOf HasText) 1 := by
  have fraction : standard.blackboxFraction.IsRounded := by
    dsimp only [standard]
    exact Binary64.isRounded_ofDecimal ..
  have factor : standard.overProvision.IsRounded :=
    (Binary64.isRounded_ofRatio Nat.one_pos : (Binary64.ofNat 1).IsRounded)
  have grace : standard.grace.Nameable := .inl ⟨60, rfl⟩
  have probes : standard.maxProbes.toNat < 9_223_372_036_854_775_808 := by decide
  refine Codec.stable_record (by decide +kernel) (fun _ => rfl) ?_
  simp only [List.forall_mem_cons]
  exact ⟨Json.Field.stable_defaulted stable_float (returns_float fraction),
    Json.Field.stable_defaulted stable_float (returns_float factor),
    Json.Field.stable_defaulted stable_duration (returns_duration grace),
    Json.Field.stable_defaulted (stable_word64Named _) (returns_word64Named _ probes),
    nofun⟩

theorem HealthSettings.stable : codec.Stable (ObjectOf HasText) 1 := by
  have second : (Duration.ofSecs 1).Nameable := .inl ⟨1, rfl⟩
  refine Codec.stable_record (by decide +kernel) (fun _ => rfl) ?_
  simp only [List.forall_mem_cons]
  exact ⟨Json.Field.stable_defaulted stable_duration (returns_duration second),
    Json.Field.stable_defaulted stable_word32 (returns_word32 _),
    Json.Field.stable_defaulted stable_word32 (returns_word32 _),
    Json.Field.stable_defaulted stable_duration (returns_duration second),
    nofun⟩

theorem LimitBounds.stable : codec.Stable (ObjectOf HasText) 1 := by
  have least : standard.minTimeout.Nameable := .inr ⟨100, rfl⟩
  have greatest : standard.maxTimeout.Nameable := .inl ⟨300, rfl⟩
  refine Codec.stable_record (by decide +kernel) (fun _ => rfl) ?_
  simp only [List.forall_mem_cons]
  exact ⟨Json.Field.stable_defaulted (stable_word64Named _) (returns_word64Named _ (by decide)),
    Json.Field.stable_defaulted (stable_word64Named _) (returns_word64Named _ (by decide)),
    Json.Field.stable_defaulted stable_duration (returns_duration least),
    Json.Field.stable_defaulted stable_duration (returns_duration greatest),
    nofun⟩

namespace Config

/-- A section that is stable, and stands with its defaults for what an empty table is read as. -/
theorem stable_section {α : Type} {name : String} {codec : Codec α} {standard : α}
    (stable : codec.Stable (ObjectOf HasText) 1)
    (empty : codec.read ⟨1, true⟩ (Toml.Value.table []).node = .ok standard) :
    (Field.defaulted name codec standard).Stable (ObjectOf HasText) 1 :=
  Json.Field.stable_defaulted stable (stable _ _ _ (.table (List.forall_mem_nil _)) empty)

theorem stable : codec.Stable (ObjectOf (ObjectOf HasText)) 2 := by
  refine Codec.stable_record (by decide +kernel) (fun _ => rfl) ?_
  simp only [List.forall_mem_cons]
  exact ⟨stable_section BalancerSettings.stable rfl, stable_section HealthSettings.stable rfl,
    stable_section LimitBounds.stable rfl, nofun⟩

/-! ## Texts -/

theorem parse_eq_ok {text : List Char} {c : Config} :
    parse text = .ok c ↔ ∃ members, Toml.Document.ofText? text = some members ∧
      codec.read scope (Toml.Value.table members).node = .ok c := by
  rw [parse]
  cases Toml.Document.ofText? text with
  | none => exact ⟨nofun, fun ⟨_, absent, _⟩ => nomatch absent⟩
  | some members =>
      simp only [Option.some.injEq, exists_eq_left', Toml.Value.node]
      cases codec.read scope (.object 0 (Toml.memberNodes members) .closed) with
      | ok d => simp only [Except.ok.injEq]
      | error fault => cases fault <;> exact ⟨nofun, nofun⟩

theorem ofText_eq_ok {text : List Char} {c : Config} :
    ofText text = .ok c ↔ parse text = .ok c ∧ c.violation? = none := by
  constructor
  case mp =>
    intro accepted
    obtain ⟨d, parsed, checked⟩ := Json.bind_eq_ok accepted
    split at checked
    · rename_i valid
      cases checked
      exact ⟨parsed, valid⟩
    · cases checked
  case mpr =>
    rintro ⟨parsed, valid⟩
    rw [ofText, parsed]
    dsimp only [bind, Except.bind]
    rw [valid]
    rfl

/-- **What was parsed has a text, which is parsed again**, whether or not its settings are in
range. -/
theorem parse_text? {text : List Char} {c : Config} (parsed : parse text = .ok c) :
    ∃ out, c.text? = some out ∧ parse out = .ok c := by
  obtain ⟨members, document, read⟩ := parse_eq_ok.mp parsed
  have returns := stable scope _ c (.table (Toml.sound_of_ofText? document)) read
  obtain ⟨out, shown, written, again, shows⟩ := Toml.ofText?_write? returns.written
  have deep : 2 ≤ scope.depth := by decide
  exact ⟨out, written, parse_eq_ok.mpr ⟨shown, again, returns.rereads scope deep _ shows⟩⟩

theorem sameValue_self {c : Config} (valid : c.violation? = none) : c.sameValue c = true := by
  have fraction : c.balancer.blackboxFraction ≠ .nan := by
    intro nan
    rw [violation?, nan] at valid
    cases valid
  have factor : c.balancer.overProvision ≠ .nan := by
    intro nan
    rw [violation?, nan, Binary64.le_nan] at valid
    split at valid <;> cases valid
  simp only [sameValue, Binary64.sameValue_self fraction, Binary64.sameValue_self factor,
    decide_true, Bool.and_self]

/-- **An accepted configuration has a text, which is accepted again** as the same configuration,
equal to the first also by value. -/
theorem accepted_again {text : List Char} {c : Config} (accepted : ofText text = .ok c) :
    ∃ out, c.text? = some out ∧ ofText out = .ok c ∧ c.sameValue c = true := by
  obtain ⟨parsed, valid⟩ := ofText_eq_ok.mp accepted
  obtain ⟨out, written, again⟩ := parse_text? parsed
  exact ⟨out, written, ofText_eq_ok.mpr ⟨again, valid⟩, sameValue_self valid⟩

/-- Durations in other units than they are written in, and settings at the ends of their ranges. -/
def oddText : List Char :=
  ["[balancer]", "over_provision_factor = inf", "timeout_grace = \" 90 \"",
    "[health]", "heartbeat_interval = \"120s\"", "unresponsive_after_missed = 0xffff_ffff",
    "[limits]", "max_timeout = '18446744073709551615ms'"].flatMap fun line => line.toList ++ ['\n']

def oddConfig : Config where
  balancer := { BalancerSettings.standard with
    overProvision := .infinite false, grace := .ofSecs 90 }
  health := { HealthSettings.standard with
    heartbeatInterval := .ofSecs 120, unresponsiveAfter := 4_294_967_295 }
  limits := { LimitBounds.standard with maxTimeout := .ofMillis 18_446_744_073_709_551_615 }

theorem accepted_again_odd : ofText oddText = .ok oddConfig ∧
    ∃ out, oddConfig.text? = some out ∧ ofText out = .ok oddConfig ∧
      oddConfig.sameValue oddConfig = true := by
  have accepted : ofText oddText = .ok oddConfig := by decide +kernel
  exact ⟨accepted, accepted_again accepted⟩

end Config

end Dispatch
