import KeyedJobs.Config.Printer
import KeyedJobs.Coordinator.State
import KeyedJobs.Proofs.Config.Content

/-! # Settings that are written and read back

The text that settings are written as is an object with every setting, so it is read by content like any
other. What is written comes back as it was, unless the check refuses it, and whatever is read from some
text can be written and read again.
-/

namespace KeyedJobs

open Json

variable {config : Config}

theorem spells_key (setting : Setting) : SpellsString setting.key.toList setting.key.toList := by
  refine .of_plain ?_
  cases setting <;> simp [Setting.key, Plain]

theorem spells_keyword (policy : ShutdownPolicy) :
    SpellsString policy.keyword.toList policy.keyword.toList := by
  refine .of_plain ?_
  cases policy <;> simp [ShutdownPolicy.keyword, Plain]

theorem toList_toString (n : UInt64) : (toString n).toList = decimal n := by
  have text : toString n = String.ofList (decimal n) := Nat.toString_eq_ofList_toDigits
  rw [text, String.toList_ofList]

theorem others_of_commas {α β : Type} {item : α → List Char → Prop} {as : List β} {f : β → α}
    {text : β → List Char} (items : ∀ b ∈ as, item (f b) (text b)) (closing : Char) :
    Others item closing (as.map f) (as.flatMap (',' :: text ·) ++ [closing]) := by
  induction as with
  | nil => exact .close .nil
  | cons b as ih =>
      obtain ⟨here, items⟩ := List.forall_mem_cons.mp items
      have others := Others.next .nil .nil here (ih items)
      simpa using others

namespace Config

theorem assignments_ofConfig (config : Config) : (Settings.ofConfig config).assignments =
    [.workers config.workers, .completionTimeout config.completionTimeoutMs,
      .retryBackoff config.retryBackoffMs, .shutdownPolicy config.shutdownPolicy] := rfl

theorem spells_renderValue (config : Config) :
    ∀ a ∈ (Settings.ofConfig config).assignments,
      SpellsValue a (config.renderValue a.setting).toList := by
  obtain ⟨workers, timeout, backoff, policy⟩ := config
  simp only [assignments_ofConfig, List.forall_mem_cons, Assignment.setting, renderValue,
    toList_toString]
  refine ⟨.workers workers, ?_, .backoff backoff, ?_, by simp⟩
  · cases timeout with
    | none => exact .noTimeout
    | some ms =>
        simp only [toList_toString]
        exact .timeout ms
  · have value := SpellsValue.policy (spells_keyword policy)
    simpa using value

theorem spells_renderMember (config : Config) :
    ∀ a ∈ (Settings.ofConfig config).assignments,
      SpellsMember (.known a) (config.renderMember a.setting).toList := by
  intro a member
  have value := config.spells_renderValue a member
  have text := SpellsMember.known (spells_key a.setting) .nil .nil value
  simpa [renderMember] using text

theorem spells_render (config : Config) :
    SpellsObject ((Settings.ofConfig config).assignments.map .known) config.render := by
  have members := config.spells_renderMember
  rw [assignments_ofConfig] at members ⊢
  obtain ⟨first, others⟩ := List.forall_mem_cons.mp members
  have enclosed := Enclosed.full .nil first (others_of_commas others '}')
  have text := SpellsObject.text .nil .nil enclosed
  refine cast (congrArg (SpellsObject _) ?_) text
  apply String.toList_inj.mp
  simp [render, Setting.all, Assignment.setting, String.intercalate_cons_cons]

theorem read_render (machine : Machine) (config : Config) : Config.read machine config.render =
    match config.validate with
    | .ok () => .ok config
    | .error fault => .error (.refused fault) := by
  have known : ((Settings.ofConfig config).assignments.map Member.known).filterMap
      Member.assignment? = (Settings.ofConfig config).assignments := rfl
  exact Config.read_of_object config.spells_render (.of_eq known)

theorem validate_of_read {machine : Machine} {text : String}
    (reads : Config.read machine text = .ok config) : config.validate = .ok () := by
  cases given : Settings.read text with
  | error error =>
      rw [Config.read_of_error given] at reads
      cases reads
  | ok given =>
      rw [Config.read_of_settings ‹_›, Settings.verdict] at reads
      split at reads
      · rename_i passes
        cases reads
        exact passes
      · cases reads

end Config

/-- What becomes of settings that are written and read back, on whatever machine. -/
structure RoundTrip (machine : Machine) (config : Config) : Prop where
  /-- Settings that pass the check come back as they were. -/
  accepted : config.validate = .ok () → Config.read machine config.render = .ok config
  /-- Settings that the check refuses are refused when they are read back, with the text of the check. -/
  refused : ∀ fault, config.validate = .error fault →
    ∃ error, Config.read machine config.render = .error error ∧ error.text = fault.text
  /-- Settings that come from any text are good for a coordinator, and for another round. -/
  reread : ∀ text, Config.read machine text = .ok config →
    (∃ s, Coordinator.start config = .ok s) ∧ Config.read machine config.render = .ok config

/-- All settings can be written and read back, as far as they pass the check. -/
theorem round_trips (machine : Machine) (config : Config) : RoundTrip machine config where
  accepted passes := by rw [Config.read_render, passes]
  refused fault fails := by
    refine ⟨.refused fault, ?_, rfl⟩
    rw [Config.read_render, fails]
  reread text reads := by
    have passes := Config.validate_of_read reads
    refine ⟨⟨.fresh config, ?_⟩, ?_⟩
    · rw [Coordinator.start, passes]
      rfl
    · rw [Config.read_render, passes]

end KeyedJobs
