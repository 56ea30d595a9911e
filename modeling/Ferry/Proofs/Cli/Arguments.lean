import Ferry.Cli.Arguments
import Ferry.Proofs.Resource

/-!
# Keys on the command line

Every key that a line of arguments names was read from an argument, so it is one
that its text gives again. Each step keeps this of the keys named so far. The other
way round, every such key can be named.
-/
namespace Ferry.Cli

def Command.deployable? : Command → Option ObjectKey
  | check deployable _ | family deployable _ | project deployable _ _ | promote deployable _ =>
    some deployable
  | cleanup _ => none

def Command.channels : Command → List ObjectKey
  | check _ channel | project _ channel _ | cleanup channel => [channel]
  | family _ channels | promote _ channels => channels

namespace Line

/-- All keys that a line names so far are given again by their texts. -/
structure Keyed (line : Line) : Prop where
  channels : ∀ k ∈ line.channels, k.WellFormed
  operands : ∀ k ∈ line.operands, k.WellFormed

theorem keyed_start : start.Keyed := ⟨nofun, nofun⟩

variable {line line' : Line}

theorem Keyed.option? (h : line.Keyed) {name : OptionName} {value : String}
    (hline : line.option? name value = some line') : line'.Keyed := by
  unfold Line.option? at hline
  dsimp only at hline
  split at hline
  next =>
    obtain ⟨k, hk, rfl⟩ := Option.map_eq_some_iff.mp hline
    exact ⟨List.forall_mem_append.mpr ⟨h.channels, List.forall_mem_singleton.mpr
      (ObjectKey.wellFormed_of_parse? hk)⟩, h.operands⟩
  next =>
    split at hline
    all_goals
      obtain ⟨_, -, rfl⟩ := Option.map_eq_some_iff.mp hline
      exact ⟨h.channels, h.operands⟩

theorem Keyed.open? (h : line.Keyed) {name : OptionName} {value : Option (List Char)}
    (hline : line.open? name value = some line') : line'.Keyed := by
  cases value with
  | some value => exact h.option? hline
  | none =>
    cases hline
    exact ⟨h.channels, h.operands⟩

theorem Keyed.long? (h : line.Keyed) {text : List Char} (hline : line.long? text = some line') :
    line'.Keyed := by
  unfold Line.long? at hline
  dsimp only at hline
  split at hline
  next => exact h.open? hline
  next =>
    split at hline
    · cases hline
      exact ⟨h.channels, h.operands⟩
    · cases hline

theorem Keyed.short? (h : line.Keyed) {text : List Char} (hline : line.short? text = some line') :
    line'.Keyed := by
  cases text with
  | nil => cases hline
  | cons c text =>
    unfold Line.short? at hline
    dsimp only at hline
    split at hline
    · cases hline
    all_goals exact h.open? hline

theorem Keyed.word? (h : line.Keyed) {arg : String} (hline : line.word? arg = some line') :
    line'.Keyed := by
  unfold Line.word? at hline
  split at hline
  next =>
    obtain ⟨k, hk, rfl⟩ := Option.map_eq_some_iff.mp hline
    exact ⟨h.channels, List.forall_mem_append.mpr ⟨h.operands, List.forall_mem_singleton.mpr
      (ObjectKey.wellFormed_of_parse? hk)⟩⟩
  next =>
    split at hline
    · cases hline
    · obtain ⟨_, -, rfl⟩ := Option.map_eq_some_iff.mp hline
      exact ⟨h.channels, h.operands⟩

theorem Keyed.step (h : line.Keyed) {arg : String} (hline : line.step arg = some line') :
    line'.Keyed := by
  unfold Line.step at hline
  split at hline
  next => exact h.word? hline
  next =>
    split at hline
    · cases hline
    · exact h.option? hline
    · cases hline
      exact ⟨h.channels, h.operands⟩
    · exact h.long? hline
    · exact h.short? hline
    · exact h.word? hline

theorem Keyed.foldlM (h : line.Keyed) {args : List String}
    (hline : args.foldlM Line.step line = some line') : line'.Keyed := by
  induction args generalizing line with
  | nil =>
    cases hline
    exact h
  | cons arg args ih =>
    rw [List.foldlM_cons] at hline
    obtain ⟨middle, hmiddle, hline⟩ := Option.bind_eq_some_iff.mp hline
    exact ih (h.step hmiddle) hline

theorem mem_of_command? {command : Command} (h : line.command? = some command) {k : ObjectKey}
    (hk : k ∈ command.deployable? ∨ k ∈ command.channels) :
    k ∈ line.operands ∨ k ∈ line.channels := by
  unfold command? at h
  split at h
  case h_6 => cases h
  all_goals
    cases h
    simp only [Command.deployable?, Command.channels] at hk
    grind

theorem Keyed.command? (h : line.Keyed) {command : Command}
    (hcommand : line.command? = some command) :
    (∀ k ∈ command.deployable?, k.WellFormed) ∧ ∀ k ∈ command.channels, k.WellFormed := by
  have hkeys : ∀ k, k ∈ line.operands ∨ k ∈ line.channels → k.WellFormed := by
    rintro k (hk | hk)
    · exact h.operands k hk
    · exact h.channels k hk
  constructor
  · intro k hk
    exact hkeys k (mem_of_command? hcommand (.inl hk))
  · intro k hk
    exact hkeys k (mem_of_command? hcommand (.inr hk))

end Line

/-- Arguments name only keys that their texts give again. -/
theorem wellFormed_of_parseArguments {args : List String} {invocation : Invocation}
    (h : parseArguments args = some invocation) :
    (∀ k ∈ invocation.command.deployable?, k.WellFormed) ∧
      ∀ k ∈ invocation.command.channels, k.WellFormed := by
  unfold parseArguments at h
  obtain ⟨line, hline, h⟩ := Option.bind_eq_some_iff.mp h
  dsimp only at h
  split at h
  · cases h
  · obtain ⟨command, hcommand, h⟩ := Option.bind_eq_some_iff.mp h
    cases h
    exact (Line.keyed_start.foldlM hline).command? hcommand

variable {k : ObjectKey}

/-- After two dashes a text is an operand, whatever it begins with. -/
theorem Line.foldlM_operand {word : String} {verb : Verb}
    (hverb : Line.step .start word = some { Line.start with verb := some verb })
    (hk : k.WellFormed) : [word, "--", k.text].foldlM Line.step .start =
      some { Line.start with verb := some verb, plain := true, operands := [k] } := by
  have hplain : Line.step { Line.start with verb := some verb } "--" =
      some { Line.start with verb := some verb, plain := true } := rfl
  have hword : Line.step { Line.start with verb := some verb, plain := true } k.text =
      some { Line.start with verb := some verb, plain := true, operands := [k] } := by
    change (ObjectKey.parse? k.text).map _ = _
    rw [ObjectKey.parse?_text hk]
    rfl
  rw [List.foldlM_cons, hverb, Option.bind_eq_bind, Option.bind_some, List.foldlM_cons, hplain,
    Option.bind_eq_bind, Option.bind_some, List.foldlM_cons, hword]
  rfl

theorem parseArguments_family (hk : k.WellFormed) :
    parseArguments ["family", "--", k.text] = some ⟨default, .family k []⟩ := by
  rw [parseArguments, Line.foldlM_operand rfl hk]
  rfl

theorem parseArguments_cleanup (hk : k.WellFormed) :
    parseArguments ["cleanup", "--", k.text] = some ⟨default, .cleanup k⟩ := by
  rw [parseArguments, Line.foldlM_operand rfl hk]
  rfl

end Ferry.Cli
