import Ferry.Cli.Run
import Ferry.Proofs.Promotion.Stopping
import Ferry.Proofs.ReadOnly
import Ferry.Proofs.Validation

/-!
# Commands that fail

A command that fails leaves the files as they were, unless a file cannot be accessed
or no name that was drawn is free. Everything that a command asks for is looked up
before anything is written, and what is written first shows whether the rest can be
written. A check, a family and a projection that is only shown write nothing at all.
-/
namespace Ferry

variable {w w' : World}

/-! ### Reading -/

namespace World

theorem readOnly_pathExists (path : String) :
    ReadOnly (Host.pathExists path : StateM World Bool) := by
  intro w
  rw [run_pathExists]

theorem readOnly_readText (path : String) :
    ReadOnly (Host.readText path : StateM World (Except FileError String)) := by
  intro w
  rw [run_readText]

end World

namespace ConfigFile

theorem readOnly_discover (explicit : Option String) :
    ReadOnly (discover explicit : StateM World ConfigFile) := by
  unfold discover resolve
  apply ReadOnly.bind (fun _ => rfl)
  intro workingDir
  apply ReadOnly.bind (fun _ => rfl)
  intro configDir
  apply ReadOnly.bind (.bind (World.readOnly_pathExists _) fun _ => .pure _)
  intro found
  exact .pure _

theorem readOnly_load (file : ConfigFile) :
    ReadOnly (file.load : StateM World (Except Config.Error Config)) := by
  unfold load
  apply ReadOnly.bind (World.readOnly_pathExists _)
  intro found
  split
  next =>
    apply ReadOnly.bind (World.readOnly_readText _)
    intro text
    split <;> exact .pure _
  next => exact .pure _

end ConfigFile

namespace Cli

namespace Session

variable {session : Session} {key : ObjectKey}

/-- What is looked up in the manifest, for a lookup that may find nothing. -/
def found {α : Type} (session : Session) (w : World) (lookup : Manifest → Option α) (e : Error) :
    Except Error α :=
  match w.manifest session.manifest with
  | .error cause => .error (.manifest session.manifest cause)
  | .ok m =>
    match lookup m with
    | some a => .ok a
    | none => .error e

theorem exists_of_found {α : Type} {lookup : Manifest → Option α} {e : Error} {a : α}
    (h : session.found w lookup e = .ok a) :
    ∃ m, w.manifest session.manifest = .ok m ∧ lookup m = some a := by
  unfold found at h
  split at h
  · cases h
  next m hm =>
    split at h
    next hlookup =>
      cases h
      exact ⟨m, hm, hlookup⟩
    next => cases h

theorem found_eq_ok {α : Type} {lookup : Manifest → Option α} {e : Error} {m : Manifest} {a : α}
    (hm : w.manifest session.manifest = .ok m) (ha : lookup m = some a) :
    session.found w lookup e = .ok a := by
  simp only [found, hm, ha]

theorem runFrom_lookup {α : Type} {x : ExceptT StoreError (StateM World) (Option α)}
    {lookup : Manifest → Option α}
    (hx : runFrom x w = ((w.manifest session.manifest).map lookup, w))
    {f : Option α → ExceptT Error (StateM World) α} {e : Error}
    (hsome : ∀ a, f (some a) = pure a) (hnone : f none = throw e) :
    runFrom (session.read x >>= f) w = (session.found w lookup e, w) := by
  unfold Session.read found
  rw [runFrom_bind, runFrom_adapt, hx]
  cases w.manifest session.manifest with
  | error cause => rfl
  | ok m =>
    cases ha : lookup m with
    | none => simp [Except.map, Except.mapError, ha, hnone]
    | some a => simp [Except.map, Except.mapError, ha, hsome]

theorem runFrom_deployable (session : Session) (key : ObjectKey) (w : World) :
    runFrom (session.deployable key) w =
      (session.found w (·.deployable? key) (.noDeployable key), w) :=
  runFrom_lookup (ManifestFile.runFrom_get session.manifest key w) (fun _ => rfl) rfl

theorem runFrom_channel (session : Session) (key : ObjectKey) (w : World) :
    runFrom (session.channel key) w = (session.found w (·.channel? key) (.noChannel key), w) :=
  runFrom_lookup (ManifestFile.runFrom_channel session.manifest key w) (fun _ => rfl) rfl

theorem runFrom_deployable_of_found {m : Manifest} {d : Deployable}
    (hm : w.manifest session.manifest = .ok m) (hd : m.deployable? key = some d) :
    runFrom (session.deployable key) w = (.ok d, w) := by
  rw [runFrom_deployable, found_eq_ok hm hd]

theorem runFrom_channel_of_found {m : Manifest} {c : Channel}
    (hm : w.manifest session.manifest = .ok m) (hc : m.channel? key = some c) :
    runFrom (session.channel key) w = (.ok c, w) := by
  rw [runFrom_channel, found_eq_ok hm hc]

theorem readOnly_deployable (session : Session) (key : ObjectKey) :
    ReadOnly (session.deployable key : ExceptT Error (StateM World) Deployable).run :=
  fun w => congrArg Prod.snd (runFrom_deployable session key w)

theorem readOnly_channel (session : Session) (key : ObjectKey) :
    ReadOnly (session.channel key : ExceptT Error (StateM World) Channel).run :=
  fun w => congrArg Prod.snd (runFrom_channel session key w)

theorem readOnly_channels (session : Session) (keys : List ObjectKey) :
    ReadOnly (session.channels keys : ExceptT Error (StateM World) (List Channel)).run := by
  unfold Session.channels
  split
  · apply ReadOnly.except_adapt
    intro w
    exact congrArg Prod.snd (ManifestFile.runFrom_channels session.manifest w)
  · exact .except_mapM (readOnly_channel session) keys

theorem mem_of_deployable {d : Deployable}
    (h : runFrom (session.deployable key) w = (.ok d, w')) :
    w' = w ∧ ∃ m, w.manifest session.manifest = .ok m ∧ d ∈ m.deployables := by
  rw [runFrom_deployable, Prod.mk.injEq] at h
  obtain ⟨m, hm, hd⟩ := exists_of_found h.1
  exact ⟨h.2.symm, m, hm, List.mem_of_find?_eq_some hd⟩

theorem mem_of_channel {c : Channel} (h : runFrom (session.channel key) w = (.ok c, w')) :
    w' = w ∧ ∃ m, w.manifest session.manifest = .ok m ∧ c ∈ m.channels := by
  rw [runFrom_channel, Prod.mk.injEq] at h
  obtain ⟨m, hm, hc⟩ := exists_of_found h.1
  exact ⟨h.2.symm, m, hm, List.mem_of_find?_eq_some hc⟩

theorem mem_of_mapM_channel {m : Manifest} (hm : w.manifest session.manifest = .ok m)
    {keys : List ObjectKey} {cs : List Channel}
    (h : runFrom (keys.mapM session.channel) w = (.ok cs, w')) : ∀ c ∈ cs, c ∈ m.channels := by
  induction keys generalizing cs w' with
  | nil =>
    rw [List.mapM_nil, runFrom_pure, Prod.mk.injEq, Except.ok.injEq] at h
    rw [← h.1]
    exact List.forall_mem_nil _
  | cons key keys ih =>
    rw [List.mapM_cons] at h
    obtain ⟨c, t, hc, hkeys⟩ := runFrom_bind_eq_ok h
    obtain ⟨rest, t', hrest, hcons⟩ := runFrom_bind_eq_ok hkeys
    rw [runFrom_pure, Prod.mk.injEq, Except.ok.injEq] at hcons
    obtain ⟨ht, m', hm', hmem⟩ := mem_of_channel hc
    rw [hm] at hm'
    cases hm'
    rw [ht] at hrest
    rw [← hcons.1, List.forall_mem_cons]
    exact ⟨hmem, ih hrest⟩

theorem mem_of_channels {m : Manifest} (hm : w.manifest session.manifest = .ok m)
    {keys : List ObjectKey} {cs : List Channel}
    (h : runFrom (session.channels keys) w = (.ok cs, w')) : ∀ c ∈ cs, c ∈ m.channels := by
  unfold Session.channels at h
  split at h
  next =>
    unfold Session.read at h
    rw [runFrom_adapt, ManifestFile.runFrom_channels, hm] at h
    cases h
    exact fun c hc => hc
  next => exact mem_of_mapM_channel hm h

end Session

/-! ### Commands -/

def Command.isReading : Command → Bool
  | check _ _ | family _ _ => true
  | project _ _ apply => !apply
  | promote _ _ | cleanup _ => false

/-- The failure of the store that a command ends with, if it ends with one. -/
def Error.storeError? : Error → Option StoreError
  | manifest _ cause | failed (.store _ cause) => some cause
  | failed (.cleanup _) | config _ | noDeployable _ | noChannel _ | leftBehind _ _
  | rendering _ => none

/-- Whether a command failed because a file cannot be accessed or no name that was drawn is free. -/
def Error.isOutside (e : Error) : Bool := e.storeError?.any StoreError.isOutside

namespace Session

variable {session : Session} {command : Command} {e : Error}

theorem readOnly_resolveFamily (session : Session) (d : Deployable) (spaces : List String) :
    ReadOnly
      (resolveFamily session.store d spaces : ExceptT Failure (StateM World) Family).run := by
  unfold resolveFamily listSnapshot
  split
  · exact .except_pure _
  · apply ReadOnly.except_bind
    · apply ReadOnly.except_adapt
      intro w
      exact congrArg Prod.snd (ManifestFile.runFrom_list session.manifest none w)
    · intro snapshot
      exact .except_pure _

theorem readOnly_run (session : Session) (h : command.isReading = true) :
    ReadOnly (session.run command : ExceptT Error (StateM World) String).run := by
  cases command with
  | check deployable channel =>
    apply ReadOnly.except_bind (readOnly_deployable session deployable)
    intro d
    apply ReadOnly.except_bind (readOnly_channel session channel)
    intro c
    exact .except_pure _
  | family deployable channels =>
    apply ReadOnly.except_bind (readOnly_deployable session deployable)
    intro d
    apply ReadOnly.except_bind (readOnly_channels session channels)
    intro cs
    apply ReadOnly.except_bind (.except_adapt (readOnly_resolveFamily session d _) _)
    intro family
    exact .except_pure _
  | project deployable channel apply =>
    obtain rfl : apply = false := by simpa [Command.isReading] using h
    apply ReadOnly.except_bind (readOnly_deployable session deployable)
    intro d
    apply ReadOnly.except_bind (readOnly_channel session channel)
    intro c
    apply ReadOnly.except_bind (.except_pure _)
    intro shown w
    rfl
  | promote => cases h
  | cleanup => cases h

theorem exists_projectionReport {m : Manifest} {p : Deployable} {text : String}
    (htext : (m.extend [p]).toToml = .ok text) (format : OutputFormat) :
    ∃ shown, projectionReport format p = .ok shown := by
  cases format with
  | json => exact ⟨_, rfl⟩
  | table =>
    have hwritten : ∀ q ∈ p.payloads, q.value.Every Json.HasText :=
      (Manifest.toToml_eq_ok_iff.mp htext).1 p (List.mem_append_right _ List.mem_cons_self)
    have hfields : Json.EveryField Json.HasText p.fields :=
      Json.structural_hasText.every_obj.mp
        ((Deployable.every_encode Json.structural_hasText p).mpr hwritten)
    rw [projectionReport, Toml.render, Json.writeErrorFields?_eq_none_iff.mpr hfields]
    exact ⟨_, rfl⟩

theorem disk_of_project_error {deployable channel : ObjectKey}
    (h : runFrom (session.run (.project deployable channel true)) w = (.error e, w'))
    (he : e.isOutside = false) : w'.disk = w.disk := by
  rcases eq_or_exists_of_bind_eq_error (readOnly_deployable session deployable) h with
    rfl | ⟨d, -, hchannel⟩
  · rfl
  rcases eq_or_exists_of_bind_eq_error (readOnly_channel session channel) hchannel with
    rfl | ⟨c, -, hstore⟩
  · rfl
  rcases runFrom_bind_eq_error hstore with hfail | ⟨p, t, hstored, hshow⟩
  · obtain ⟨cause, hcreate, rfl⟩ := runFrom_adapt_eq_error hfail
    apply ManifestFile.disk_of_create_error hcreate
    rintro file access rfl
    cases he
  · -- What was stored can be shown, so this case does not arise.
    obtain ⟨m, text, -, -, htext, -⟩ := ManifestFile.create_ok (runFrom_adapt_eq_ok hstored)
    obtain ⟨shown, hshown⟩ := exists_projectionReport htext session.format
    change runFrom (liftRendering (projectionReport session.format p)) t = _ at hshow
    rw [hshown] at hshow
    cases hshow

theorem disk_of_promote_error {deployable : ObjectKey} {channels : List ObjectKey}
    (h : runFrom (session.run (.promote deployable channels)) w = (.error e, w'))
    (hback : ∀ m, w.manifest session.manifest = .ok m → m.ReadsProjectionsBack)
    (he : e.isOutside = false) : w'.disk = w.disk := by
  rcases eq_or_exists_of_bind_eq_error (readOnly_deployable session deployable) h with
    rfl | ⟨d, hd, hchannels⟩
  · rfl
  obtain ⟨-, m, hm, hmem⟩ := mem_of_deployable hd
  rcases eq_or_exists_of_bind_eq_error (readOnly_channels session channels) hchannels with
    rfl | ⟨cs, hcs, hpromote⟩
  · rfl
  have hlisted := mem_of_channels hm hcs
  rcases runFrom_bind_eq_error hpromote with hfail | ⟨report, t, -, hshow⟩
  · obtain ⟨failure, hrun, rfl⟩ := runFrom_adapt_eq_error hfail
    obtain ⟨made, hcourse⟩ := Promotion.course_of_run hrun
    have hloaded := World.loaded_of_manifest hm
    have hspaces : ∀ c ∈ cs, c.key.space ≠ "" := by
      intro c hc
      have hnamed := (Manifest.channels_of_validate hloaded.valid).1 c (hlisted c hc)
      simpa using (Bool.and_eq_true_iff.mp hnamed).2
    cases failure with
    | cleanup => cases hcourse
    | store context cause =>
      apply hcourse.disk_eq hm (hloaded.channels d hmem) hspaces ?_ he
      intro ps hps
      apply hback m hm
      intro p hp
      obtain ⟨c, hc, hp⟩ := hps p hp
      exact ⟨d, hmem, c, hlisted c hc, hp⟩
  · cases hshow

theorem disk_of_error (hcleanup : ∀ channel, command ≠ .cleanup channel)
    (h : runFrom (session.run command) w = (.error e, w'))
    (hback : ∀ m, w.manifest session.manifest = .ok m → m.ReadsProjectionsBack)
    (he : e.isOutside = false) : w'.disk = w.disk := by
  by_cases hreading : command.isReading = true
  · rw [runFrom_of_readOnly (session.readOnly_run hreading) h]
  · cases command with
    | check => exact absurd rfl hreading
    | family => exact absurd rfl hreading
    | project deployable channel apply =>
      obtain rfl : apply = true := by simpa [Command.isReading] using hreading
      exact disk_of_project_error h he
    | promote => exact disk_of_promote_error h hback he
    | cleanup channel => exact absurd rfl (hcleanup channel)

end Session

/-! ### Runs -/

def Invocation.session {m : Type → Type} [Monad m] [Host m] (invocation : Invocation) :
    ExceptT Error m Session := do
  let file ← ExceptT.lift (ConfigFile.discover invocation.settings.config)
  let config ← ExceptT.mk do return (← file.load).mapError .config
  return {
    manifest := invocation.settings.manifest.getD (config.manifestPath file.baseDir)
    format := invocation.settings.format.getD config.output }

namespace Invocation

variable {invocation : Invocation}

theorem run_eq (invocation : Invocation) :
    (invocation.run : ExceptT Error (StateM World) String) =
      invocation.session >>= fun session => session.run invocation.command := by
  simp only [Invocation.run, Invocation.session, bind_assoc, pure_bind]

theorem readOnly_session (invocation : Invocation) :
    ReadOnly (invocation.session : ExceptT Error (StateM World) Session).run := by
  apply ReadOnly.except_bind
  · exact .bind (ConfigFile.readOnly_discover _) fun _ => .pure _
  · intro file
    apply ReadOnly.except_bind
    · exact .bind (ConfigFile.readOnly_load file) fun _ => .pure _
    · intro config
      exact .except_pure _

end Invocation

def exitOf : Except Error String → Exit
  | .ok text => ⟨0, text, ""⟩
  | .error e => ⟨1, "", e.report⟩

theorem run_eq {args : List String} {invocation : Invocation}
    (hargs : parseArguments args = some invocation) (w : World) :
    StateT.run (run args : StateM World Exit) w =
      (exitOf (runFrom invocation.run w).1, (runFrom invocation.run w).2) := by
  unfold run
  rw [hargs]
  rcases hrun : runFrom invocation.run w with ⟨_ | _, t⟩ <;>
  · change StateT.run invocation.run.run w = _ at hrun
    simp only [StateT.run_bind, hrun]
    rfl

/-- A line of arguments asks for a command, on a manifest and in a format that it names or that the
settings in a world do. -/
def Asks (args : List String) (w : World) (session : Session) (command : Command) : Prop :=
  ∃ invocation, parseArguments args = some invocation ∧ invocation.command = command ∧
    (runFrom invocation.session w).1 = .ok session

/-- A run ends as the command that is asked for does. -/
theorem run_of_asks {args : List String} {session : Session} {command : Command}
    (h : Asks args w session command) {answer : Except Error String}
    (hrun : runFrom (session.run command) w = (answer, w')) :
    StateT.run (run args : StateM World Exit) w = (exitOf answer, w') := by
  obtain ⟨invocation, hargs, rfl, hsession⟩ := h
  have hopened : runFrom invocation.session w = (.ok session, w) :=
    Prod.ext hsession (invocation.readOnly_session w)
  rw [run_eq hargs, invocation.run_eq, runFrom_bind_ok hopened, hrun]

def after (args : List String) (w : World) : World :=
  (StateT.run (run args : StateM World Exit) w).2

theorem after_eq {args : List String} {invocation : Invocation}
    (hargs : parseArguments args = some invocation) (w : World) :
    after args w = (runFrom invocation.run w).2 :=
  congrArg Prod.snd (run_eq hargs w)

/-- A run leaves the disk as it was if its arguments are wrong, if it only shows something, and if
it fails and is not a cleanup. It may fail for whatever reason: the settings, the manifest, a key
that is not there, a payload that cannot be written. Failures that lie outside are excepted, and
the documents that are written have to be read back. -/
theorem failed_run_leaves_disk (args : List String) (w : World) :
    (parseArguments args = none → after args w = w) ∧
    ∀ invocation, parseArguments args = some invocation →
      (invocation.command.isReading = true → after args w = w) ∧
      ∀ e, (runFrom invocation.run w).1 = .error e →
        (∀ channel, invocation.command ≠ .cleanup channel) → e.isOutside = false →
        (∀ session m, (runFrom invocation.session w).1 = .ok session →
          w.manifest session.manifest = .ok m → m.ReadsProjectionsBack) →
        (after args w).disk = w.disk := by
  constructor
  · intro hargs
    unfold after run
    rw [hargs]
    rfl
  · intro invocation hargs
    rw [after_eq hargs, invocation.run_eq]
    constructor
    · intro hreading
      exact ReadOnly.except_bind invocation.readOnly_session
        (fun session => session.readOnly_run hreading) w
    · intro e he hcleanup houtside hback
      have hrun : runFrom (invocation.session >>= fun session =>
          session.run invocation.command) w = (.error e, _) := Prod.ext he rfl
      rcases eq_or_exists_of_bind_eq_error invocation.readOnly_session hrun with
        hworld | ⟨session, hsession, hfail⟩
      · exact congrArg World.disk hworld
      · apply Session.disk_of_error hcleanup hfail ?_ houtside
        intro m hm
        exact hback session m (congrArg Prod.fst hsession) hm

/-- A deployable that declares two channels, with a number in its template that no text can hold
once it was read. -/
def unwritable : String :=
  "[[deployables]]\nmetadata = \x7b namespace = \"ns\", name = \"app\" \x7d\n" ++
    "spec.channels = [\"east/c\", \"west/c\"]\nspec.template.limit = inf\n" ++
    "[[channels]]\nmetadata = \x7b namespace = \"east\", name = \"c\" \x7d\n" ++
    "[[channels]]\nmetadata = \x7b namespace = \"west\", name = \"c\" \x7d\n"

def unwritableWorld : World :=
  ⟨⟨.directory [("m", .text unwritable)]⟩, "/", none, fun _ => ⟨["1"], "u", default⟩, 0⟩

def promoteAll : Invocation := ⟨{ config := none, manifest := some "m", format := none },
  .promote ⟨"ns", "app"⟩ []⟩

theorem promoteAll_leaves_disk : parseArguments ["-m", "m", "promote", "ns/app"] = some promoteAll ∧
    (∃ e, (runFrom promoteAll.run unwritableWorld).1 = .error e ∧ e.isOutside = false) ∧
    (after ["-m", "m", "promote", "ns/app"] unwritableWorld).disk = unwritableWorld.disk := by
  have hargs : parseArguments ["-m", "m", "promote", "ns/app"] = some promoteAll := by
    decide +kernel
  have hfails : (match (runFrom promoteAll.run unwritableWorld).1 with
    | .error e => e.storeError?
    | .ok _ => none) = some (.serialize Toml.WriteError.null.message) := by decide +kernel
  have hsession : (runFrom promoteAll.session unwritableWorld).1 = .ok ⟨"m", .table⟩ := rfl
  have hfits : (unwritableWorld.manifest "m").toOption.all (fun m =>
      decide (∀ d ∈ m.deployables, d.Fits)) = true := by decide +kernel
  cases he : (runFrom promoteAll.run unwritableWorld).1 with
  | ok _ =>
    rw [he] at hfails
    cases hfails
  | error e =>
    rw [he] at hfails
    change e.storeError? = _ at hfails
    have houtside : e.isOutside = false := by
      rw [Error.isOutside, hfails]
      rfl
    refine ⟨hargs, ⟨e, rfl, houtside⟩, ?_⟩
    apply ((failed_run_leaves_disk _ unwritableWorld).2 promoteAll hargs).2 e he nofun houtside
    intro session m hsession' hm
    rw [hsession] at hsession'
    cases hsession'
    apply Manifest.readsProjectionsBack_of_fits (World.loaded_of_manifest hm)
    rw [hm] at hfits
    exact of_decide_eq_true hfits

end Cli

end Ferry
