import Ferry.Proofs.Cli.Report
import Ferry.Proofs.Cli.Run
import Ferry.Proofs.Promotion.Recovery
import Ferry.Proofs.Promotion.Report
import Ferry.Proofs.RoundTrip

/-!
# What is shown is what is stored

A projection that is only shown, one that is stored, and a promotion into one channel
all start from the same object. What the store gives to it does not depend on who asks,
so the last two leave the same world: in the manifest is one more object, which is the
one that was shown but for its name, its uid and its time. A promotion does not ask
for it if there is a projection already or if the channel does not admit one.
-/
namespace Ferry

variable {d p : Deployable} {key : ObjectKey} {w w' : World} {m : Manifest} {path : String}

/-! ### Projections that can be written and read back -/

theorem representable_project (hd : d.Representable) (key : ObjectKey) :
    (project d key).Representable where
  channels := hd.channels
  form := by
    intro q hq
    have htemplate : (project d key).payloads = d.spec.template.toList := by
      simp [Deployable.payloads, project]
    rw [htemplate] at hq
    exact hd.form q (List.mem_append_left _ hq)
  fits := ⟨hd.fits.template, nofun⟩

theorem Deployable.exists_render (hd : d.Representable) :
    ∃ text, Toml.render d.fields = .ok text ∧ Toml.decodeText schema.decode text = .ok d := by
  have hform : Json.EveryField Json.HasToml d.fields :=
    Json.structural_hasToml.every_obj.mp ((every_encode Json.structural_hasToml d).mpr hd.form)
  have hwritten : Json.EveryField Json.HasText d.fields :=
    Json.structural_hasText.every_obj.mp ((every_encode Json.structural_hasText d).mpr
      fun q hq => (Json.storable_iff_above.mp (hd.form q hq)).1)
  cases htable : d.writableTable hd.fits with
  | intro hnames hfields =>
    obtain ⟨node, hread, hshows⟩ := Toml.readDocument_writeDocument hform hfields.names hnames
      (Json.fitsFields_of_le (by decide) hfields.fits)
    refine ⟨String.ofList (Toml.writeDocument d.fields), ?_, ?_⟩
    · rw [Toml.render, Json.writeErrorFields?_eq_none_iff.mpr hwritten]
    · have hnull := template_ne_null id hd.form
      exact (reads_encode hnull hd.channels).decodeText (by rwa [String.toList_ofList]) hshows

/-! ### The answer to a create -/

/-- What a create of an object comes to that asks for a name with some beginning. It gets a drawn
ending that makes a name which is free in its namespace, and then it is in the manifest, of which
nothing else has changed; or no name is free; or a file cannot be accessed. -/
inductive Creates (path : String) (w : World) (m : Manifest) (P : Deployable) :
    Except StoreError Deployable → World → Prop
  | stored {start ending p w'} : P.metadata.generateName = some start →
      ending ∈ (w.supply w.drawn).endings.take nameAttempts →
      p = P.completed (start ++ ending) (w.supply w.drawn).uid (w.supply w.drawn).createdAt →
      (∀ e ∈ m.deployables, e.space = P.space → e.name ≠ p.name) →
      w'.manifest path = .ok (m.extend [p]) → Creates path w m P (.ok p) w'
  | exhausted {start reason} : P.metadata.generateName = some start →
      (∀ ending ∈ (w.supply w.drawn).endings.take nameAttempts,
        ∃ e ∈ m.deployables, e.space = P.space ∧ e.name = start ++ ending) →
      Creates path w m P (.error (.unavailable reason)) w.afterDraw
  | inaccessible {p file cause w'} : P.StoredAs p →
      runFrom (ManifestFile.save path (m.extend [p])) w.afterDraw =
        (.error (.file file cause), w') →
      Creates path w m P (.error (.file file cause)) w'

theorem Creates.storedAs {P : Deployable} {answer : Except StoreError Deployable}
    (h : Creates path w m P answer w') (hanswer : answer = .ok p) : P.StoredAs p := by
  cases h with
  | stored _ _ hp _ _ =>
    cases hanswer
    exact ⟨_, _, _, hp⟩
  | exhausted => cases hanswer
  | inaccessible => cases hanswer

namespace ManifestFile

/-- A manifest that is loaded again once it is saved is saved, unless a file cannot be accessed. -/
theorem save_of_saves (h : m.Saves) (path : String) (w : World) :
    (∃ w', runFrom (save path m) w = (.ok (), w') ∧ w'.manifest path = .ok m) ∨
      ∃ file cause w', runFrom (save path m) w = (.error (.file file cause), w') := by
  obtain ⟨text, htext, hparse⟩ := h
  rcases hsave : runFrom (save path m) w with ⟨e | _, w'⟩
  · obtain ⟨file, cause, rfl⟩ := save_error htext hsave
    exact .inr ⟨file, cause, w', rfl⟩
  · obtain ⟨text', disk, htext', -, hread⟩ := save_ok hsave
    rw [htext, Except.ok.injEq] at htext'
    rw [← htext', hparse] at hread
    exact .inl ⟨w', rfl, hread⟩

/-- A projection is stored under a free name, if there is one and the file can be accessed. -/
theorem creates_projection (hm : w.manifest path = .ok m) (hspace : key.space ≠ "")
    (hd : d.Representable) (hall : ∀ e ∈ m.deployables, e.Representable) :
    ∃ answer w', runFrom ((store path).create (project d key)) w = (answer, w') ∧
      Creates path w m (project d key) answer w' := by
  rw [runFrom_create hm]
  rcases allocateName_project d hspace (w.supply w.drawn) m.isTaken with
    ⟨ending, hending, hfree, hname⟩ | ⟨htaken, hnone⟩
  · obtain ⟨p, hp⟩ : ∃ p, p = (project d key).completed (d.projectionNameStart ++ ending)
      (w.supply w.drawn).uid (w.supply w.drawn).createdAt := ⟨_, rfl⟩
    have hprepare : prepareForCreate (w.supply w.drawn) m.isTaken (project d key) = .ok p := by
      rw [prepareForCreate, hname, hp]
      rfl
    have hstored : (project d key).StoredAs p := ⟨_, _, _, hp⟩
    have hrep : p.Representable := hstored.representable_iff.mpr (representable_project hd key)
    have hvalid : (m.extend [p]).validate = .ok () :=
      Manifest.validate_extend (World.loaded_of_manifest hm).valid
        (isNamed_of_prepareForCreate hprepare) (prepareForCreate_ok hprepare).2
    have hsaves : (m.extend [p]).Saves := Manifest.saves_of_representable hvalid
      (List.forall_mem_append.mpr ⟨hall, List.forall_mem_singleton.mpr hrep⟩)
    have hunused : ∀ e ∈ m.deployables, e.space = key.space → e.name ≠ p.name := by
      intro e he hsame hclash
      rw [hp] at hclash
      exact Bool.eq_false_iff.mp hfree (Manifest.isTaken_mk_iff.mpr ⟨e, he, hsame, hclash⟩)
    rw [hprepare]
    dsimp only
    rcases save_of_saves hsaves path w.afterDraw with ⟨w', hsave, hlast⟩ | ⟨file, cause, w', hsave⟩
    · exact ⟨.ok p, w', by rw [hsave]; rfl,
        .stored (project_generateName d key) hending hp hunused hlast⟩
    · exact ⟨_, w', by rw [hsave]; rfl, .inaccessible hstored hsave⟩
  · rw [prepareForCreate, hnone]
    refine ⟨_, _, rfl, .exhausted (project_generateName d key) ?_⟩
    intro ending hending
    exact Manifest.isTaken_mk_iff.mp (htaken ending hending)

end ManifestFile

namespace Promotion

variable {σ : Type} {store : Store (StateM σ)} {c : Channel} {s : σ} {snapshot : List Deployable}

/-- What a promotion into one channel answers once the store has answered the create. -/
def answerTo (d : Deployable) (channel : ObjectKey) :
    Except StoreError Deployable → Except Failure PromotionReport
  | .ok p => .ok ⟨[(channel, .created p.key)]⟩
  | .error e => .error (.store (createContext d channel) e)

theorem promote_of_isEligible (hlist : runFrom (store.list none) s = (.ok snapshot, s))
    (heligible : isEligible d c = true) :
    (∃ key, runFrom (promote store d [c]) s = (.ok ⟨[(c.key, .alreadyPresent key)]⟩, s)) ∨
    ∃ answer t, runFrom (store.create (project d c.key)) s = (answer, t) ∧
      runFrom (promote store d [c]) s = (answerTo d c.key answer, t) := by
  have hkeys : eligibleKeys d [c] = [c.key] := by simp [eligibleKeys, eligible, heligible]
  have hsettled : settled d [c] = [] := by simp [settled, settled?_eq, heligible]
  obtain ⟨made, hcourse⟩ := promote_course store d [c] s
  generalize runFrom (promote store d [c]) s = run at hcourse ⊢
  obtain ⟨result, s'⟩ := run
  dsimp only at hcourse
  cases hcourse with
  | idle hnone =>
    rw [hkeys] at hnone
    cases hnone
  | unlisted _ hfail =>
    rw [hlist] at hfail
    cases hfail
  | completed _ hshown hplaced =>
    rw [hlist] at hshown
    cases hshown
    rw [hkeys] at hplaced
    rw [hsettled, List.nil_append]
    cases hplaced with
    | present _ hrest =>
      cases hrest
      exact .inl ⟨_, rfl⟩
    | created _ hcreate hrest =>
      cases hrest
      exact .inr ⟨_, _, hcreate, rfl⟩
  | @stopped _ t done key rest _ _ _ _ _ hsplit hshown hplaced _ hfail =>
    rw [hlist] at hshown
    cases hshown
    rw [hkeys] at hsplit
    cases done with
    | nil =>
      cases hsplit
      cases hplaced
      exact .inr ⟨_, _, hfail, rfl⟩
    | cons => simp at hsplit

theorem promote_of_not_isEligible (store : Store (StateM σ)) (s : σ)
    (heligible : isEligible d c = false) :
    runFrom (promote store d [c]) s =
      (.ok ⟨[(c.key, if isResident d c then .resident else .denied)]⟩, s) := by
  have hnone : eligible d [c] = [] := by simp [eligible, heligible]
  have hsettled : settled d [c] =
      [(c.key, if isResident d c then .resident else .denied)] := by
    simp [settled, settled?_eq, heligible]
  rw [promote_of_eligible_eq_nil store hnone, hsettled, runFrom_pure]

/-- A promotion into one channel creates the projection, or else it asks the store for nothing. -/
theorem promote_singleton (hlist : runFrom (store.list none) s = (.ok snapshot, s))
    (d : Deployable) (c : Channel) :
    (∃ outcome, (∀ key, outcome ≠ .created key) ∧
      runFrom (promote store d [c]) s = (.ok ⟨[(c.key, outcome)]⟩, s)) ∨
    ∃ answer t, runFrom (store.create (project d c.key)) s = (answer, t) ∧
      runFrom (promote store d [c]) s = (answerTo d c.key answer, t) := by
  cases heligible : isEligible d c with
  | true =>
    rcases promote_of_isEligible hlist heligible with ⟨key, hpresent⟩ | hcreate
    · refine .inl ⟨.alreadyPresent key, ?_, hpresent⟩
      intro _ hcreated
      cases hcreated
    · exact .inr hcreate
  | false =>
    refine .inl ⟨_, ?_, promote_of_not_isEligible store s heligible⟩
    intro key hcreated
    split at hcreated <;> cases hcreated

end Promotion

namespace Cli

/-- A text that is printed for an object, from which the object is read again. -/
inductive Prints (p : Deployable) : OutputFormat → String → Prop
  | table {text} : Toml.render p.fields = .ok text →
      Toml.decodeText Deployable.schema.decode text = .ok p → Prints p .table text
  | json {text} : Json.read? text = some p.encode →
      Deployable.schema.decode .json (.ofJson p.encode) = .ok p → Prints p .json text

theorem exists_prints (hp : p.Representable) (format : OutputFormat) :
    ∃ text, projectionReport format p = .ok text ∧ Prints p format text := by
  cases format with
  | table =>
    obtain ⟨text, hrender, hread⟩ := p.exists_render hp
    exact ⟨text, hrender, .table hrender hread⟩
  | json =>
    have hnull := p.template_ne_null id hp.form
    exact ⟨_, rfl, .json (read?_printJson _) (p.decode_encode hnull hp.channels .json)⟩

/-- What a run leaves that was to store an object: the answer of the store is shown, or it is the
reason why the run failed. -/
inductive Tells (shows : Deployable → String → Prop) : Except StoreError Deployable → Exit → Prop
  | ok {p text} : shows p text → Tells shows (.ok p) ⟨0, text, ""⟩
  | error {cause} {e : Error} : e.storeError? = some cause →
      Tells shows (.error cause) ⟨1, "", e.report⟩

section Commands

variable {session : Session} {c : Channel} {args : List String}
  {answer : Except StoreError Deployable}

theorem Session.runFrom_channels_singleton {key : ObjectKey}
    (hm : w.manifest session.manifest = .ok m) (hc : m.channel? key = some c) :
    runFrom (session.channels [key]) w = (.ok [c], w) := by
  change runFrom ([key].mapM session.channel) w = _
  rw [List.mapM_cons, runFrom_bind_ok (Session.runFrom_channel_of_found hm hc), List.mapM_nil,
    runFrom_bind_ok (runFrom_pure _ w), runFrom_pure]

section

variable (hm : w.manifest session.manifest = .ok m) (hd : d ∈ m.deployables) (hc : c ∈ m.channels)
include hm hd hc

theorem Session.runFrom_project (apply : Bool) :
    runFrom (session.run (.project d.key c.key apply)) w =
      runFrom ((if apply then session.apply c.key (project d c.key) else pure (project d c.key)) >>=
        fun shown => liftRendering (projectionReport session.format shown)) w := by
  have hvalid := (World.loaded_of_manifest hm).valid
  have hdeployable := Manifest.deployable?_of_mem hvalid hd
  have hchannel := Manifest.channel?_of_mem hvalid hc
  unfold Session.run
  rw [runFrom_bind_ok (Session.runFrom_deployable_of_found hm hdeployable),
    runFrom_bind_ok (Session.runFrom_channel_of_found hm hchannel)]
  cases apply <;> rfl

theorem run_preview (hasks : Asks args w session (.project d.key c.key false))
    (hrep : d.Representable) :
    ∃ text, Prints (project d c.key) session.format text ∧
      StateT.run (run args : StateM World Exit) w = (⟨0, text, ""⟩, w) := by
  obtain ⟨text, hreport, hprints⟩ :=
    exists_prints (representable_project hrep c.key) session.format
  have hrun : runFrom (session.run (.project d.key c.key false)) w = (.ok text, w) := by
    rw [Session.runFrom_project hm hd hc, if_neg Bool.false_ne_true,
      runFrom_bind_ok (runFrom_pure _ w), hreport]
    rfl
  exact ⟨text, hprints, run_of_asks hasks hrun⟩

theorem run_apply (hasks : Asks args w session (.project d.key c.key true))
    (hcreate : runFrom (session.store.create (project d c.key)) w = (answer, w'))
    (hrep : ∀ p, answer = .ok p → p.Representable) :
    ∃ exit, StateT.run (run args : StateM World Exit) w = (exit, w') ∧
      Tells (fun p => Prints p session.format) answer exit := by
  have hproject := Session.runFrom_project hm hd hc true
  rw [if_pos rfl] at hproject
  cases answer with
  | ok p =>
    obtain ⟨text, hreport, hprints⟩ := exists_prints (hrep p rfl) session.format
    have happly : runFrom (session.apply c.key (project d c.key)) w = (.ok p, w') :=
      runFrom_adapt_ok hcreate
    rw [runFrom_bind_ok happly, hreport] at hproject
    exact ⟨_, run_of_asks hasks hproject, .ok hprints⟩
  | error cause =>
    have happly : runFrom (session.apply c.key (project d c.key)) w = (.error _, w') :=
      runFrom_adapt_error hcreate
    rw [runFrom_bind_error happly] at hproject
    exact ⟨_, run_of_asks hasks hproject, .error rfl⟩

theorem run_promote (hasks : Asks args w session (.promote d.key [c.key]))
    (hcreate : runFrom (session.store.create (project d c.key)) w = (answer, w')) :
    (∃ status projection text, status ∈ ["present", "resident", "denied"] ∧
      Reports c.key status projection session.format text ∧
      StateT.run (run args : StateM World Exit) w = (⟨0, text, ""⟩, w)) ∨
    ∃ exit, StateT.run (run args : StateM World Exit) w = (exit, w') ∧
      Tells (fun p => Reports c.key "created" (some p.key) session.format) answer exit := by
  have hvalid := (World.loaded_of_manifest hm).valid
  have hdeployable := Manifest.deployable?_of_mem hvalid hd
  have hchannel := Manifest.channel?_of_mem hvalid hc
  have hstart : runFrom (session.run (.promote d.key [c.key])) w =
      runFrom ((promote session.store d [c]).adapt .failed >>= fun report =>
        pure (promotionReport session.format report)) w := by
    unfold Session.run
    rw [runFrom_bind_ok (Session.runFrom_deployable_of_found hm hdeployable),
      runFrom_bind_ok (Session.runFrom_channels_singleton hm hchannel)]
  have hlist : runFrom (session.store.list none) w = (.ok m.deployables, w) := by
    unfold Session.store
    rw [ManifestFile.runFrom_list, hm]
    rfl
  rcases Promotion.promote_singleton hlist d c with ⟨outcome, hother, hrun⟩ | ⟨_, _, hmade, hrun⟩
  · rw [runFrom_bind_ok (runFrom_adapt_ok hrun), runFrom_pure] at hstart
    exact .inl ⟨_, _, _, status_of_not_created hother, reports_promotionReport _ _ outcome,
      run_of_asks hasks hstart⟩
  · rw [hcreate] at hmade
    cases hmade
    right
    cases answer with
    | ok p =>
      rw [runFrom_bind_ok (runFrom_adapt_ok hrun), runFrom_pure] at hstart
      exact ⟨_, run_of_asks hasks hstart, .ok (reports_promotionReport _ _ (.created p.key))⟩
    | error cause =>
      rw [runFrom_bind_error (runFrom_adapt_error hrun)] at hstart
      exact ⟨_, run_of_asks hasks hstart, .error rfl⟩

end

/-- A manifest has a deployable and a channel, and all objects in it can be written and read back. A
dry run of the projection prints it and changes nothing. To store it and to promote the deployable
into the channel comes to one answer of the store and leaves one world: the new object is what was
printed, but for its name, its uid and its time, and the rest of the manifest is as it was. The
first prints the new object, and the second tells its key. The second asks for none if it tells of
the channel that a projection is there already, that the deployable lives there, or that it is
denied. -/
theorem preview_is_stored (hm : w.manifest session.manifest = .ok m) (hd : d ∈ m.deployables)
    (hc : c ∈ m.channels) (hall : ∀ e ∈ m.deployables, e.Representable) :
    (∀ args, Asks args w session (.project d.key c.key false) →
      ∃ text, Prints (project d c.key) session.format text ∧
        StateT.run (run args : StateM World Exit) w = (⟨0, text, ""⟩, w)) ∧
    ∃ answer w', Creates session.manifest w m (project d c.key) answer w' ∧
      (∀ args, Asks args w session (.project d.key c.key true) →
        ∃ exit, StateT.run (run args : StateM World Exit) w = (exit, w') ∧
          Tells (fun p => Prints p session.format) answer exit) ∧
      ∀ args, Asks args w session (.promote d.key [c.key]) →
        (∃ status projection text, status ∈ ["present", "resident", "denied"] ∧
          Reports c.key status projection session.format text ∧
          StateT.run (run args : StateM World Exit) w = (⟨0, text, ""⟩, w)) ∨
        ∃ exit, StateT.run (run args : StateM World Exit) w = (exit, w') ∧
          Tells (fun p => Reports c.key "created" (some p.key) session.format) answer exit := by
  have hd' := hall d hd
  have hspace : c.key.space ≠ "" := by
    have hnamed := (Manifest.channels_of_validate (World.loaded_of_manifest hm).valid).1 c hc
    exact (Manifest.isNamed_iff.mp hnamed).1
  obtain ⟨answer, w', hcreate, hcreates⟩ :=
    ManifestFile.creates_projection hm hspace hd' hall
  have hrep : ∀ p, answer = .ok p → p.Representable := by
    rintro p rfl
    exact (hcreates.storedAs rfl).representable_iff.mpr (representable_project hd' c.key)
  constructor
  · exact fun args hasks => run_preview hm hd hc hasks hd'
  · refine ⟨answer, w', hcreates, ?_, ?_⟩
    · exact fun args hasks => run_apply hm hd hc hasks hcreate hrep
    · exact fun args hasks => run_promote hm hd hc hasks hcreate

def eastward : Deployable := (Deployable.new "ns" "app").withChannel ⟨"east", "c"⟩

def eastManifest : Manifest := ⟨[eastward], [.new "east" "c"]⟩

def eastWorld : World :=
  ⟨⟨.directory [("m", .text
    ("[[deployables]]\nmetadata = \x7b namespace = \"ns\", name = \"app\" \x7d\n" ++
      "spec.channels = [\"east/c\"]\n[[channels]]\n" ++
        "metadata = \x7b namespace = \"east\", name = \"c\" \x7d\n"))]⟩,
    "/", none, fun _ => ⟨["1"], "u", default⟩, 0⟩

def eastSession : Session := ⟨"m", .table⟩

theorem eastManifest_loaded : eastWorld.manifest eastSession.manifest = .ok eastManifest :=
  eq_ok_of_toOption (by decide +kernel)

theorem eastWorld_asks {args : List String} {command : Command}
    (hargs : parseArguments args =
      some ⟨{ config := none, manifest := some "m", format := none }, command⟩) :
    Asks args eastWorld eastSession command := by
  refine ⟨_, hargs, rfl, ?_⟩
  -- The settings are the same for every command, so it is enough to look them up for one.
  have hsame : (Invocation.session ⟨{ config := none, manifest := some "m", format := none },
      command⟩ : ExceptT Error (StateM World) Session) = promoteAll.session := rfl
  rw [hsame]
  rfl

theorem eastward_created {p : Deployable} {w' : World} (h : Creates "m" eastWorld eastManifest
    (project eastward ⟨"east", "c"⟩) (.ok p) w') :
    p = (project eastward ⟨"east", "c"⟩).completed "app-1" "u" default ∧
      w'.manifest "m" = .ok (eastManifest.extend [p]) := by
  cases h with
  | @stored start ending _ _ hstart hending hp _ hlast =>
    rw [project_generateName, Option.some.injEq] at hstart
    have hending : ending = "1" := List.mem_singleton.mp hending
    have hname : start ++ ending = "app-1" := by
      rw [← hstart, hending]
      decide +kernel
    rw [hname] at hp
    exact ⟨hp, hlast⟩

/-- The deployable is shown as `east/app-`, and both commands store it as `east/app-1`. -/
theorem eastward_previewed : ∃ p w',
    p = (project eastward ⟨"east", "c"⟩).completed "app-1" "u" default ∧
    w'.manifest "m" = .ok (eastManifest.extend [p]) ∧
    (∃ text, Prints (project eastward ⟨"east", "c"⟩) .table text ∧
      StateT.run (run ["-m", "m", "project", "ns/app", "east/c"] : StateM World Exit) eastWorld =
        (⟨0, text, ""⟩, eastWorld)) ∧
    (∃ text, Prints p .table text ∧
      StateT.run (run ["-m", "m", "project", "ns/app", "east/c", "--apply"] : StateM World Exit)
        eastWorld = (⟨0, text, ""⟩, w')) ∧
    StateT.run (run ["-m", "m", "promote", "ns/app", "--channel", "east/c"] : StateM World Exit)
      eastWorld = (⟨0, "CHANNEL                        STATUS     PROJECTION\n" ++
        "east/c                         created    east/app-1\n", ""⟩, w') := by
  have hshow : Asks ["-m", "m", "project", "ns/app", "east/c"] eastWorld eastSession
      (.project ⟨"ns", "app"⟩ ⟨"east", "c"⟩ false) := eastWorld_asks (by decide +kernel)
  have happly : Asks ["-m", "m", "project", "ns/app", "east/c", "--apply"] eastWorld eastSession
      (.project ⟨"ns", "app"⟩ ⟨"east", "c"⟩ true) := eastWorld_asks (by decide +kernel)
  have hpromote : Asks ["-m", "m", "promote", "ns/app", "--channel", "east/c"] eastWorld
      eastSession (.promote ⟨"ns", "app"⟩ [⟨"east", "c"⟩]) := eastWorld_asks (by decide +kernel)
  have hall : ∀ e ∈ eastManifest.deployables, e.Representable := by decide +kernel
  have hd : eastward ∈ eastManifest.deployables := List.mem_cons_self
  have hc : Channel.new "east" "c" ∈ eastManifest.channels := List.mem_cons_self
  obtain ⟨hshown, answer, w', hcreates, happlied, hpromoted⟩ :=
    preview_is_stored eastManifest_loaded hd hc hall
  obtain ⟨text, hprinted, hshown⟩ := hshown _ hshow
  obtain ⟨exit, happlied, htells⟩ := happlied _ happly
  have hcode : (StateT.run (run ["-m", "m", "project", "ns/app", "east/c", "--apply"] :
      StateM World Exit) eastWorld).1.code = 0 := by decide +kernel
  have hdrawn : (StateT.run (run ["-m", "m", "promote", "ns/app", "--channel", "east/c"] :
      StateM World Exit) eastWorld).2.drawn = 1 := by decide +kernel
  rw [happlied] at hcode
  cases htells with
  | error => cases hcode
  | @ok p shown hprints =>
    rcases hpromoted _ hpromote with ⟨_, _, _, -, -, hsettled⟩ | ⟨exit, hpromoted, hcreated⟩
    · rw [hsettled] at hdrawn
      cases hdrawn
    · cases hcreated with
      | @ok _ told hreports =>
        obtain ⟨hp, hlast⟩ := eastward_created hcreates
        have hkey : p.key = ⟨"east", "app-1"⟩ := by
          rw [hp]
          rfl
        rw [hkey] at hreports
        cases hreports with
        | table htext =>
          rw [htext] at hpromoted
          exact ⟨p, w', hp, hlast, ⟨text, hprinted, hshown⟩, ⟨shown, hprints, happlied⟩,
            hpromoted⟩

end Commands

end Cli

end Ferry
