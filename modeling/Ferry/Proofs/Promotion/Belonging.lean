import Ferry.Proofs.Cli.Report
import Ferry.Proofs.Cli.Run
import Ferry.Proofs.GatePolicy
import Ferry.Proofs.Promotion.Recovery
import Ferry.Proofs.Promotion.Residency
import Ferry.Proofs.Promotion.Retirement
import Ferry.Proofs.Store.Refinement

/-!
# Projections belong where they were put

A projection names the channel that it was put into, so it is resident there whatever the
channel asks for, and no promotion puts it there again. Policy lets it reside there if the
annotations that projection writes are such as the gate asks for. All others were copied
from a deployable that passed the gate.
-/
namespace Ferry

/-- The gate asks for no annotation that projection writes. -/
def Channel.AsksForeign (c : Channel) : Prop :=
  ∀ gate, c.gateAnnotations? = some gate → ∀ key ∈ gate.keys, key ∉ Annotation.ofProjection

instance (c : Channel) : Decidable c.AsksForeign :=
  decidable_of_iff (∀ gate ∈ c.gateAnnotations?, ∀ key ∈ gate.keys, key ∉ Annotation.ofProjection)
    Iff.rfl

/-! ### The gate -/

namespace Policy

variable {d p : Deployable} {c : Channel}

theorem passesGate_iff_annotation? :
    passesGate d c = true ↔ ∀ gate, c.gateAnnotations? = some gate →
      d.metadata.annotations.isSome = true ∧
        ∀ e ∈ gate.entries, d.annotation? e.1 = some e.2 := by
  rw [passesGate_iff]
  apply forall₂_congr
  intro gate _
  constructor
  · rintro ⟨annotations, hannotations, hmatches⟩
    refine ⟨by rw [hannotations, Option.isSome_some], ?_⟩
    intro e he
    rw [Deployable.annotation?, Metadata.annotation?, hannotations]
    exact (SortedMap.get?_eq_some_iff annotations).mpr (hmatches he)
  · rintro ⟨hsome, hmatches⟩
    obtain ⟨annotations, hannotations⟩ := Option.isSome_iff_exists.mp hsome
    refine ⟨annotations, hannotations, ?_⟩
    intro e he
    have hget := hmatches e he
    rw [Deployable.annotation?, Metadata.annotation?, hannotations] at hget
    exact (SortedMap.get?_eq_some_iff annotations).mp hget

/-- A projection of a deployable that passes the gate may reside in the channel exactly if the gate
asks for what projection wrote. -/
theorem resides_projection_iff (hstored : (project d c.key).StoredAs p)
    (hpasses : passesGate d c = true) :
    resides p c = true ↔ ∀ gate, c.gateAnnotations? = some gate →
      ∀ e ∈ gate.entries, e.1 ∈ Annotation.ofProjection → p.annotation? e.1 = some e.2 := by
  obtain ⟨name, uid, createdAt, rfl⟩ := hstored
  have hspace : c.key.space = c.space := rfl
  simp only [resides, Deployable.completed_space, project_space, hspace, decide_true,
    Bool.true_and, passesGate_iff_annotation?] at hpasses ⊢
  apply forall₂_congr
  intro gate hgate
  obtain ⟨-, hmatches⟩ := hpasses gate hgate
  constructor
  · rintro ⟨-, hall⟩ e he -
    exact hall e he
  · intro hwritten
    refine ⟨rfl, ?_⟩
    intro e he
    by_cases hkey : e.1 ∈ Annotation.ofProjection
    · exact hwritten e he hkey
    · rw [Deployable.completed_annotation?, annotation?_project_of_notMem d c.key hkey]
      exact hmatches e he

end Policy

/-! ### The check -/

namespace Cli

variable {w : World} {m : Manifest} {session : Session} {dkey ckey : ObjectKey} {d : Deployable}
  {c : Channel}

theorem Session.runFrom_check (hm : w.manifest session.manifest = .ok m)
    (hd : m.deployable? dkey = some d) (hc : m.channel? ckey = some c) :
    runFrom (session.run (.check dkey ckey)) w = (.ok (checkReport session.format d c), w) := by
  unfold Session.run
  rw [runFrom_bind_ok (Session.runFrom_deployable_of_found hm hd),
    runFrom_bind_ok (Session.runFrom_channel_of_found hm hc), runFrom_pure]

theorem run_check {args : List String} {invocation : Invocation}
    (hargs : parseArguments args = some invocation)
    (hcommand : invocation.command = .check dkey ckey)
    (hsession : (runFrom invocation.session w).1 = .ok session)
    (hm : w.manifest session.manifest = .ok m) (hd : m.deployable? dkey = some d)
    (hc : m.channel? ckey = some c) :
    StateT.run (run args : StateM World Exit) w =
      (⟨0, checkReport session.format d c, ""⟩, w) :=
  run_of_asks ⟨invocation, hargs, hcommand, hsession⟩ (Session.runFrom_check hm hd hc)

end Cli

namespace Promotion

/-- A deployable belongs into a channel: a promotion of it, into whatever channels, tells that it is
resident there and asks for no object there, and it asks the store for nothing if there is no other
channel. Unless the gate asks for annotations that projection writes, policy lets the deployable
reside there, and a check of it shows that it is allowed in the channel. -/
structure BelongsIn (p : Deployable) (c : Channel) : Prop where
  resident : ∀ {σ : Type} (store : Store (StateM σ)) (channels : List Channel) s report s',
    runFrom (promote store p channels) s = (.ok report, s') →
      report.EachTells channels fun c' outcome => c'.key = c.key → outcome = .resident
  unasked : ∀ {σ : Type} (store : Store (StateM σ)) (channels : List Channel) s result s',
    runFrom (promote store.guarded p channels) s = (result, s') →
      ∃ asked, s'.calls = s.calls ++ asked ∧ ∀ q, Store.Call.create q ∈ asked →
        q.annotation? Annotation.channel ≠ some c.identity
  alone : ∀ {m : Type → Type} [Monad m] [LawfulMonad m] (store : Store m)
    (channels : List Channel), (∀ c' ∈ channels, c'.key = c.key) →
      promote store p channels = pure ⟨channels.map fun c' => (c'.key, .resident)⟩
  resides : c.AsksForeign → Policy.residency (some p) (some c) = true
  checked : c.AsksForeign → ∀ args invocation (w : World) session m,
    Cli.parseArguments args = some invocation → invocation.command = .check p.key c.key →
      (runFrom invocation.session w).1 = .ok session → w.manifest session.manifest = .ok m →
        m.deployable? p.key = some p → m.channel? c.key = some c →
          ∃ text, Cli.Allows p c session.format text ∧
            StateT.run (Cli.run args : StateM World Cli.Exit) w = (⟨0, text, ""⟩, w)

variable {d p : Deployable} {c : Channel}

section Resident

variable (hnames : p.annotation? Annotation.channel = some c.identity)
include hnames

theorem livesIn_of_names {c' : Channel} (hkey : c'.key = c.key) : LivesIn p c' := by
  left
  rw [hnames, Channel.identity, Channel.identity, hkey]

theorem settled_of_names {channels : List Channel} (h : ∀ c' ∈ channels, c'.key = c.key) :
    settled p channels = channels.map fun c' => (c'.key, .resident) := by
  unfold settled
  rw [← List.filterMap_eq_map]
  apply List.filterMap_congr
  intro c' hc'
  have hresident : isResident p c' = true := isResident_iff.mpr (livesIn_of_names hnames (h c' hc'))
  rw [settled?, if_pos hresident, Function.comp_apply]

theorem eligible_of_names {channels : List Channel} (h : ∀ c' ∈ channels, c'.key = c.key) :
    eligible p channels = [] := by
  rw [eligible, List.filter_eq_nil_iff]
  intro c' hc' heligible
  exact (isEligible_iff.mp heligible).1 (livesIn_of_names hnames (h c' hc'))

end Resident

theorem TellsOf.passesGate_of_created {channels : List Channel} {before : List Deployable}
    {key : ObjectKey} (h : TellsOf d channels before c (c.key, .created key)) :
    Policy.passesGate d c = true := by
  obtain ⟨henters, -⟩ := h.created.mp ⟨key, rfl⟩
  exact (Bool.and_eq_true_iff.mp henters.2).2

theorem belongsIn_of_storedAs (hstored : (project d c.key).StoredAs p)
    (hpasses : Policy.passesGate d c = true) : BelongsIn p c := by
  have hnames : p.annotation? Annotation.channel = some c.identity := by
    obtain ⟨name, uid, createdAt, rfl⟩ := hstored
    rw [Deployable.completed_annotation?, project_channel, Channel.identity]
  have hresides : c.AsksForeign → Policy.resides p c = true := by
    intro hforeign
    rw [Policy.resides_projection_iff hstored hpasses]
    intro gate hgate e he hkey
    exact absurd hkey (hforeign gate hgate e.1 (List.mem_map_of_mem he))
  constructor
  case resident =>
    intro σ store channels s report s' hrun
    apply (eachTells_of_run hrun).imp
    intro c' _ outcome _ htells hkey
    exact htells.resident.mpr (livesIn_of_names hnames hkey)
  case unasked =>
    intro σ store channels s result s' hrun
    obtain ⟨made, hcourse⟩ := course_of_run hrun
    obtain ⟨asked, hcalls, hasked⟩ := hcourse.exists_asked
    refine ⟨asked, hcalls, ?_⟩
    intro q hq hchannel
    obtain ⟨c', -, henters, rfl⟩ := hasked q hq
    rw [project_channel] at hchannel
    exact henters.1 (.inl (hnames.trans hchannel.symm))
  case alone =>
    intro m _ _ store channels hkeys
    rw [promote_of_eligible_eq_nil store (eligible_of_names hnames hkeys),
      settled_of_names hnames hkeys]
  case resides => exact hresides
  case checked =>
    intro hforeign args invocation w session m hargs hcommand hsession hm hp hc
    exact ⟨_, Cli.allows_checkReport (hresides hforeign) session.format,
      Cli.run_check hargs hcommand hsession hm hp hc⟩

/-! ### After a promotion -/

/-- An object that a successful promotion in a manifest file reports as new is in the manifest under
its key, as a projection into its channel. -/
theorem Course.created_written {path : String} {channels : List Channel} {w w' : World}
    {m : Manifest} {report : PromotionReport} {made : List (ObjectKey × Deployable)}
    (h : Course (ManifestFile.store path) d channels w (.ok report) made w')
    (hm : w.manifest path = .ok m)
    (hback : ∀ m' ∈ written w.supply d w.drawn m (missing m.deployables d channels), m'.ReadsBack)
    {channel key : ObjectKey} (hcreated : (channel, .created key) ∈ report.outcomes) :
    ∃ p m', (project d channel).StoredAs p ∧ w'.manifest path = .ok m' ∧
      m'.deployable? key = some p := by
  obtain ⟨hlast, hkept⟩ := h.kept_of_readsBack hm hback
  obtain ⟨p, hp, hkey⟩ := h.exists_made_of_created rfl hcreated
  have hvalid := (World.loaded_of_manifest hlast).valid
  have hnodup := (Manifest.validate_eq_ok_iff.mp hvalid).1.2
  have hfound := (find?_key_eq_some_iff hnodup).mpr ⟨hkept.mem_of_made hp, hkey⟩
  exact ⟨p, _, hkept.stored _ hp, hlast, hfound⟩

/-- What a successful promotion tells as created is stored under the key that it tells, in memory
and in a manifest file whose texts can be read back, and it belongs into the channel. -/
theorem created_belongs (d : Deployable) (channels : List Channel) :
    (∀ seed supply drawn report s',
      runFrom (promote Shelf.store d channels) ⟨.ofDeployables seed, supply, drawn⟩ =
          (.ok report, s') →
        report.EachTells channels fun c outcome => ∀ key, outcome = .created key →
          ∃ p, s'.memory.get? key = some p ∧ BelongsIn p c) ∧
    ∀ path (w : World) m report w',
      w.manifest path = .ok m →
      (∀ m' ∈ written w.supply d w.drawn m (missing m.deployables d channels), m'.ReadsBack) →
      runFrom (promote (ManifestFile.store path) d channels) w = (.ok report, w') →
        report.EachTells channels fun c outcome => ∀ key, outcome = .created key →
          ∃ p m', w'.manifest path = .ok m' ∧ m'.deployable? key = some p ∧ BelongsIn p c := by
  constructor
  · intro seed supply drawn report s' hrun
    obtain ⟨made, hcourse⟩ := course_of_run hrun
    apply hcourse.eachTells.imp
    rintro c - outcome hentry htells key rfl
    have hpasses := htells.passesGate_of_created
    obtain ⟨p, hstored, hget⟩ := hcourse.created_stored (Memory.keyed_ofDeployables seed) hentry
    exact ⟨p, hget, belongsIn_of_storedAs hstored hpasses⟩
  · intro path w m report w' hm hback hrun
    obtain ⟨made, hcourse⟩ := course_of_run hrun
    apply hcourse.eachTells.imp
    rintro c - outcome hentry htells key rfl
    have hpasses := htells.passesGate_of_created
    obtain ⟨p, m', hstored, hlast, hfound⟩ := hcourse.created_written hm hback hentry
    exact ⟨p, m', hlast, hfound, belongsIn_of_storedAs hstored hpasses⟩

def gilded : Deployable :=
  Deployable.withAnnotation (Deployable.withAnnotation declaring "tier" "gold")
    Annotation.channel "x/y"

def golden : Channel := Channel.withGateAnnotation (.new "b" "c") "tier" "gold"

def channelWorld : World :=
  { bareWorld with
    disk := Disk.empty.put ["m"] (.text
      "[[channels]]\nmetadata = \x7b namespace = \"b\", name = \"c\" \x7d\n") }

def channelManifest : Manifest := ⟨[], [.new "b" "c"]⟩

theorem channelWorld_readsBack :
    ∀ m' ∈ written channelWorld.supply sparse channelWorld.drawn channelManifest [⟨"b", "c"⟩],
      m'.ReadsBack := by
  have hwritten : written channelWorld.supply sparse channelWorld.drawn channelManifest
      [⟨"b", "c"⟩] =
      [channelManifest.extend [(project sparse ⟨"b", "c"⟩).completed "r-1" "u" default]] := by
    decide +kernel
  intro m' hm'
  rw [hwritten, List.mem_singleton] at hm'
  subst hm'
  exact Manifest.readsBack_of_decoded (by decide +kernel) (by decide +kernel)

def channelCheck : Cli.Invocation :=
  ⟨{ config := none, manifest := some "m", format := none }, .check ⟨"b", "r-1"⟩ ⟨"b", "c"⟩⟩

theorem channelWorld_loaded : channelWorld.manifest "m" = .ok channelManifest :=
  eq_ok_of_toOption (by decide +kernel)

theorem channelWorld_promoted : ∃ w',
    runFrom (promote (ManifestFile.store "m") sparse [.new "b" "c"]) channelWorld =
      (.ok sparseReport, w') ∧
    ∃ session, (runFrom channelCheck.session w').1 = .ok session ∧ session.manifest = "m" ∧
      session.format = .table := by
  have hok : (runFrom (promote (ManifestFile.store "m") sparse [.new "b" "c"]) channelWorld).1 =
      .ok sparseReport := eq_ok_of_toOption (by decide +kernel)
  have hsession : (runFrom channelCheck.session (runFrom (promote (ManifestFile.store "m") sparse
      [.new "b" "c"]) channelWorld).2).1.toOption.map
        (fun session => (session.manifest, session.format)) = some ("m", .table) := by
    decide +kernel
  -- From here on the run is not evaluated any more.
  generalize runFrom (promote (ManifestFile.store "m") sparse [.new "b" "c"]) channelWorld = run
    at hok hsession ⊢
  obtain ⟨result, w'⟩ := run
  obtain rfl : result = .ok sparseReport := hok
  obtain ⟨session, hopened, hsame⟩ := Option.map_eq_some_iff.mp hsession
  obtain ⟨hpath, hformat⟩ := Prod.mk.inj hsame
  exact ⟨w', rfl, session, eq_ok_of_toOption hopened, hpath, hformat⟩

/-- A projection whose source named another channel belongs into its own, and one in a file is shown
as allowed there. -/
theorem gilded_belongs :
    (∃ p s', runFrom (promote Shelf.store gilded [golden]) (stocked [gilded]) =
        (.ok ⟨[(golden.key, .created ⟨"b", "r-1"⟩)]⟩, s') ∧
      s'.memory.get? ⟨"b", "r-1"⟩ = some p ∧ BelongsIn p golden ∧
      Policy.residency (some p) (some golden) = true) ∧
    ∃ p w', runFrom (promote (ManifestFile.store "m") sparse [.new "b" "c"]) channelWorld =
        (.ok sparseReport, w') ∧
      BelongsIn p (.new "b" "c") ∧
      ∃ promotable, StateT.run (Cli.run ["-m", "m", "check", "b/r-1", "b/c"] :
        StateM World Cli.Exit) w' = (⟨0, "deployable   b/r-1\nchannel      b/c\n" ++
          "in-channel   allowed\n" ++ "to-channel   " ++ promotable ++ "\n", ""⟩, w') := by
  constructor
  · have hok : (runFrom (promote Shelf.store gilded [golden]) (stocked [gilded])).1 =
        .ok ⟨[(golden.key, .created ⟨"b", "r-1"⟩)]⟩ := eq_ok_of_toOption (by decide +kernel)
    have hrun := Prod.ext (y := (_, _)) hok rfl
    have htold := (created_belongs gilded [golden]).1 _ _ _ _ _ hrun
    obtain ⟨-, hcreated⟩ := htold.of_singleton
    obtain ⟨p, hget, hbelongs⟩ := hcreated _ rfl
    exact ⟨p, _, hrun, hget, hbelongs, hbelongs.resides (by decide +kernel)⟩
  · obtain ⟨w', hrun, session, hopened, hpath, hformat⟩ := channelWorld_promoted
    have htold := (created_belongs sparse [.new "b" "c"]).2 "m" channelWorld _ _ _
      channelWorld_loaded channelWorld_readsBack hrun
    obtain ⟨-, hcreated⟩ := htold.of_singleton
    obtain ⟨p, m', hlast, hfound, hbelongs⟩ := hcreated _ rfl
    obtain ⟨made, hcourse⟩ := course_of_run hrun
    have hgrown := (hcourse.kept_of_readsBack channelWorld_loaded channelWorld_readsBack).1
    rw [hlast, Except.ok.injEq] at hgrown
    have hkey : p.key = ⟨"b", "r-1"⟩ := by simpa using List.find?_some hfound
    have hidentity : p.identity = "b/r-1" := by
      rw [Deployable.identity, hkey]
      decide +kernel
    have hchannel : m'.channel? ⟨"b", "c"⟩ = some (.new "b" "c") := by
      rw [hgrown]
      rfl
    have hargs : Cli.parseArguments ["-m", "m", "check", "b/r-1", "b/c"] = some channelCheck := by
      decide +kernel
    have hchecks : channelCheck.command = .check p.key ⟨"b", "c"⟩ := by rw [hkey, channelCheck]
    rw [← hkey] at hfound
    rw [← hpath] at hlast
    obtain ⟨text, hallows, hshown⟩ := hbelongs.checked (by decide +kernel) _ channelCheck w' session
      m' hargs hchecks hopened hlast hfound hchannel
    rw [hformat] at hallows
    cases hallows with
    | table htext =>
      rw [htext, hidentity] at hshown
      exact ⟨p, w', hrun, hbelongs, _, hshown⟩

end Promotion

end Ferry
