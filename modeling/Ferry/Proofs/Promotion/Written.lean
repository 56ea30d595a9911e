import Ferry.Proofs.Promotion.Made
import Ferry.Proofs.Store.ManifestFile

/-!
# Promotion in a manifest file

Every projection that a promotion makes is written with the whole manifest, and
read again before the next one. So the file holds what it should as long as each
of these manifests can be read back.
-/
namespace Ferry.Promotion

/-- The manifests that a promotion writes one after another for channels without a projection. -/
def written (supply : Nat → Allocation) (d : Deployable) :
    (drawn : Nat) → Manifest → List ObjectKey → List Manifest
  | _, _, [] => []
  | drawn, m, key :: keys =>
    match prepareForCreate (supply drawn) m.isTaken (project d key) with
    | .ok p => m.extend [p] :: written supply d (drawn + 1) (m.extend [p]) keys
    | .error _ => []

variable {path : String} {d : Deployable} {w w' : World} {m : Manifest}
  {made : List (ObjectKey × Deployable)}

theorem insertedInto_append {α : Type} (p : α) (objects : List α) :
    InsertedInto p objects (objects ++ [p]) := ⟨objects, [], by simp, rfl⟩

theorem Placed.kept_of_readsBack {found? : ObjectKey → Option Deployable} {keys : List ObjectKey}
    {entries : List (ObjectKey × Outcome)}
    (h : Placed (ManifestFile.store path) d found? w keys entries made w')
    (hm : w.manifest path = .ok m)
    (hback : ∀ m' ∈ written w.supply d w.drawn m (keys.filter fun key => (found? key).isNone),
      m'.ReadsBack) :
    w'.manifest path = .ok (m.extend (made.map Prod.snd)) ∧
      Kept d made m.deployables (m.extend (made.map Prod.snd)).deployables := by
  induction h generalizing m with
  | nil => exact ⟨by simpa using hm, by simpa using Kept.nil d m.deployables⟩
  | present hfound _ ih =>
    rw [List.filter_cons_of_neg (by simp [hfound])] at hback
    exact ih hm hback
  | @created w t w' key keys entries made p hfound hcreate _ ih =>
    obtain ⟨m₀, text, hm₀, hprepare, htext, hread, hsupply, hdrawn⟩ :=
      ManifestFile.create_ok hcreate
    obtain rfl : m₀ = m := by simpa [hm₀] using hm
    rw [List.filter_cons_of_pos (by simp [hfound]), written, hprepare] at hback
    have hnext : t.manifest path = .ok (m₀.extend [p]) := by
      rw [hread]
      exact hback _ List.mem_cons_self text htext
    rw [← hsupply, ← hdrawn] at hback
    obtain ⟨hlast, hkept⟩ := ih hnext fun m' hm' => hback m' (List.mem_cons_of_mem _ hm')
    rw [Manifest.extend_extend] at hlast hkept
    exact ⟨hlast, .cons (prepareForCreate_ok hprepare).1 (insertedInto_append p _) hkept⟩

/-- A promotion that succeeds leaves the manifest that it found with its new objects at the end, if
every manifest that it wrote can be read back. -/
theorem Course.kept_of_readsBack {channels : List Channel} {report : PromotionReport}
    (h : Course (ManifestFile.store path) d channels w (.ok report) made w')
    (hm : w.manifest path = .ok m)
    (hback : ∀ m' ∈ written w.supply d w.drawn m (missing m.deployables d channels),
      m'.ReadsBack) :
    w'.manifest path = .ok (m.extend (made.map Prod.snd)) ∧
      Kept d made m.deployables (m.extend (made.map Prod.snd)).deployables := by
  cases h with
  | idle => exact ⟨by simpa using hm, by simpa using Kept.nil d m.deployables⟩
  | completed _ hlist hplaced =>
    rw [ManifestFile.runFrom_list, hm, Prod.mk.injEq] at hlist
    obtain ⟨hshown, rfl⟩ := hlist
    cases hshown
    exact hplaced.kept_of_readsBack hm hback

def sparse : Deployable :=
  { ((Deployable.new "a" "r").withChannel ⟨"b", "c"⟩) with apiVersion := "", kind := "" }

def bareWorld : World := ⟨.empty, "/", none, fun _ => ⟨["1"], "u", default⟩, 0⟩

def sparseReport : PromotionReport := ⟨[(⟨"b", "c"⟩, .created ⟨"b", "r-1"⟩)]⟩

theorem sparse_created :
    (runFrom (promote (ManifestFile.store "m") sparse [.new "b" "c"]) bareWorld).1 =
      .ok sparseReport :=
  eq_ok_of_toOption (by decide +kernel)

theorem sparse_readsBack :
    ∀ m' ∈ written bareWorld.supply sparse bareWorld.drawn .empty [⟨"b", "c"⟩], m'.ReadsBack := by
  have hwritten : written bareWorld.supply sparse bareWorld.drawn .empty [⟨"b", "c"⟩] =
      [Manifest.empty.extend [(project sparse ⟨"b", "c"⟩).completed "r-1" "u" default]] := by
    decide +kernel
  intro m' hm'
  rw [hwritten, List.mem_singleton] at hm'
  subst hm'
  exact Manifest.readsBack_of_decoded (by decide +kernel) (by decide +kernel)

end Ferry.Promotion
