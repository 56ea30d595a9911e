import Ferry.Proofs.Promotion.Written
import Ferry.Proofs.Store.Memory

/-!
# What a report promises

An object that a report tells of is in the store after the run. A new one is a
projection of the root in its channel. One that was there already may also be a
child of the deployable, which names the channel but may stand in the namespace of
another eligible channel, and need not name the root.
-/
namespace Ferry.Promotion

/-- The objects after a successful promotion bear out its report. -/
structure BorneOut (d : Deployable) (channels : List Channel) (before after : List Deployable)
    (report : PromotionReport) : Prop where
  created : ∀ channel key, (channel, Outcome.created key) ∈ report.outcomes →
    ∃ p ∈ after, p.key = key ∧ isProjectionInto d.root channel p = true
  present : ∀ channel key, (channel, Outcome.alreadyPresent key) ∈ report.outcomes →
    ∃ p ∈ after, p.key = key ∧ (isProjectionInto d.root channel p = true ∨
      isChildFor d (eligibleSpaces d channels) channel p = true)
  /-- An eligible channel holds a projection of the root, unless it held none before and a child
  was taken for one. -/
  held : ∀ channel ∈ eligibleKeys d channels,
    (∃ p ∈ after, isProjectionInto d.root channel p = true) ↔
      (∃ q ∈ before, isProjectionInto d.root channel q = true) ∨
        ∀ q ∈ before, isChildFor d (eligibleSpaces d channels) channel q = false

variable {σ : Type} {store : Store (StateM σ)} {d : Deployable} {channels : List Channel} {s s' : σ}
  {made : List (ObjectKey × Deployable)} {before after : List Deployable}

/-- New projections appear in exactly the channels where nothing was found. -/
theorem Kept.held_iff (h : Kept d made before after) (hkeys : eligibleKeys d channels ≠ [])
    (hmade : made.map Prod.fst = missing before d channels) {channel : ObjectKey}
    (hchannel : channel ∈ eligibleKeys d channels) :
    (∃ p ∈ after, isProjectionInto d.root channel p = true) ↔
      (∃ q ∈ before, isProjectionInto d.root channel q = true) ∨
        ∀ q ∈ before, isChildFor d (eligibleSpaces d channels) channel q = false := by
  constructor
  · rintro ⟨p, hp, hprojects⟩
    rcases h.mem_before_or_made hp with hold | ⟨m, hm, rfl⟩
    · exact .inl ⟨p, hold, hprojects⟩
    · have hsame := (eq_of_isProjectionInto hprojects (h.projects hm)).2
      have hnone := (found?_of_made hmade hm).2
      rw [← hsame, found?_eq_none_iff hkeys] at hnone
      exact .inr fun q hq => (hnone q hq).2
  · intro hcases
    by_cases hold : ∃ q ∈ before, isProjectionInto d.root channel q = true
    · obtain ⟨q, hq, hprojects⟩ := hold
      exact ⟨q, h.mem_of_before hq, hprojects⟩
    · have hchild := hcases.resolve_left hold
      have hnone : found? before d channels channel = none := by
        rw [found?_eq_none_iff hkeys]
        intro q hq
        exact ⟨Bool.eq_false_iff.mpr fun hprojects => hold ⟨q, hq, hprojects⟩, hchild q hq⟩
      obtain ⟨m, hm, rfl⟩ := exists_made hmade hchannel hnone
      exact ⟨m.2, h.mem_of_made hm, h.projects hm⟩

theorem Course.borneOut {report : PromotionReport}
    (h : Course store d channels s (.ok report) made s') (hlisted : store.listed s = before)
    (hkept : Kept d made before after) : BorneOut d channels before after report := by
  cases h with
  | idle hkeys =>
    constructor
    · intro channel key he
      rcases outcome_of_mem_settled he with h | h <;> cases h
    · intro channel key he
      rcases outcome_of_mem_settled he with h | h <;> cases h
    · intro channel hchannel
      rw [hkeys] at hchannel
      cases hchannel
  | completed hkeys hlist hplaced =>
    obtain rfl := (Store.listed_eq hlist).symm.trans hlisted
    constructor
    · intro channel key he
      rcases List.mem_append.mp he with he | he
      · rcases outcome_of_mem_settled he with h | h <;> cases h
      · obtain ⟨p, hp, hkey⟩ := hplaced.mem_made he
        exact ⟨p, hkept.mem_of_made hp, hkey, hkept.projects hp⟩
    · intro channel key he
      rcases List.mem_append.mp he with he | he
      · rcases outcome_of_mem_settled he with h | h <;> cases h
      · obtain ⟨q, hq, hkey⟩ := hplaced.exists_found he
        obtain ⟨hmem, hfits⟩ := mem_of_found? hkeys hq
        exact ⟨q, hkept.mem_of_before hmem, hkey, hfits⟩
    · intro channel hchannel
      exact hkept.held_iff hkeys hplaced.made_keys hchannel

/-- A successful promotion is borne out by the store after it, in memory, where every object is
found under its key, and in a manifest file whose texts can be read back. -/
theorem promote_borneOut (d : Deployable) (channels : List Channel) :
    (∀ seed supply drawn report s',
      runFrom (promote Shelf.store d channels) ⟨.ofDeployables seed, supply, drawn⟩ =
          (.ok report, s') →
        BorneOut d channels (Memory.ofDeployables seed).values s'.objects report ∧
          ∀ p ∈ s'.objects, s'.memory.get? p.key = some p) ∧
    ∀ path (w : World) m report w',
      w.manifest path = .ok m →
      (∀ m' ∈ written w.supply d w.drawn m (missing m.deployables d channels), m'.ReadsBack) →
      runFrom (promote (ManifestFile.store path) d channels) w = (.ok report, w') →
        ∃ m', w'.manifest path = .ok m' ∧
          BorneOut d channels m.deployables m'.deployables report := by
  constructor
  · intro seed supply drawn report s' hrun
    obtain ⟨made, hcourse⟩ :=
      promote_course Shelf.store d channels ⟨.ofDeployables seed, supply, drawn⟩
    rw [hrun] at hcourse
    refine ⟨hcourse.borneOut rfl (hcourse.kept Shelf.steady), ?_⟩
    have hkeyed : s'.memory.Keyed := by
      refine hcourse.invariant (P := fun s => s.memory.Keyed) ?_ Shelf.keyed_of_create
        (Memory.keyed_ofDeployables seed)
      intro s answer t hlist hs
      rw [Shelf.runFrom_list, Prod.mk.injEq] at hlist
      rwa [← hlist.2]
    intro p hp
    exact hkeyed.get?_iff.mpr ⟨hp, rfl⟩
  · intro path w m report w' hm hback hrun
    obtain ⟨made, hcourse⟩ := promote_course (ManifestFile.store path) d channels w
    rw [hrun] at hcourse
    obtain ⟨hlast, hkept⟩ := hcourse.kept_of_readsBack hm hback
    refine ⟨_, hlast, hcourse.borneOut ?_ hkept⟩
    refine Store.listed_eq (t := w) ?_
    rw [ManifestFile.runFrom_list, hm]
    rfl

def labelled (space name start source channel : String) : Deployable :=
  let bare := (Deployable.new space name).withGenerateName start
  let sourced := Deployable.withAnnotation bare Annotation.channelSource source
  Deployable.withAnnotation sourced Annotation.channel channel

/-- A child may stand in the namespace of another channel, and a child of a projection does not name
the root; either is shown as present in its channel, which holds no projection. -/
theorem present_without_projection :
    (let d := ((Deployable.new "a" "r").withChannel ⟨"b", "c"⟩).withChannel ⟨"e", "f"⟩
      let (result, s') := runFrom (promote Shelf.store d [.new "b" "c", .new "e" "f"])
        ⟨.ofDeployables [d, labelled "e" "x" "r-" "a/r" "b/c"], fun _ => ⟨["1"], "u", default⟩, 0⟩
      result.toOption = some ⟨[(⟨"b", "c"⟩, .alreadyPresent ⟨"e", "x"⟩),
        (⟨"e", "f"⟩, .created ⟨"e", "r-1"⟩)]⟩ ∧
      ∀ p ∈ s'.objects, isProjectionInto d.root ⟨"b", "c"⟩ p = false) ∧
    (let d := (labelled "a" "p" "" "z/r" "y/c").withChannel ⟨"b", "c"⟩
      let (result, s') := runFrom (promote Shelf.store d [.new "b" "c"])
        ⟨.ofDeployables [d, labelled "b" "x" "p-" "a/p" "b/c"], fun _ => ⟨["1"], "u", default⟩, 0⟩
      result.toOption = some ⟨[(⟨"b", "c"⟩, .alreadyPresent ⟨"b", "x"⟩)]⟩ ∧
      ∀ p ∈ s'.objects, isProjectionInto d.root ⟨"b", "c"⟩ p = false) := by
  decide +kernel

theorem sparse_borneOut :
    (∃ s', runFrom (promote Shelf.store sparse [.new "b" "c"])
        ⟨.ofDeployables [sparse], bareWorld.supply, 0⟩ = (.ok sparseReport, s') ∧
      BorneOut sparse [.new "b" "c"] (Memory.ofDeployables [sparse]).values s'.objects
        sparseReport) ∧
    ∃ w' m', runFrom (promote (ManifestFile.store "m") sparse [.new "b" "c"]) bareWorld =
        (.ok sparseReport, w') ∧ w'.manifest "m" = .ok m' ∧
      BorneOut sparse [.new "b" "c"] [] m'.deployables sparseReport := by
  obtain ⟨hmemory, hfile⟩ := promote_borneOut sparse [.new "b" "c"]
  constructor
  · have hcreated : (runFrom (promote Shelf.store sparse [.new "b" "c"])
        ⟨.ofDeployables [sparse], bareWorld.supply, 0⟩).1 = .ok sparseReport :=
      eq_ok_of_toOption (by decide +kernel)
    have hrun := Prod.ext (y := (_, _)) hcreated rfl
    exact ⟨_, hrun, (hmemory _ _ _ _ _ hrun).1⟩
  · have hrun := Prod.ext (y := (_, _)) sparse_created rfl
    obtain ⟨m', hm', hborne⟩ := hfile "m" bareWorld .empty _ _ rfl sparse_readsBack hrun
    exact ⟨_, m', hrun, hm', hborne⟩

end Ferry.Promotion
