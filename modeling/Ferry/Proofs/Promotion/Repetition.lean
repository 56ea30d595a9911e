import Ferry.Proofs.Promotion.Made
import Ferry.Proofs.Store.Memory

/-!
# Channels named twice

A promotion looks at the store once, before it creates anything. So a channel
that is named twice gets two projections if it has none, and the report tells of
two new objects. It creates at most one in each channel exactly if the eligible
channels without a projection are named once each.
-/
namespace Ferry.Promotion

/-- Of the entries for one channel at most one tells of a new object, and all later ones show that
object as already present. -/
def CreatesOnce (entries : List (ObjectKey × Outcome)) : Prop :=
  entries.Pairwise fun e later =>
    later.1 = e.1 → ∀ key ∈ e.2.created?, later.2 = .alreadyPresent key

instance (entries : List (ObjectKey × Outcome)) : Decidable (CreatesOnce entries) :=
  inferInstanceAs (Decidable (List.Pairwise _ _))

variable {σ : Type} {store : Store (StateM σ)} {d : Deployable} {channels : List Channel} {s s' : σ}
  {made : List (ObjectKey × Deployable)} {keys : List ObjectKey}
  {entries : List (ObjectKey × Outcome)}

theorem Placed.exists_created {found? : ObjectKey → Option Deployable}
    (h : Placed store d found? s keys entries made s') {e : ObjectKey × Outcome} (he : e ∈ entries)
    (hnone : found? e.1 = none) : ∃ key, e.2 = .created key := by
  induction h with
  | nil => cases he
  | present hfound _ ih =>
    rcases List.mem_cons.mp he with rfl | he
    · rw [hfound] at hnone
      cases hnone
    · exact ih he
  | created _ _ _ ih =>
    rcases List.mem_cons.mp he with rfl | he
    · exact ⟨_, rfl⟩
    · exact ih he

theorem Placed.createsOnce_iff {found? : ObjectKey → Option Deployable}
    (h : Placed store d found? s keys entries made s') :
    CreatesOnce entries ↔ (keys.filter fun key => (found? key).isNone).Nodup := by
  unfold CreatesOnce
  induction h with
  | nil => simp
  | present hfound hrest ih =>
    rw [List.pairwise_cons, ih, List.filter_cons_of_neg (by simp [hfound])]
    simp [Outcome.created?]
  | @created s t s' key keys entries made p hfound _ hrest ih =>
    rw [List.pairwise_cons, ih, List.filter_cons_of_pos (by simp [hfound]), List.nodup_cons]
    refine and_congr_left fun _ => ⟨?_, ?_⟩
    · intro hlater hmem
      -- A second entry for the channel tells of another new object.
      have hkey : key ∈ entries.map Prod.fst := by
        rw [hrest.entry_keys]
        exact (List.mem_filter.mp hmem).1
      obtain ⟨e, he, rfl⟩ := List.mem_map.mp hkey
      obtain ⟨key', hcreated⟩ := hrest.exists_created he hfound
      have hpresent := hlater e he rfl p.key rfl
      rw [hcreated] at hpresent
      cases hpresent
    · intro hnot e he hsame
      refine absurd ?_ hnot
      rw [List.mem_filter]
      refine ⟨?_, by simp [hfound]⟩
      rw [← hrest.entry_keys]
      exact List.mem_map.mpr ⟨e, he, hsame⟩

theorem createsOnce_settled_append (d : Deployable) (channels : List Channel)
    (entries : List (ObjectKey × Outcome)) :
    CreatesOnce (settled d channels ++ entries) ↔ CreatesOnce entries := by
  unfold CreatesOnce
  rw [List.pairwise_append]
  constructor
  · exact fun h => h.2.1
  · intro h
    refine ⟨?_, h, ?_⟩
    · refine (List.pairwise_of_forall (R := fun _ _ => True) fun _ _ => trivial).imp_of_mem ?_
      intro e later he _ _
      simp [created?_of_mem_settled he]
    · intro e he later _
      simp [created?_of_mem_settled he]

/-- A promotion that succeeds in a store of any kind makes one object for each eligible channel in
which it found none, as often as the list names it; so its report tells of one new object in each
channel at most exactly if the list names none of these twice. -/
theorem promote_createsOnce_iff {report : PromotionReport}
    (h : (runFrom (promote store d channels) s).1 = .ok report) :
    (CreatesOnce report.outcomes ↔ (missing (store.listed s) d channels).Nodup) ∧
      ∀ objects, store.Steady objects →
        ∃ made : List (ObjectKey × Deployable),
          (objects (runFrom (promote store d channels) s).2).Perm
              (objects s ++ made.map Prod.snd) ∧
            made.map Prod.fst = missing (store.listed s) d channels ∧
            ∀ m ∈ made, isProjectionInto d.root m.1 m.2 = true := by
  obtain ⟨made, hcourse⟩ := promote_course store d channels s
  generalize (runFrom (promote store d channels) s).2 = s' at hcourse
  rw [h] at hcourse
  have hkept : ∀ objects, store.Steady objects →
      (objects s').Perm (objects s ++ made.map Prod.snd) ∧
        ∀ m ∈ made, isProjectionInto d.root m.1 m.2 = true := by
    intro objects hstore
    have hmade := hcourse.kept hstore
    exact ⟨hmade.grown.perm, fun m hm => hmade.projects hm⟩
  cases hcourse with
  | idle hkeys =>
    have hmissing : missing (store.listed s) d channels = [] := by simp [missing, hkeys]
    have honce := createsOnce_settled_append d channels []
    rw [List.append_nil] at honce
    refine ⟨?_, fun objects hstore => ⟨[], (hkept objects hstore).1, hmissing.symm, by simp⟩⟩
    rw [hmissing, honce]
    simp [CreatesOnce]
  | completed hkeys hlist hplaced =>
    rw [Store.listed_eq hlist]
    refine ⟨?_, fun objects hstore => ⟨made, (hkept objects hstore).1, hplaced.made_keys,
      (hkept objects hstore).2⟩⟩
    rw [createsOnce_settled_append]
    exact hplaced.createsOnce_iff

def stocked (objects : List Deployable) : Shelf :=
  ⟨.ofDeployables objects, fun _ => ⟨["1", "2"], "u", default⟩, 0⟩

def declaring : Deployable :=
  ((Deployable.new "a" "r").withChannel ⟨"b", "c"⟩).withChannel ⟨"e", "f"⟩

theorem channel_named_twice_created_twice :
    let report := (runFrom (promote Shelf.store declaring [.new "b" "c", .new "b" "c"])
      (stocked [declaring])).1.toOption
    report = some ⟨[(⟨"b", "c"⟩, .created ⟨"b", "r-1"⟩), (⟨"b", "c"⟩, .created ⟨"b", "r-2"⟩)]⟩ ∧
      ∀ outcomes, report = some ⟨outcomes⟩ → ¬ CreatesOnce outcomes := by
  have hreport : (runFrom (promote Shelf.store declaring [.new "b" "c", .new "b" "c"])
      (stocked [declaring])).1.toOption =
        some ⟨[(⟨"b", "c"⟩, .created ⟨"b", "r-1"⟩), (⟨"b", "c"⟩, .created ⟨"b", "r-2"⟩)]⟩ := by
    decide +kernel
  refine ⟨hreport, ?_⟩
  rw [hreport]
  rintro _ ⟨⟩
  decide +kernel

/-- A channel that holds a projection may be named twice. -/
theorem createsOnce_of_held_channel :
    let projection := (project declaring ⟨"b", "c"⟩).completed "r-9" "u" default
    let channels := [Channel.new "b" "c", .new "e" "f", .new "b" "c"]
    let s := stocked [declaring, projection]
    let report : PromotionReport := ⟨[(⟨"b", "c"⟩, .alreadyPresent ⟨"b", "r-9"⟩),
      (⟨"e", "f"⟩, .created ⟨"e", "r-1"⟩), (⟨"b", "c"⟩, .alreadyPresent ⟨"b", "r-9"⟩)]⟩
    (runFrom (promote Shelf.store declaring channels) s).1 = .ok report ∧
      (CreatesOnce report.outcomes ↔ (missing (Shelf.store.listed s) declaring channels).Nodup) ∧
      (missing (Shelf.store.listed s) declaring channels).Nodup := by
  intro projection channels s report
  have hrun : (runFrom (promote Shelf.store declaring channels) s).1 = .ok report :=
    eq_ok_of_toOption (by decide +kernel)
  exact ⟨hrun, (promote_createsOnce_iff hrun).1, by decide +kernel⟩

end Ferry.Promotion
