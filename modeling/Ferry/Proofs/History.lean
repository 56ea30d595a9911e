import Ferry.Proofs.Cleanup
import Ferry.Proofs.Promotion.Gained

/-!
# Histories of a store in memory

What is done to a store from outside is one of five operations. Whether it
succeeds or not, an operation leaves objects that were there before, and objects
that it asked the store to create. A history is the list of the states that
permitted operations lead through.
-/
namespace Ferry

inductive Operation where
  | create (d : Deployable)
  | promote (d : Deployable) (channels : List Channel)
  /-- Projects a deployable into a channel and creates the projection. -/
  | project (d : Deployable) (channel : ObjectKey)
  | cleanup (channel : ObjectKey)
  | delete (key : ObjectKey)

namespace Operation

/-- The state that an operation leaves, also when it fails. -/
def after (s : Shelf) : Operation → Shelf
  | create d => (runFrom (Shelf.store.create d) s).2
  | promote d channels => (runFrom (Ferry.promote Shelf.store d channels) s).2
  | project d channel => (runFrom (Shelf.store.create (Ferry.project d channel)) s).2
  | cleanup channel => (runFrom (Ferry.cleanup Shelf.store channel) s).2
  | delete key => (runFrom (Shelf.store.delete key) s).2

/-- Objects from outside name no source, and only what is stored is promoted or projected. -/
def Permitted (s : Shelf) : Operation → Prop
  | create d => d.annotation? Annotation.channelSource = none
  | promote d _ => d ∈ s.objects
  | project d _ => d ∈ s.objects
  | cleanup _ => True
  | delete _ => True

def Offers (d : Deployable) : Operation → Prop
  | create d' => d = d'
  | promote d' channels => ∃ c ∈ channels, d = Ferry.project d' c.key
  | project d' channel => d = Ferry.project d' channel
  | cleanup _ => False
  | delete _ => False

end Operation

namespace Shelf

theorem mem_of_create {d p : Deployable} {s : Shelf}
    (hp : p ∈ (runFrom (store.create d) s).2.objects) :
    p ∈ s.objects ∨ ∃ t u, runFrom (store.create d) t = (.ok p, u) := by
  rcases hrun : runFrom (store.create d) s with ⟨e | q, t⟩
  · rw [hrun, steady.create_error hrun] at hp
    exact .inl hp
  · rw [hrun] at hp
    rcases ((steady.create hrun).2.mem_iff).mp hp with rfl | hold
    · exact .inr ⟨s, t, hrun⟩
    · exact .inl hold

theorem mem_of_promote {d p : Deployable} {channels : List Channel} {s : Shelf}
    (hp : p ∈ (runFrom (promote store d channels) s).2.objects) :
    p ∈ s.objects ∨ ∃ c ∈ channels, ∃ t u,
      runFrom (store.create (project d c.key)) t = (.ok p, u) := by
  obtain ⟨made, hcourse⟩ := Promotion.promote_course store d channels s
  rcases (hcourse.kept steady).mem_before_or_made hp with hold | ⟨m, hm, rfl⟩
  · exact .inl hold
  · have hkey := hcourse.made_sublist.subset (List.mem_map_of_mem hm)
    obtain ⟨c, hc, hsame⟩ := List.mem_map.mp hkey
    obtain ⟨t, u, hcreate⟩ := hcourse.exists_create m hm
    rw [← hsame] at hcreate
    exact .inr ⟨c, (List.mem_filter.mp hc).1, t, u, hcreate⟩

theorem mem_of_delete {key : ObjectKey} {s t : Shelf} {answer : Except StoreError Unit}
    (h : runFrom (store.delete key) s = (answer, t)) {p : Deployable} (hp : p ∈ t.objects) :
    p ∈ s.objects := by
  rw [runFrom_delete] at h
  split at h
  · obtain ⟨_, rfl⟩ := Prod.mk.inj h
    obtain ⟨key', hget⟩ := SortedMap.mem_values_iff.mp hp
    rw [SortedMap.get?_erase] at hget
    split at hget
    · cases hget
    · exact SortedMap.mem_values_iff.mpr ⟨key', hget⟩
  · obtain ⟨_, rfl⟩ := Prod.mk.inj h
    exact hp

theorem mem_of_cleanup {channel : ObjectKey} {s : Shelf} {p : Deployable}
    (hp : p ∈ (runFrom (cleanup store channel) s).2.objects) : p ∈ s.objects := by
  have hsub : ∀ q ∈ (runFrom (cleanup store channel) s).2.objects, q ∈ s.objects := by
    refine cleanup_invariant (P := fun t : Shelf => ∀ q ∈ t.objects, q ∈ s.objects) ?_ ?_ channel
      (s := s) fun q hq => hq
    · intro space t answer u hlist ht
      rw [objects, memory_of_list hlist]
      exact ht
    · intro key t answer u hdelete ht q hq
      exact ht q (mem_of_delete hdelete hq)
  exact hsub p hp

end Shelf

/-- After an operation there are objects from before it and objects that it offered. -/
theorem Operation.mem_after {op : Operation} {s : Shelf} {p : Deployable}
    (hp : p ∈ (op.after s).objects) :
    p ∈ s.objects ∨ ∃ d, op.Offers d ∧ ∃ t u, runFrom (Shelf.store.create d) t = (.ok p, u) := by
  cases op with
  | create d =>
    rcases Shelf.mem_of_create hp with hold | hnew
    · exact .inl hold
    · exact .inr ⟨d, rfl, hnew⟩
  | promote d channels =>
    rcases Shelf.mem_of_promote hp with hold | ⟨c, hc, hnew⟩
    · exact .inl hold
    · exact .inr ⟨_, ⟨c, hc, rfl⟩, hnew⟩
  | project d channel =>
    rcases Shelf.mem_of_create hp with hold | hnew
    · exact .inl hold
    · exact .inr ⟨_, rfl, hnew⟩
  | cleanup channel => exact .inl (Shelf.mem_of_cleanup hp)
  | delete key => exact .inl (Shelf.mem_of_delete rfl hp)

/-- The states that permitted operations lead through, the last one first. -/
inductive History (first : Shelf) : List Shelf → Prop
  | start : History first [first]
  | step {s earlier} (op : Operation) : op.Permitted s → History first (s :: earlier) →
      History first (op.after s :: s :: earlier)

end Ferry
