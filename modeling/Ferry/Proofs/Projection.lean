import Ferry.Proofs.Lookup
import Ferry.Proofs.Store.Growth

/-!
# Projections as they are looked up

What projection writes into a new object is what the two lookups of promotion
ask for, and no store changes it when it completes the object.
-/
namespace Ferry

open Promotion

variable (d : Deployable) (key : ObjectKey)

@[simp]
theorem project_space : (project d key).space = key.space := rfl

@[simp]
theorem project_generateName :
    (project d key).metadata.generateName = some d.projectionNameStart := rfl

@[simp]
theorem project_channelSource :
    (project d key).annotation? Annotation.channelSource = some d.root := by
  simp [project, projectionAnnotations, Deployable.annotation?, Metadata.annotation?,
    SortedMap.get?_insert, Annotation.isGenerated, Annotation.channel, Annotation.channelSource]

@[simp]
theorem project_channel : (project d key).annotation? Annotation.channel = some key.text := by
  simp [project, projectionAnnotations, Deployable.annotation?, Metadata.annotation?,
    SortedMap.get?_insert, Annotation.isGenerated, Annotation.channel]

@[simp]
theorem project_isGenerated : (project d key).annotation? Annotation.isGenerated = some "true" := by
  simp [project, projectionAnnotations, Deployable.annotation?, Metadata.annotation?]

@[simp]
theorem project_isLocal : (project d key).annotation? Annotation.isLocal = some "false" := by
  simp [project, projectionAnnotations, Deployable.annotation?, Metadata.annotation?,
    SortedMap.get?_insert, Annotation.isGenerated, Annotation.channel, Annotation.channelSource,
    Annotation.isLocal]

theorem project_generateName? :
    (project d key).metadata.generateName? = some d.projectionNameStart := by
  simp [Metadata.generateName?, Deployable.projectionNameStart]

@[simp]
theorem project_unstored : (project d key).unstored = project d key := rfl

variable {key} in
/-- A projection into a namespace gets a name that is free, made of its beginning and a drawn
ending, unless all names that are made so are taken. -/
theorem allocateName_project (hspace : key.space ≠ "") (allocation : Allocation)
    (taken : ObjectKey → Bool) :
    (∃ ending ∈ allocation.endings.take nameAttempts,
      taken ⟨key.space, d.projectionNameStart ++ ending⟩ = false ∧
        allocateName allocation taken (project d key) = .ok (d.projectionNameStart ++ ending)) ∨
    (∀ ending ∈ allocation.endings.take nameAttempts,
      taken ⟨key.space, d.projectionNameStart ++ ending⟩ = true) ∧
        allocateName allocation taken (project d key) =
          .error (.unavailable
            ("could not allocate a unique name for " ++ d.projectionNameStart)) := by
  cases hanswer : allocateName allocation taken (project d key) with
  | ok name =>
    cases allocates_of_eq hanswer with
    | generated _ _ hstart hending hfree =>
      rw [project_generateName?] at hstart
      cases hstart
      exact .inl ⟨_, hending, hfree, rfl⟩
    | own _ hnamed _ => exact absurd rfl hnamed
  | error e =>
    cases allocates_of_eq hanswer with
    | spaceless hempty => exact absurd hempty hspace
    | nameless _ _ hstart =>
      rw [project_generateName?] at hstart
      cases hstart
    | exhausted _ _ hstart htaken =>
      rw [project_generateName?] at hstart
      cases hstart
      exact .inr ⟨htaken, rfl⟩
    | occupied _ hnamed _ => exact absurd rfl hnamed

variable {d key} {p : Deployable}

theorem declares_of_storedAs (h : (project d key).StoredAs p) (channel : ObjectKey) :
    p.declares channel = d.declares channel := by
  obtain ⟨name, uid, createdAt, rfl⟩ := h
  rfl

theorem isProjectionInto_of_storedAs (h : (project d key).StoredAs p) :
    isProjectionInto d.root key p = true := by
  obtain ⟨name, uid, createdAt, rfl⟩ := h
  simp [isProjectionInto_iff]

/-- A projection names one channel, so it is nothing that is looked for in another one. -/
theorem eq_false_of_storedAs {key' : ObjectKey} (h : (project d key).StoredAs p)
    (hne : key.text ≠ key'.text) (d' : Deployable) (spaces : List String) (root : String) :
    isChildFor d' spaces key' p = false ∧ isProjectionInto root key' p = false := by
  obtain ⟨name, uid, createdAt, rfl⟩ := h
  simp [isChildFor, isProjectionInto, SnapshotIndex.isPlacedIn, hne]

end Ferry
