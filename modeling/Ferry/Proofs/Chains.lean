import Ferry.Proofs.Projection

/-!
# Chains of projections

A projection may be named or stored, and then projected again, any number of times.
However long the chain is and whatever the names on the way are, each projection still
carries the root, the payload and the foreign annotations of the object at the beginning
of the chain. Only the channel, the owner and the number of dashes tell where on the
chain it stands.
-/
namespace Ferry

def Annotation.ofProjection : List String := [channelSource, channel, isGenerated, isLocal]

theorem annotation?_project_of_notMem (d : Deployable) (channel : ObjectKey) {key : String}
    (h : key ∉ Annotation.ofProjection) :
    (project d channel).annotation? key = d.annotation? key := by
  unfold Annotation.ofProjection at h
  simp only [List.mem_cons, List.not_mem_nil, or_false, not_or] at h
  obtain ⟨hsource, hchannel, hgenerated, hlocal⟩ := h
  have hkept : (projectionAnnotations d channel).get? key =
      (d.metadata.annotations.getD .empty).get? key := by
    rw [projectionAnnotations, SortedMap.get?_insert_of_ne _ _ hgenerated,
      SortedMap.get?_insert_of_ne _ _ hchannel, SortedMap.get?_insert_of_ne _ _ hsource,
      SortedMap.get?_insert_of_ne _ _ hlocal]
  change (projectionAnnotations d channel).get? key = d.metadata.annotations.bind (·.get? key)
  rw [hkept]
  cases d.metadata.annotations <;> rfl

namespace Deployable

/-! ### Beginnings of names -/

def dashes (n : Nat) : String := String.ofList (List.replicate n '-')

theorem dashes_succ (n : Nat) : dashes (n + 1) = dashes n ++ "-" := by
  rw [← String.toList_inj]
  simp [dashes, List.replicate_succ']

/-- What the names of projections begin with, but for the dashes. -/
def nameBase (d : Deployable) : String := d.metadata.generateName?.getD d.name

theorem projectionNameStart_eq (d : Deployable) : d.projectionNameStart = d.nameBase ++ "-" := rfl

theorem nameBase_of_generateName {d : Deployable} {start : String}
    (h : d.metadata.generateName = some start) (hne : start ≠ "") : d.nameBase = start := by
  simp [nameBase, Metadata.generateName?, h, Option.filter, hne]

theorem append_dashes_ne_empty (start : String) (n : Nat) : start ++ dashes (n + 1) ≠ "" := by
  rw [dashes_succ, ← String.append_assoc]
  simp

/-! ### Roots -/

theorem root_of_annotation? {d : Deployable} {source : String}
    (h : d.annotation? Annotation.channelSource = some source) (hne : source ≠ "") :
    d.root = source := by
  simp [root, source?, h, Option.filter, hne]

theorem root_ne_empty (d : Deployable) : d.root ≠ "" := by
  unfold root
  cases hsource : d.source? with
  | none => exact d.key.text_ne_empty
  | some source =>
    rw [source?, Option.filter_eq_some_iff] at hsource
    simpa using hsource.2

/-! ### Hops -/

/-- What a projection takes over from its source as it is. -/
structure Carries (s d : Deployable) : Prop where
  apiVersion : d.apiVersion = s.apiVersion
  kind : d.kind = s.kind
  labels : d.metadata.labels = s.metadata.labels
  template : d.spec.template = s.spec.template
  channels : d.spec.channels = s.spec.channels
  others : ∀ key, key ∉ Annotation.ofProjection → d.annotation? key = s.annotation? key

/-- An object that the next projection treats as it would treat `s`, but for so many dashes. -/
structure Relays (s : Deployable) (hops : Nat) (d : Deployable) : Prop extends Carries s d where
  root : d.root = s.root
  nameBase : d.nameBase = s.nameBase ++ dashes hops

/-- What is known of a projection of `previous` into a channel, also after it was named or stored,
if so many hops lead from `s` to `previous`. -/
structure IsHop (s : Deployable) (hops : Nat) (previous : Deployable) (channel : ObjectKey)
    (p : Deployable) : Prop extends Carries s p where
  space : p.space = channel.space
  channel : p.annotation? Annotation.channel = some channel.text
  generated : p.annotation? Annotation.isGenerated = some "true"
  notLocal : p.annotation? Annotation.isLocal = some "false"
  source : p.annotation? Annotation.channelSource = some s.root
  generateName : p.metadata.generateName = some (s.nameBase ++ dashes (hops + 1))
  owner : p.metadata.owners = [previous.ownerReference]
  unscheduled : p.spec.placement = none ∧ p.spec.overrides = [] ∧ p.spec.dependencies = []

variable {s d p : Deployable} {n : Nat} {channel : ObjectKey}

theorem Relays.refl (s : Deployable) : Relays s 0 s where
  apiVersion := rfl
  kind := rfl
  labels := rfl
  template := rfl
  channels := rfl
  others _ _ := rfl
  root := rfl
  nameBase := by simp [dashes]

theorem Relays.isHop (h : Relays s n d) (hp : p.unstored = project d channel) :
    IsHop s n d channel p := by
  have hshown : ∀ key, p.annotation? key = (project d channel).annotation? key := by
    intro key
    rw [← hp]
    rfl
  constructor
  · constructor
    · exact (congrArg (·.apiVersion) hp).trans h.apiVersion
    · exact (congrArg (·.kind) hp).trans h.kind
    · exact (congrArg (·.metadata.labels) hp).trans h.labels
    · exact (congrArg (·.spec.template) hp).trans h.template
    · exact (congrArg (·.spec.channels) hp).trans h.channels
    · intro key hkey
      rw [hshown, annotation?_project_of_notMem d channel hkey, h.others key hkey]
  · exact congrArg (·.metadata.space) hp
  · rw [hshown, project_channel]
  · rw [hshown, project_isGenerated]
  · rw [hshown, project_isLocal]
  · rw [hshown, project_channelSource, h.root]
  · have hstart : p.metadata.generateName = some d.projectionNameStart :=
      congrArg (·.metadata.generateName) hp
    rw [hstart, projectionNameStart_eq, h.nameBase, String.append_assoc, dashes_succ]
  · exact congrArg (·.metadata.owners) hp
  · have hspec : p.spec = (project d channel).spec := congrArg (·.spec) hp
    rw [hspec]
    exact ⟨rfl, rfl, rfl⟩

/-- The name of a projection does not matter for the next one, since its beginning is set. -/
theorem IsHop.relays (h : IsHop s n d channel p) : Relays s (n + 1) p where
  toCarries := h.toCarries
  root := root_of_annotation? h.source s.root_ne_empty
  nameBase := nameBase_of_generateName h.generateName (append_dashes_ne_empty _ _)

/-! ### Chains -/

def named (d : Deployable) (name : String) : Deployable :=
  { d with metadata := { d.metadata with name } }

end Deployable

end Ferry
