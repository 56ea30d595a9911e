import Ferry.Proofs.Cli.Arguments
import Ferry.Proofs.Lookup
import Ferry.Proofs.Loaded
import Ferry.Proofs.Run
import Ferry.Proofs.Validation

/-!
# Identities of what a manifest holds

The index, the annotations and the command line know an object by its identity
text. The text of a key gives the key again only if there is no slash in its parts;
with slashes, a stretch of the text may belong to the namespace of one object and to
the name of another. A manifest is not checked for slashes.
-/
namespace Ferry

namespace ObjectKey

variable {k l : ObjectKey}

structure Slashless (k : ObjectKey) : Prop where
  space : '/' ∉ k.space.toList
  name : '/' ∉ k.name.toList

instance (k : ObjectKey) : Decidable k.Slashless :=
  decidable_of_iff ('/' ∉ k.space.toList ∧ '/' ∉ k.name.toList)
    ⟨fun ⟨hspace, hname⟩ => ⟨hspace, hname⟩, fun h => ⟨h.space, h.name⟩⟩

/-- One key is the other with the end of its namespace moved to the front of its name. -/
def Shifts (k l : ObjectKey) : Prop :=
  ∃ stretch, k.space = l.space ++ "/" ++ stretch ∧ l.name = stretch ++ "/" ++ k.name

theorem text_toList (k : ObjectKey) : k.text.toList = k.space.toList ++ '/' :: k.name.toList := by
  simp [text]

theorem Shifts.text_eq (h : k.Shifts l) : k.text = l.text := by
  obtain ⟨stretch, hspace, hname⟩ := h
  simp only [text, hspace, hname, String.append_assoc]

theorem Shifts.ne (h : k.Shifts l) : k ≠ l := by
  rintro rfl
  obtain ⟨stretch, hspace, -⟩ := h
  have hlen := congrArg String.length hspace
  simp only [String.length_append] at hlen
  have hslash : "/".length = 1 := rfl
  omega

/-- What the namespace of one key has more than that of the other is nothing, or a slash and the
stretch. -/
theorem eq_or_shifts {more : List Char} (hspace : k.space.toList = l.space.toList ++ more)
    (hname : '/' :: l.name.toList = more ++ '/' :: k.name.toList) : k = l ∨ k.Shifts l := by
  cases more with
  | nil =>
    left
    have hspace : k.space = l.space := String.toList_inj.mp (by simpa using hspace)
    have hname : l.name = k.name := String.toList_inj.mp (by simpa using hname)
    cases k
    cases l
    simp_all
  | cons c stretch =>
    right
    obtain ⟨rfl, hname⟩ := List.cons.inj hname
    refine ⟨String.ofList stretch, String.toList_inj.mp ?_, String.toList_inj.mp ?_⟩
    · simpa using hspace
    · simpa using hname

theorem text_eq_text_iff : k.text = l.text ↔ k = l ∨ k.Shifts l ∨ l.Shifts k := by
  constructor
  · intro h
    have hlist := congrArg String.toList h
    rw [text_toList, text_toList, List.append_eq_append_iff] at hlist
    rcases hlist with ⟨more, hspace, hname⟩ | ⟨more, hspace, hname⟩
    · rcases eq_or_shifts hspace hname with heq | hshifts
      · exact .inl heq.symm
      · exact .inr (.inr hshifts)
    · rcases eq_or_shifts hspace hname with heq | hshifts
      · exact .inl heq
      · exact .inr (.inl hshifts)
  · rintro (rfl | hshifts | hshifts)
    · rfl
    · exact hshifts.text_eq
    · exact hshifts.text_eq.symm

theorem not_shifts_of_space (h : '/' ∉ k.space.toList) : ¬ k.Shifts l := by
  rintro ⟨stretch, hspace, -⟩
  apply h
  rw [hspace]
  simp

theorem not_shifts_of_name (h : '/' ∉ l.name.toList) : ¬ k.Shifts l := by
  rintro ⟨stretch, -, hname⟩
  apply h
  rw [hname]
  simp

theorem wellFormed_iff : k.WellFormed ↔ Manifest.isNamed k = true ∧ k.Slashless := by
  have hnamed : Manifest.isNamed k = true ↔ k.name ≠ "" ∧ k.space ≠ "" := by
    simp [Manifest.isNamed]
  rw [hnamed]
  constructor
  · intro h
    exact ⟨⟨h.name_ne, h.space_ne⟩, h.space_slash, h.name_slash⟩
  · rintro ⟨⟨hname, hspace⟩, hslash⟩
    exact ⟨hspace, hname, hslash.space, hslash.name⟩

theorem text_of_parse? {s : String} (h : parse? s = some k) : k.text = s := by
  unfold parse? at h
  dsimp only at h
  split at h
  next name hdrop =>
    split at h
    next => cases h
    next =>
      cases h
      apply String.toList_inj.mp
      rw [text_toList, String.toList_ofList, String.toList_ofList, ← hdrop,
        List.takeWhile_append_dropWhile]
  next => cases h

theorem parse?_text_eq (hnamed : Manifest.isNamed k = true) :
    parse? k.text = if k.Slashless then some k else none := by
  split
  next h => exact parse?_text (wellFormed_iff.mpr ⟨hnamed, h⟩)
  next h =>
    cases hparse : parse? k.text with
    | none => rfl
    | some l =>
      have hslash := (wellFormed_iff.mp (wellFormed_of_parse? hparse)).2
      rcases text_eq_text_iff.mp (text_of_parse? hparse) with rfl | hshifts | hshifts
      · exact absurd hslash h
      · exact absurd hshifts (not_shifts_of_space hslash.space)
      · exact absurd hshifts (not_shifts_of_name hslash.name)

/-- Keys that differ have different texts, unless a stretch is moved between two of them. -/
theorem nodup_text_iff {keys : List ObjectKey} (hkeys : keys.Nodup) :
    (keys.map text).Nodup ↔ ∀ k ∈ keys, ∀ l ∈ keys, ¬ k.Shifts l := by
  rw [List.nodup_map_iff_inj_on hkeys]
  constructor
  · intro hinj k hk l hl hshifts
    exact hshifts.ne (hinj k hk l hl hshifts.text_eq)
  · intro hnone k hk l hl htext
    rcases text_eq_text_iff.mp htext with heq | hshifts | hshifts
    · exact heq
    · exact absurd hshifts (hnone k hk l hl)
    · exact absurd hshifts (hnone l hl k hk)

end ObjectKey

namespace Cli

variable {k : ObjectKey}

def NamesDeployable (k : ObjectKey) : Prop :=
  ∃ args invocation, parseArguments args = some invocation ∧
    invocation.command.deployable? = some k

def NamesChannel (k : ObjectKey) : Prop :=
  ∃ args invocation, parseArguments args = some invocation ∧ k ∈ invocation.command.channels

theorem namesDeployable_iff (hnamed : Manifest.isNamed k = true) :
    NamesDeployable k ↔ k.Slashless := by
  constructor
  · rintro ⟨args, invocation, hargs, hk⟩
    exact (ObjectKey.wellFormed_iff.mp ((wellFormed_of_parseArguments hargs).1 k hk)).2
  · intro h
    exact ⟨_, _, parseArguments_family (ObjectKey.wellFormed_iff.mpr ⟨hnamed, h⟩), rfl⟩

theorem namesChannel_iff (hnamed : Manifest.isNamed k = true) : NamesChannel k ↔ k.Slashless := by
  constructor
  · rintro ⟨args, invocation, hargs, hk⟩
    exact (ObjectKey.wellFormed_iff.mp ((wellFormed_of_parseArguments hargs).2 k hk)).2
  · intro h
    exact ⟨_, _, parseArguments_cleanup (ObjectKey.wellFormed_iff.mpr ⟨hnamed, h⟩),
      List.mem_singleton.mpr rfl⟩

end Cli

namespace Manifest

def keys (m : Manifest) : List ObjectKey :=
  m.deployables.map Deployable.key ++ m.channels.map Channel.key

theorem isNamed_of_mem_keys {m : Manifest} (h : m.validate = .ok ()) :
    ∀ k ∈ m.keys, isNamed k = true := by
  unfold keys
  rw [List.forall_mem_append, List.forall_mem_map, List.forall_mem_map]
  exact ⟨(validate_eq_ok_iff.mp h).1.1, (channels_of_validate h).1⟩

/-- In a manifest that is accepted, the text of a key is read as the key if there is no slash in
its parts, and else as none; and only then the object or channel can be named on the command line.
Two objects share an identity exactly if one has the key of the other with a stretch moved from the
namespace to the name, and so do two channels. -/
theorem identities_of_parse {content : String} {m : Manifest} (h : parse content = .ok m) :
    (∀ k ∈ m.keys, ObjectKey.parse? k.text = if k.Slashless then some k else none) ∧
    ((m.deployables.map Deployable.identity).Nodup ↔
      ∀ d ∈ m.deployables, ∀ e ∈ m.deployables, ¬ d.key.Shifts e.key) ∧
    ((m.channels.map Channel.identity).Nodup ↔
      ∀ c ∈ m.channels, ∀ c' ∈ m.channels, ¬ c.key.Shifts c'.key) ∧
    (∀ d ∈ m.deployables, Cli.NamesDeployable d.key ↔ d.key.Slashless) ∧
    ∀ c ∈ m.channels, Cli.NamesChannel c.key ↔ c.key.Slashless := by
  have hvalid := (loaded_of_parse h).valid
  obtain ⟨⟨hobjects, hnodup⟩, -⟩ := validate_eq_ok_iff.mp hvalid
  obtain ⟨hchannels, hnodup'⟩ := channels_of_validate hvalid
  and_intros
  · intro k hk
    exact ObjectKey.parse?_text_eq (isNamed_of_mem_keys hvalid k hk)
  · have hiff := ObjectKey.nodup_text_iff hnodup
    simp only [List.map_map, List.forall_mem_map] at hiff
    exact hiff
  · have hiff := ObjectKey.nodup_text_iff hnodup'
    simp only [List.map_map, List.forall_mem_map] at hiff
    exact hiff
  · intro d hd
    exact Cli.namesDeployable_iff (hobjects d hd)
  · intro c hc
    exact Cli.namesChannel_iff (hchannels c hc)

/-- A text with two objects of one name, of which one has a slash in its namespace. -/
def nestedSpace : String :=
  "[[deployables]]\nmetadata = \x7b namespace = \"team/a\", name = \"app\" \x7d\n" ++
    "[[deployables]]\nmetadata = \x7b namespace = \"ns\", name = \"app\" \x7d\n"

theorem nestedSpace_identities : ∃ m, parse nestedSpace = .ok m ∧
    m.keys = [⟨"team/a", "app"⟩, ⟨"ns", "app"⟩] ∧
    ObjectKey.parse? "team/a/app" = none ∧ ObjectKey.parse? "ns/app" = some ⟨"ns", "app"⟩ := by
  have hkeys : (parse nestedSpace).toOption.map keys =
      some [⟨"team/a", "app"⟩, ⟨"ns", "app"⟩] := by decide +kernel
  obtain ⟨m, hm, hkeys⟩ := Option.map_eq_some_iff.mp hkeys
  have hparse := eq_ok_of_toOption hm
  obtain ⟨htexts, -⟩ := identities_of_parse hparse
  rw [hkeys, List.forall_mem_cons, List.forall_mem_singleton] at htexts
  exact ⟨m, hparse, hkeys, htexts.1, htexts.2⟩

/-- A text with two objects whose keys differ in where the slash is taken for the separator. -/
def colliding : String :=
  "[[deployables]]\nmetadata = \x7b namespace = \"a/b\", name = \"c\" \x7d\n" ++
    "[[deployables]]\nmetadata = \x7b namespace = \"a\", name = \"b/c\" \x7d\n"

/-- The text is accepted, but the two objects share their identity. It is not read as a key, and
neither object can be named on the command line. -/
theorem identity_shared : ∃ m d e, parse colliding = .ok m ∧ m.deployables = [d, e] ∧
    d.key ≠ e.key ∧ d.identity = e.identity ∧ ObjectKey.parse? d.identity = none ∧
    ¬ Cli.NamesDeployable d.key ∧ ¬ Cli.NamesDeployable e.key := by
  have hsome : (parse colliding).toOption.map (·.deployables) =
      some [.new "a/b" "c", .new "a" "b/c"] := by decide +kernel
  obtain ⟨m, hm, hdeployables⟩ := Option.map_eq_some_iff.mp hsome
  refine ⟨m, _, _, eq_ok_of_toOption hm, hdeployables, by decide, by decide, by decide, ?_, ?_⟩
  · rw [Cli.namesDeployable_iff (by decide)]
    decide
  · rw [Cli.namesDeployable_iff (by decide)]
    decide

end Manifest

end Ferry
