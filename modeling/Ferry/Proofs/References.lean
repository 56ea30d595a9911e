import Ferry.Proofs.Decoded
import Ferry.Proofs.Identities

/-!
# Texts of keys

A reference is a text with one slash in it and with something on either side of the
slash. These are the texts that are read as keys, on the command line and in
documents alike, and each is the text of the key that it is read as. Where no
namespace has a slash, the text of a key tells the key, whether it can be read or not.
-/
namespace Ferry

namespace ObjectKey

/-- A text with one slash, which is neither its first nor its last character. -/
structure IsReference (s : String) : Prop where
  one : s.toList.count '/' = 1
  inside : s.toList.head? ≠ some '/' ∧ s.toList.getLast? ≠ some '/'

instance (s : String) : Decidable (IsReference s) :=
  decidable_of_iff (s.toList.count '/' = 1 ∧ s.toList.head? ≠ some '/' ∧
      s.toList.getLast? ≠ some '/')
    ⟨fun ⟨hone, hinside⟩ => ⟨hone, hinside⟩, fun h => ⟨h.one, h.inside⟩⟩

variable {k l : ObjectKey} {s : String}

theorem parse?_eq_some_iff : parse? s = some k ↔ k.WellFormed ∧ k.text = s := by
  constructor
  · exact fun h => ⟨wellFormed_of_parse? h, text_of_parse? h⟩
  · rintro ⟨hk, rfl⟩
    exact parse?_text hk

theorem head?_ne_slash_iff {before after : List Char} (h : '/' ∉ before) :
    (before ++ '/' :: after).head? ≠ some '/' ↔ before ≠ [] := by
  cases before with
  | nil => simp
  | cons c before =>
    have hc : c ≠ '/' := fun hc => h (hc ▸ List.mem_cons_self)
    simp [hc]

theorem getLast?_ne_slash_iff {before after : List Char} (h : '/' ∉ after) :
    (before ++ '/' :: after).getLast? ≠ some '/' ↔ after ≠ [] := by
  have hreverse : (before ++ '/' :: after).reverse = after.reverse ++ '/' :: before.reverse := by
    simp
  rw [List.getLast?_eq_head?_reverse, hreverse, head?_ne_slash_iff (by simpa using h),
    List.reverse_ne_nil_iff]

/-- The only slash of a text divides it, and both parts count. -/
theorem isReference_iff {before after : List Char} (hs : s.toList = before ++ '/' :: after) :
    IsReference s ↔ '/' ∉ before ∧ '/' ∉ after ∧ before ≠ [] ∧ after ≠ [] := by
  have hone : s.toList.count '/' = 1 ↔ '/' ∉ before ∧ '/' ∉ after := by
    rw [hs, List.count_append, List.count_cons_self, ← List.count_eq_zero, ← List.count_eq_zero]
    omega
  constructor
  · intro h
    obtain ⟨hbefore, hafter⟩ := hone.mp h.one
    have hinside := h.inside
    rw [hs, head?_ne_slash_iff hbefore, getLast?_ne_slash_iff hafter] at hinside
    exact ⟨hbefore, hafter, hinside⟩
  · rintro ⟨hbefore, hafter, hinside⟩
    refine ⟨hone.mpr ⟨hbefore, hafter⟩, ?_⟩
    rwa [hs, head?_ne_slash_iff hbefore, getLast?_ne_slash_iff hafter]

theorem isReference_text (hk : k.WellFormed) : IsReference k.text := by
  rw [isReference_iff k.text_toList]
  exact ⟨hk.space_slash, hk.name_slash, mt String.toList_eq_nil_iff.mp hk.space_ne,
    mt String.toList_eq_nil_iff.mp hk.name_ne⟩

theorem exists_of_isReference (h : IsReference s) : ∃ k : ObjectKey, k.WellFormed ∧ k.text = s := by
  have hmem : '/' ∈ s.toList := List.count_pos_iff.mp (by rw [h.one]; exact Nat.one_pos)
  obtain ⟨space, name, hs⟩ := List.append_of_mem hmem
  obtain ⟨hspace, hname, hspaceNe, hnameNe⟩ := (isReference_iff hs).mp h
  refine ⟨⟨String.ofList space, String.ofList name⟩, ?_, ?_⟩
  · constructor
    case space_ne => simpa using hspaceNe
    case name_ne => simpa using hnameNe
    case space_slash => simpa using hspace
    case name_slash => simpa using hname
  · apply String.toList_inj.mp
    rw [text_toList, hs, String.toList_ofList, String.toList_ofList]

theorem exists_parse?_iff : (∃ k, parse? s = some k) ↔ IsReference s := by
  simp only [parse?_eq_some_iff]
  constructor
  · rintro ⟨k, hk, rfl⟩
    exact isReference_text hk
  · exact exists_of_isReference

/-- Without slashes in namespaces, the first slash of a text ends the namespace. -/
theorem eq_of_text_eq (hk : '/' ∉ k.space.toList) (hl : '/' ∉ l.space.toList)
    (h : k.text = l.text) : k = l := by
  rcases text_eq_text_iff.mp h with heq | hshifts | hshifts
  · exact heq
  · exact absurd hshifts (not_shifts_of_space hk)
  · exact absurd hshifts (not_shifts_of_space hl)

end ObjectKey

namespace Decoder

variable {format : Format} {d : Datum} {k : ObjectKey}

theorem string_eq_ok_iff {s : String} : string format d = .ok s ↔ d.core = .str s := by
  constructor
  · intro h
    have hcore := core_of_visit h
    split at hcore
    next heq =>
      cases hcore
      exact heq
    next => cases hcore
  · intro h
    exact visit_of_core (by rw [h])

theorem key_eq_ok_iff :
    key format d = .ok k ↔ ∃ s, d.core = .str s ∧ ObjectKey.parse? s = some k := by
  unfold key
  constructor
  · intro h
    obtain ⟨s, hstring, hread⟩ := exists_of_bind_eq_ok h
    refine ⟨s, string_eq_ok_iff.mp hstring, ?_⟩
    split at hread
    next hparse =>
      cases hread
      exact hparse
    next => cases hread
  · rintro ⟨s, hcore, hparse⟩
    simp only [string_eq_ok_iff.mpr hcore, bind, Except.bind, hparse]

/-- From an untyped value, a key is decoded exactly if the value is what the key is encoded as. -/
theorem key_ofJson_eq_ok_iff {v : Json} :
    key format (.ofJson v) = .ok k ↔ v = k.encode ∧ k.WellFormed := by
  simp only [key_eq_ok_iff, ObjectKey.parse?_eq_some_iff]
  constructor
  · rintro ⟨s, hcore, hk, rfl⟩
    cases v with
    | str t =>
      cases hcore
      exact ⟨rfl, hk⟩
    | _ => cases hcore
  · rintro ⟨rfl, hk⟩
    exact ⟨k.text, rfl, hk, rfl⟩

theorem key_ofJson_str_error {s : String} (h : ObjectKey.parse? s = none) :
    key format (.ofJson (.str s)) = .error ⟨.badKey s, none⟩ := by
  have hstring : string format (.ofJson (.str s)) = .ok s := string_eq_ok_iff.mpr rfl
  unfold key
  simp only [hstring, bind, Except.bind, h]
  rfl

end Decoder

namespace ObjectKey

/-- A text is read as a key exactly if it is a reference, and then it is the text of the key. Keys
of names and namespaces without a slash are read from their texts, and keys of namespaces without a
slash have different texts. In documents a key is its text: no other value is decoded as the key,
and a text that is not read is refused by the same message. -/
theorem text_codec :
    (∀ s, (∃ k, parse? s = some k) ↔ IsReference s) ∧
    (∀ s k, parse? s = some k → k.text = s) ∧
    (∀ k : ObjectKey, k.WellFormed → parse? k.text = some k) ∧
    (∀ k l : ObjectKey, '/' ∉ k.space.toList → '/' ∉ l.space.toList → k.text = l.text → k = l) ∧
    (∀ k : ObjectKey, k.encode = .str k.text) ∧
    ∀ format,
      (∀ s k, Decoder.key format (.ofJson (.str s)) = .ok k ↔ parse? s = some k) ∧
      (∀ s, parse? s = none → ∃ e, Decoder.key format (.ofJson (.str s)) = .error e ∧
        e.cause.message = refusal s) ∧
      ∀ v k, Decoder.key format (.ofJson v) = .ok k ↔ v = k.encode ∧ k.WellFormed := by
  and_intros
  · exact fun s => exists_parse?_iff
  · exact fun s k => text_of_parse?
  · exact fun k => parse?_text
  · exact fun k l => eq_of_text_eq
  · exact fun k => rfl
  · intro format
    and_intros
    · intro s k
      rw [Decoder.key_ofJson_eq_ok_iff, parse?_eq_some_iff, and_comm, encode, Json.str.injEq,
        eq_comm]
    · intro s hs
      exact ⟨_, Decoder.key_ofJson_str_error hs, rfl⟩
    · exact fun v k => Decoder.key_ofJson_eq_ok_iff

/-- A key of letters that take several bytes is read back, and a text with two slashes is not. -/
theorem accented_read_back :
    WellFormed ⟨"é", "名"⟩ ∧ parse? "é/名" = some ⟨"é", "名"⟩ ∧ IsReference "é/名" ∧
      Decoder.key .toml (.ofJson (.str "é/名")) = .ok ⟨"é", "名"⟩ ∧
      ¬ ∃ k, parse? "é/名/" = some k := by
  obtain ⟨hread, -, htext, -, -, hdecode⟩ := text_codec
  have hk : WellFormed ⟨"é", "名"⟩ := by decide
  have hparse : parse? "é/名" = some ⟨"é", "名"⟩ := htext _ hk
  have hnot : ¬ IsReference "é/名/" := by decide
  exact ⟨hk, hparse, (hread _).mp ⟨_, hparse⟩, ((hdecode .toml).1 _ _).mpr hparse,
    mt (hread _).mp hnot⟩

end ObjectKey

end Ferry
