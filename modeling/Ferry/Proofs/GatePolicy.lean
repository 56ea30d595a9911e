import Ferry.Policy

/-!
# Monotone gates

Who is let into a channel is still let in with more annotations and more declared
channels, and if the channel asks for fewer annotations or has more source namespaces.
Gates work both ways: what they ask for keeps deployables out, but without any the
source namespaces do not count. So a channel may get an open gate, but not lose one.
-/
namespace Ferry.Policy

variable {d d' : Deployable} {c c' : Channel}

/-- `d'` has all that a channel may ask `d` for. -/
structure Offers (d d' : Deployable) : Prop where
  space : d'.space = d.space
  channels : d.spec.channels ⊆ d'.spec.channels
  annotations : ∀ annotations, d.metadata.annotations = some annotations →
    ∃ annotations', d'.metadata.annotations = some annotations' ∧
      annotations.entries ⊆ annotations'.entries

/-- `c'` is the channel `c` and asks for no more than that. -/
structure Relaxes (c c' : Channel) : Prop where
  key : c'.key = c.key
  gates : c.spec.gates.isSome → c'.spec.gates.isSome
  gateAnnotations : ∀ gate', c'.gateAnnotations? = some gate' →
    ∃ gate, c.gateAnnotations? = some gate ∧ gate'.entries ⊆ gate.entries
  sources : c.spec.sourceSpaces.getD [] ⊆ c'.spec.sourceSpaces.getD []

theorem gateMatches_iff {annotations gate : StringMap} :
    gateMatches annotations gate = true ↔ gate.entries ⊆ annotations.entries := by
  have hfits : ∀ e : String × String,
      annotations.get? e.1 = some e.2 ↔ e ∈ annotations.entries := fun _ =>
    annotations.get?_eq_some_iff
  simp only [gateMatches, List.all_eq_true, decide_eq_true_eq, hfits]
  rfl

theorem passesGate_iff :
    passesGate d c = true ↔ ∀ gate, c.gateAnnotations? = some gate →
      ∃ annotations, d.metadata.annotations = some annotations ∧
        gate.entries ⊆ annotations.entries := by
  unfold passesGate
  cases c.gateAnnotations? with
  | none => simp
  | some gate =>
    cases d.metadata.annotations with
    | none => simp
    | some annotations => simp [gateMatches_iff]

theorem acceptsSource_iff {space : String} :
    c.acceptsSource space = true ↔ space ∈ c.spec.sourceSpaces.getD [] := by
  unfold Channel.acceptsSource
  cases c.spec.sourceSpaces <;> simp

theorem passesGate_mono (hd : Offers d d') (hc : Relaxes c c') (h : passesGate d c = true) :
    passesGate d' c' = true := by
  rw [passesGate_iff] at h ⊢
  intro gate' hgate'
  obtain ⟨gate, hgate, hfewer⟩ := hc.gateAnnotations gate' hgate'
  obtain ⟨annotations, hannotations, hmatches⟩ := h gate hgate
  obtain ⟨annotations', hannotations', hmore⟩ := hd.annotations annotations hannotations
  have hall := List.Subset.trans hfewer (List.Subset.trans hmatches hmore)
  exact ⟨annotations', hannotations', hall⟩

theorem resides_mono (hd : Offers d d') (hc : Relaxes c c') (h : resides d c = true) :
    resides d' c' = true := by
  simp only [resides, Bool.and_eq_true, decide_eq_true_eq] at h ⊢
  obtain ⟨hspace, hpasses⟩ := h
  have hspace' : c'.space = c.space := congrArg ObjectKey.space hc.key
  exact ⟨by rw [hd.space, hspace', hspace], passesGate_mono hd hc hpasses⟩

theorem invites_mono (hd : Offers d d') (hc : Relaxes c c') (h : invites d c = true) :
    invites d' c' = true := by
  simp only [invites, Bool.and_eq_true, acceptsSource_iff] at h ⊢
  obtain ⟨hgates, hsource⟩ := h
  rw [hd.space]
  exact ⟨hc.gates hgates, hc.sources hsource⟩

theorem admits_mono (hd : Offers d d') (hc : Relaxes c c') (h : admits d c = true) :
    admits d' c' = true := by
  simp only [admits, Bool.and_eq_true, Bool.or_eq_true] at h ⊢
  obtain ⟨hentitled, hpasses⟩ := h
  refine ⟨?_, passesGate_mono hd hc hpasses⟩
  rcases hentitled with hdeclares | hinvites
  · left
    rw [Deployable.declares, List.contains_iff_mem] at hdeclares ⊢
    rw [hc.key]
    exact hd.channels hdeclares
  · right
    exact invites_mono hd hc hinvites

/-- What verdicts look at in a deployable. -/
structure Resembles (d d' : Deployable) : Prop where
  space : d'.space = d.space
  channels : ∀ channel, channel ∈ d'.spec.channels ↔ channel ∈ d.spec.channels
  annotations : d'.metadata.annotations = d.metadata.annotations

/-- What verdicts look at in a channel. -/
structure Restates (c c' : Channel) : Prop where
  key : c'.key = c.key
  gates : c'.spec.gates = c.spec.gates
  sources : ∀ space,
    space ∈ c'.spec.sourceSpaces.getD [] ↔ space ∈ c.spec.sourceSpaces.getD []

theorem Resembles.symm (h : Resembles d d') : Resembles d' d where
  space := h.space.symm
  channels channel := (h.channels channel).symm
  annotations := h.annotations.symm

theorem Restates.symm (h : Restates c c') : Restates c' c where
  key := h.key.symm
  gates := h.gates.symm
  sources space := (h.sources space).symm

theorem Resembles.offers (h : Resembles d d') : Offers d d' where
  space := h.space
  channels channel hchannel := (h.channels channel).mpr hchannel
  annotations annotations hannotations :=
    ⟨annotations, h.annotations.trans hannotations, List.Subset.refl _⟩

theorem Restates.relaxes (h : Restates c c') : Relaxes c c' where
  key := h.key
  gates hgates := by rwa [h.gates]
  gateAnnotations gate' hgate' := by
    rw [Channel.gateAnnotations?, h.gates] at hgate'
    exact ⟨gate', hgate', List.Subset.refl _⟩
  sources space hspace := (h.sources space).mpr hspace

/-- Verdicts are monotone: a deployable that offers more is let into a channel that asks for less,
if it was before. So nothing else of the two has any influence on the verdicts. -/
theorem verdicts_monotone :
    (∀ d d' c c', Offers d d' → Relaxes c c' →
      (promotion (some d) (some c) = true → promotion (some d') (some c') = true) ∧
      (residency (some d) (some c) = true → residency (some d') (some c') = true)) ∧
    ∀ d d' c c', Resembles d d' → Restates c c' →
      promotion (some d') (some c') = promotion (some d) (some c) ∧
      residency (some d') (some c') = residency (some d) (some c) := by
  have hmono : ∀ d d' c c', Offers d d' → Relaxes c c' →
      (promotion (some d) (some c) = true → promotion (some d') (some c') = true) ∧
      (residency (some d) (some c) = true → residency (some d') (some c') = true) :=
    fun _ _ _ _ hd hc => ⟨admits_mono hd hc, resides_mono hd hc⟩
  refine ⟨hmono, ?_⟩
  intro d d' c c' hd hc
  obtain ⟨hpromotion, hresidency⟩ := hmono d d' c c' hd.offers hc.relaxes
  obtain ⟨hpromotion', hresidency'⟩ := hmono d' d c' c hd.symm.offers hc.symm.relaxes
  constructor
  · exact Bool.eq_iff_iff.mpr ⟨hpromotion', hpromotion⟩
  · exact Bool.eq_iff_iff.mpr ⟨hresidency', hresidency⟩

def modest : Deployable := Deployable.withAnnotation (.new "a" "r") "tier" "gold"

def generous : Deployable :=
  Deployable.withAnnotation { modest with metadata.name := "s", spec.channels := [⟨"b", "c"⟩] }
    "team" "x"

def strict : Channel :=
  { Channel.new "a" "c" with
    spec := ⟨some ⟨some (SortedMap.empty.insert "tier" "gold")⟩, some ["a"]⟩ }

def lenient : Channel := { strict with spec := ⟨some ⟨some .empty⟩, some ["b", "a"]⟩ }

theorem generous_admitted :
    Offers modest generous ∧ Relaxes strict lenient ∧
    (promotion (some modest) (some strict) = true ∧
      promotion (some generous) (some lenient) = true) ∧
    (residency (some modest) (some strict) = true ∧
      residency (some generous) (some lenient) = true) ∧
    Resembles modest { modest with kind := "Other" } ∧
    Restates strict { strict with spec.sourceSpaces := some ["a", "a"] } ∧
    promotion (some { modest with kind := "Other" })
      (some { strict with spec.sourceSpaces := some ["a", "a"] }) = true := by
  have hoffers : Offers modest generous := by
    refine ⟨rfl, by decide +kernel, ?_⟩
    rintro _ ⟨⟩
    exact ⟨_, rfl, by decide +kernel⟩
  have hrelaxes : Relaxes strict lenient := by
    refine ⟨rfl, fun _ => rfl, ?_, by decide +kernel⟩
    rintro _ ⟨⟩
    exact ⟨_, rfl, by decide +kernel⟩
  have hresembles : Resembles modest { modest with kind := "Other" } :=
    ⟨rfl, fun _ => Iff.rfl, rfl⟩
  have hrestates : Restates strict { strict with spec.sourceSpaces := some ["a", "a"] } :=
    ⟨rfl, rfl, fun space => by simp [strict]⟩
  have hpromotion : promotion (some modest) (some strict) = true := by decide +kernel
  have hresidency : residency (some modest) (some strict) = true := by decide +kernel
  obtain ⟨hmono, hsame⟩ := verdicts_monotone
  obtain ⟨hpromoted, hresident⟩ := hmono _ _ _ _ hoffers hrelaxes
  refine ⟨hoffers, hrelaxes, ⟨hpromotion, hpromoted hpromotion⟩,
    ⟨hresidency, hresident hresidency⟩, hresembles, hrestates, ?_⟩
  rw [(hsame _ _ _ _ hresembles hrestates).1, hpromotion]

end Ferry.Policy
