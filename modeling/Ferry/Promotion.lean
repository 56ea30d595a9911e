import Ferry.Family
import Ferry.Policy
import Ferry.Projection

/-!
# Promotion

Promotion puts a projection of a deployable into every channel that admits it
and has none yet. Channels are judged first, then one snapshot shows what is
there already, and then the missing projections are created in list order; the
first failure ends the run, and a further run picks up where it stopped.
-/
namespace Ferry

/-- What promotion did for one channel. -/
inductive Outcome where
  | created (projection : ObjectKey)
  | alreadyPresent (projection : ObjectKey)
  /-- The deployable lives in the channel already. -/
  | resident
  | denied
  deriving DecidableEq, Repr

/-- The outcomes by channel. -/
structure PromotionReport where
  outcomes : List (ObjectKey × Outcome)
  deriving DecidableEq, Repr

namespace PromotionReport

/-- The new objects. -/
def created (report : PromotionReport) : List ObjectKey :=
  report.outcomes.filterMap fun (_, outcome) =>
    match outcome with
    | .created key => some key
    | _ => none

/-- The first outcome of a channel. -/
def outcomeFor? (report : PromotionReport) (channel : ObjectKey) : Option Outcome :=
  (report.outcomes.find? fun (key, _) => key = channel).map Prod.snd

end PromotionReport

namespace Promotion

/-- A deployable is resident where it was placed, and where policy lets it reside. -/
def isResident (d : Deployable) (c : Channel) : Bool :=
  d.annotation? Annotation.channel = some c.identity || Policy.resides d c

/-- Whether a projection into the channel has to exist after the run. -/
def isEligible (d : Deployable) (c : Channel) : Bool := !isResident d c && Policy.admits d c

/-- The outcome of a channel that is not eligible. -/
def settled? (d : Deployable) (c : Channel) : Option (ObjectKey × Outcome) :=
  if isResident d c then some (c.key, .resident)
  else if Policy.admits d c then none
  else some (c.key, .denied)

/-- The projection that a snapshot shows in a channel: one of the deployable itself, or else one of
its root. -/
def existing? (index : SnapshotIndex) (family : Family) (d : Deployable) (channel : ObjectKey) :
    Option Deployable :=
  (family.childFor? channel).or (index.projectionOf? d.root channel)

/-- Creates the projection into a channel unless the snapshot shows one. -/
def place {m : Type → Type} [Monad m] (store : Store m) (index : SnapshotIndex) (family : Family)
    (d : Deployable) (channel : ObjectKey) : ExceptT Failure m (ObjectKey × Outcome) :=
  match existing? index family d channel with
  | some projection => return (channel, .alreadyPresent projection.key)
  | none => do
    let created ← (store.create (project d channel)).adapt (.store
      ("failed to create projection of " ++ d.identity ++ " into " ++ channel.text))
    return (channel, .created created.key)

end Promotion

/-- Promotes a deployable into channels. The report has the settled channels first, then the
eligible ones. -/
def promote {m : Type → Type} [Monad m] (store : Store m) (d : Deployable)
    (channels : List Channel) : ExceptT Failure m PromotionReport := do
  let settled := channels.filterMap (Promotion.settled? d)
  let eligible := channels.filter (Promotion.isEligible d)
  let snapshot ← if eligible.isEmpty then pure [] else listSnapshot store d
  let index := SnapshotIndex.ofSnapshot snapshot
  let family := Family.ofIndex index d (eligible.map Channel.space)
  let placed ← eligible.mapM fun c => Promotion.place store index family d c.key
  return ⟨settled ++ placed⟩

end Ferry
