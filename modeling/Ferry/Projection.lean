import Ferry.Resource.Deployable

/-!
# Projections

The projection of a deployable into a channel is a new object in the channel's
namespace. It keeps the template, the declared channels, the labels and the
annotations, and it records the channel, the object it was derived from, and the
root of the chain, which stays the same when a projection is projected again.
-/
namespace Ferry

/-- The annotations of a projection. -/
def projectionAnnotations (source : Deployable) (channel : ObjectKey) : StringMap :=
  ((((source.metadata.annotations.getD .empty).insert Annotation.isLocal "false").insert
    Annotation.channelSource source.root).insert Annotation.channel channel.text).insert
    Annotation.isGenerated "true"

/-- The projection of a deployable into a channel. It has no name until it is stored. -/
def project (source : Deployable) (channel : ObjectKey) : Deployable where
  apiVersion := source.apiVersion
  kind := source.kind
  metadata :=
    { name := ""
      space := channel.space
      generateName := some source.projectionNameStart
      uid := none
      createdAt := none
      labels := source.metadata.labels
      annotations := some (projectionAnnotations source channel)
      owners := [source.ownerReference] }
  spec :=
    { template := source.spec.template
      channels := source.spec.channels
      placement := none
      overrides := []
      dependencies := [] }

end Ferry
