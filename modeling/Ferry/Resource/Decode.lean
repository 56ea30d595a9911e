import Ferry.Decoding
import Ferry.Resource.Channel
import Ferry.Resource.Deployable

/-!
# Decoding deployables and channels

The schemas of all records, with the names of fields as they are written.
-/
namespace Ferry

open Decoder

def OwnerReference.schema : Schema OwnerReference where
  name := "OwnerReference"
  blank := default
  fields :=
    [.need "api_version" string fun v r => { r with apiVersion := v },
      .need "kind" string fun v r => { r with kind := v },
      .need "name" string fun v r => { r with name := v },
      .default "uid" (optional string) fun v r => { r with uid := v }]

def Metadata.schema : Schema Metadata where
  name := "ObjectMeta"
  blank := default
  fields :=
    [.default "name" string fun v r => { r with name := v },
      .default "namespace" string fun v r => { r with space := v },
      .default "generate_name" (optional string) fun v r => { r with generateName := v },
      .default "uid" (optional string) fun v r => { r with uid := v },
      .default "creation_timestamp" (optional timestamp) fun v r => { r with createdAt := v },
      .default "labels" stringMap fun v r => { r with labels := v },
      .default "annotations" (optional stringMap) fun v r => { r with annotations := v },
      .default "owner_references" (listOf OwnerReference.schema.decode) fun v r =>
        { r with owners := v }]

def Placement.schema : Schema Placement where
  name := "Placement"
  blank := default
  fields :=
    [.default "clusters" (listOf string) fun v r => { r with clusters := v },
      .default "cluster_selector" stringMap fun v r => { r with clusterSelector := v }]

def Override.schema : Schema Override where
  name := "Override"
  blank := default
  fields :=
    [.need "cluster_name" string fun v r => { r with clusterName := v },
      .default "patches" (listOf payload) fun v r => { r with patches := v }]

def Dependency.schema : Schema Dependency where
  name := "Dependency"
  blank := default
  fields :=
    [.need "kind" string fun v r => { r with kind := v },
      .need "name" string fun v r => { r with name := v },
      .default "namespace" (optional string) fun v r => { r with space := v }]

def DeployableSpec.schema : Schema DeployableSpec where
  name := "DeployableSpec"
  blank := default
  fields :=
    [.default "template" (optional payload) fun v r => { r with template := v },
      .default "channels" (listOf key) fun v r => { r with channels := v },
      .default "placement" (optional Placement.schema.decode) fun v r => { r with placement := v },
      .default "overrides" (listOf Override.schema.decode) fun v r => { r with overrides := v },
      .default "dependencies" (listOf Dependency.schema.decode) fun v r =>
        { r with dependencies := v }]

def Deployable.schema : Schema Deployable where
  name := "Deployable"
  blank := default
  fields :=
    [.default "api_version" string fun v r => { r with apiVersion := v },
      .default "kind" string fun v r => { r with kind := v },
      .need "metadata" Metadata.schema.decode fun v r => { r with metadata := v },
      .default "spec" DeployableSpec.schema.decode fun v r => { r with spec := v }]

def ChannelGate.schema : Schema ChannelGate where
  name := "ChannelGate"
  blank := default
  fields := [.default "annotations" (optional stringMap) fun v r => { r with annotations := v }]

def ChannelSpec.schema : Schema ChannelSpec where
  name := "ChannelSpec"
  blank := default
  fields :=
    [.default "gates" (optional ChannelGate.schema.decode) fun v r => { r with gates := v },
      .default "source_namespaces" (optional (listOf string)) fun v r =>
        { r with sourceSpaces := v }]

def Channel.schema : Schema Channel where
  name := "Channel"
  blank := default
  fields :=
    [.default "api_version" string fun v r => { r with apiVersion := v },
      .default "kind" string fun v r => { r with kind := v },
      .need "metadata" Metadata.schema.decode fun v r => { r with metadata := v },
      .default "spec" ChannelSpec.schema.decode fun v r => { r with spec := v }]

end Ferry
