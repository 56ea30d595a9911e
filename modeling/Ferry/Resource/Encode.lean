import Ferry.Resource.Channel
import Ferry.Resource.Deployable

/-!
# Encoding deployables and channels

Records become objects with their fields in declared order. Fields without a
value are left out, and so are most lists and maps that are empty.
-/
namespace Ferry

/-- A field that is left out if it has no value. -/
def fieldOfSome {α : Type} (name : String) (encode : α → Json) :
    Option α → List (String × Json)
  | some v => [(name, encode v)]
  | none => []

/-- A field that is left out if it has no items. -/
def fieldOfItems {α : Type} (name : String) (encode : α → Json) :
    List α → List (String × Json)
  | [] => []
  | items => [(name, .arr (items.map encode))]

def StringMap.encode (m : StringMap) : Json := .obj (m.entries.map fun (k, v) => (k, .str v))

/-- A field that is left out if it has no entries. -/
def fieldOfEntries (name : String) (m : StringMap) : List (String × Json) :=
  if m.isEmpty then [] else [(name, StringMap.encode m)]

def ObjectKey.encode (k : ObjectKey) : Json := .str k.text

def OwnerReference.encode (r : OwnerReference) : Json :=
  .obj ([("api_version", .str r.apiVersion), ("kind", .str r.kind), ("name", .str r.name)] ++
    fieldOfSome "uid" .str r.uid)

def Metadata.encode (m : Metadata) : Json :=
  .obj ([("name", .str m.name), ("namespace", .str m.space)] ++
    fieldOfSome "generate_name" .str m.generateName ++
    fieldOfSome "uid" .str m.uid ++
    fieldOfSome "creation_timestamp" (fun t => .str t.toText) m.createdAt ++
    fieldOfEntries "labels" m.labels ++
    fieldOfSome "annotations" StringMap.encode m.annotations ++
    fieldOfItems "owner_references" OwnerReference.encode m.owners)

def Placement.encode (p : Placement) : Json :=
  .obj (fieldOfItems "clusters" .str p.clusters ++
    fieldOfEntries "cluster_selector" p.clusterSelector)

def Override.encode (o : Override) : Json :=
  .obj [("cluster_name", .str o.clusterName), ("patches", .arr (o.patches.map Payload.value))]

def Dependency.encode (d : Dependency) : Json :=
  .obj ([("kind", .str d.kind), ("name", .str d.name)] ++ fieldOfSome "namespace" .str d.space)

def DeployableSpec.encode (s : DeployableSpec) : Json :=
  .obj (fieldOfSome "template" Payload.value s.template ++
    fieldOfItems "channels" ObjectKey.encode s.channels ++
    fieldOfSome "placement" Placement.encode s.placement ++
    fieldOfItems "overrides" Override.encode s.overrides ++
    fieldOfItems "dependencies" Dependency.encode s.dependencies)

/-- The fields of a deployable as they are written. -/
def Deployable.fields (d : Deployable) : List (String × Json) :=
  [("api_version", .str d.apiVersion), ("kind", .str d.kind),
    ("metadata", d.metadata.encode), ("spec", d.spec.encode)]

def Deployable.encode (d : Deployable) : Json := .obj d.fields

def ChannelGate.encode (g : ChannelGate) : Json :=
  .obj (fieldOfSome "annotations" StringMap.encode g.annotations)

def ChannelSpec.encode (s : ChannelSpec) : Json :=
  .obj (fieldOfSome "gates" ChannelGate.encode s.gates ++
    fieldOfSome "source_namespaces" (fun names => .arr (names.map .str)) s.sourceSpaces)

def Channel.encode (c : Channel) : Json :=
  .obj [("api_version", .str c.apiVersion), ("kind", .str c.kind),
    ("metadata", c.metadata.encode), ("spec", c.spec.encode)]

end Ferry
