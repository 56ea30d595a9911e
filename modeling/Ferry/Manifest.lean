import Ferry.Resource.Decode
import Ferry.Resource.Encode
import Ferry.Store.Error
import Ferry.Toml.Complaint
import Ferry.Toml.Writer

/-!
# Manifests

A manifest lists deployables and channels. One that is read from text is checked:
every entry needs a name and a namespace, and no two entries of one list share
their key.
-/
namespace Ferry

structure Manifest where
  deployables : List Deployable
  channels : List Channel
  deriving DecidableEq

namespace Manifest

def empty : Manifest := ⟨[], []⟩

instance : Inhabited Manifest := ⟨empty⟩

def schema : Schema Manifest where
  name := "Manifest"
  blank := empty
  fields :=
    [.default "deployables" (Decoder.listOf Deployable.schema.decode) fun v m =>
        { m with deployables := v },
      .default "channels" (Decoder.listOf Channel.schema.decode) fun v m =>
        { m with channels := v }]

/-- The fields of a manifest as they are written. -/
def fields (m : Manifest) : List (String × Json) :=
  [("deployables", .arr (m.deployables.map Deployable.encode)),
    ("channels", .arr (m.channels.map Channel.encode))]

def encode (m : Manifest) : Json := .obj m.fields

/-- Whether a key has a name and a namespace. -/
def isNamed (key : ObjectKey) : Bool := key.name ≠ "" && key.space ≠ ""

/-- The first fault among keys, given the keys before them: a key that is not named, or one that
was there before. What is said of a fault depends on whose keys they are. -/
def checkKeys (unnamed : StoreError) (repeated : ObjectKey → StoreError) :
    (seen : List ObjectKey) → List ObjectKey → Except StoreError Unit
  | _, [] => .ok ()
  | seen, key :: rest =>
    if !isNamed key then .error unnamed
    else if key ∈ seen then .error (repeated key)
    else checkKeys unnamed repeated (key :: seen) rest

/-- The first fault among keys of deployables, given the keys before them. -/
def checkDeployables : (seen : List ObjectKey) → List ObjectKey → Except StoreError Unit :=
  checkKeys (.invalid "manifest deployables need both name and namespace") .alreadyExists

/-- The first fault among keys of channels, given the keys before them. -/
def checkChannels : (seen : List ObjectKey) → List ObjectKey → Except StoreError Unit :=
  checkKeys (.invalid "manifest channels need both name and namespace") fun key =>
    .invalid ("duplicate channel in manifest: " ++ key.text)

/-- Checks the deployables, and then the channels. -/
def validate (m : Manifest) : Except StoreError Unit := do
  checkDeployables [] (m.deployables.map Deployable.key)
  checkChannels [] (m.channels.map Channel.key)

/-- Reads and checks a manifest. -/
def parse (text : String) : Except StoreError Manifest := do
  match Toml.decodeText schema.decode text with
  | .error complaint => .error (.parse complaint)
  | .ok m =>
    m.validate
    return m

def toToml (m : Manifest) : Except StoreError String :=
  (Toml.render m.fields).mapError fun e => .serialize e.message

def deployable? (m : Manifest) (key : ObjectKey) : Option Deployable :=
  m.deployables.find? (·.key = key)

def channel? (m : Manifest) (key : ObjectKey) : Option Channel :=
  m.channels.find? (·.key = key)

end Manifest

end Ferry
