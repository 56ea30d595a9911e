import Ferry.Datum
import Ferry.ObjectKey
import Ferry.Text
import Ferry.Timestamp

/-!
# Decoding values into records

A decoder takes a value to what it stands for, or says why it does not stand for
anything. Records are decoded by a `Schema`: from a map by the names of fields,
in the order of the map, or from a sequence by position. The first failure ends
decoding; required fields that are missing are reported after all others.
-/
namespace Ferry

open Toml (Mark)

/-- The format that a value was read from. The two differ in a few complaints. -/
inductive Format where
  | json
  | toml
  deriving DecidableEq, Repr

/-- Why a value cannot be decoded. -/
inductive DecodeCause where
  /-- A value of one kind stands where another kind is wanted. -/
  | kind (found wanted : String)
  | missingField (name : String)
  /-- A sequence has more items than the record has fields. -/
  | tooManyItems (count : Nat)
  /-- A sequence ends before a required field. -/
  | tooFewItems (count : Nat) (record : String) (fields : Nat)
  | badKey (text : String)
  | badTimestamp (fault : Timestamp.Fault)
  | unknownVariant (name : String) (variants : List String)
  | notSingleKey
  /-- What one format alone says of a choice between names. -/
  | choice (complaint : String)
  deriving DecidableEq, Repr

/-- Alternatives joined by a word. -/
def joinAlternatives (names : List String) : String := " or ".intercalate (names.map ticked)

def DecodeCause.message : DecodeCause → String
  | kind found wanted => "invalid type: " ++ found ++ ", expected " ++ wanted
  | missingField name => "missing field " ++ ticked name
  | tooManyItems count =>
    "invalid length " ++ toString count ++ ", expected fewer elements in array"
  | tooFewItems count record fields =>
    "invalid length " ++ toString count ++ ", expected struct " ++ record ++ " with " ++
      toString fields ++ " elements"
  | badKey text => ObjectKey.refusal text
  | badTimestamp fault => fault.message
  | unknownVariant name variants =>
    "unknown variant " ++ ticked name ++ ", expected " ++ joinAlternatives variants
  | notSingleKey => "invalid value: map, expected map with a single key"
  | choice complaint => complaint

/-- A failure to decode, with the place of the innermost value that has one. -/
structure DecodeError where
  cause : DecodeCause
  mark : Option Mark

abbrev Decoded (α : Type) := Except DecodeError α

/-- Decodes a value that was read from a format. -/
abbrev Decoder (α : Type) := Format → Datum → Decoded α

namespace Decoder

variable {α β : Type}

def fail (cause : DecodeCause) : Decoded α := .error ⟨cause, none⟩

/-- Gives a failure a place, unless it has one. -/
def locate (mark : Mark) : Decoded α → Decoded α
  | .ok a => .ok a
  | .error e => .error ⟨e.cause, e.mark.or (some mark)⟩

/-- Decodes what stands at a place; a failure without a place gets that one. -/
def visit (decode : Datum → Decoded α) : Datum → Decoded α
  | .located mark d | .keyed mark d => locate mark (visit decode d)
  | d => decode d

def realText : Format → Toml.Real → String
  | .json, .finite x => x.toText
  | .toml, .finite x => x.toPositional
  | _, .infinite negative => if negative then "-inf" else "inf"
  | _, .undefined => "NaN"

/-- What a value is called in a complaint. -/
def describe (format : Format) : Datum → String
  | .null => "null"
  | .bool b => "boolean " ++ ticked (if b then "true" else "false")
  | .int n => "integer " ++ ticked (toString n)
  | .real r => "floating point " ++ ticked (realText format r)
  | .str s => "string " ++ quotation s
  | .seq _ | .tables _ => "sequence"
  | .map _ | .dateTime _ => "map"
  | .located _ d | .keyed _ d => describe format d

def mismatch (format : Format) (d : Datum) (wanted : String) : Decoded α :=
  fail (.kind (describe format d) wanted)

/-- A text, called so or otherwise. -/
def text (wanted : String) : Decoder String := fun format => visit fun
  | .str s => .ok s
  | d => mismatch format d wanted

def string : Decoder String := text "a string"

/-- Null stands for nothing. -/
def optional (decode : Decoder α) : Decoder (Option α) := fun format d =>
  match d with
  | .null => .ok none
  | d => (decode format d).map some

def listOf (decode : Decoder α) : Decoder (List α) := fun format => visit fun
  | .seq items | .tables items => items.mapM (decode format)
  | d => mismatch format d "a sequence"

/-- The fields that a value is seen to have, if it is seen as a map. -/
def fields? : Datum → Option (List (String × Datum))
  | .map fields => some fields
  | .dateTime text => some [(Datum.dateTimeField, .str text)]
  | _ => none

/-- A named text. -/
def stringEntry (format : Format) (field : String × Datum) : Decoded (String × String) :=
  (string format field.2).map fun v => (field.1, v)

def stringMap : Decoder (SortedMap String String) := fun format => visit fun d =>
  match fields? d with
  | some fields => (fields.mapM (stringEntry format)).map SortedMap.ofList
  | none => mismatch format d "a map"

/-- Any value is a payload. -/
def payload : Decoder Payload := fun _ d => .ok (.ofJson d.toJson)

def key : Decoder ObjectKey := fun format d => do
  let s ← string format d
  match ObjectKey.parse? s with
  | some key => .ok key
  | none => fail (.badKey s)

def timestamp : Decoder Timestamp := fun format => visit fun
  | .str s =>
    match Timestamp.parse s with
    | .ok t => .ok t
    | .error fault => fail (.badTimestamp fault)
  | d => mismatch format d "an RFC 3339 formatted date and time string"

end Decoder

/-- A field of a record: its value changes the record made so far. -/
structure Field (α : Type) where
  name : String
  required : Bool
  decode : Decoder (α → α)

namespace Field

variable {α β : Type}

/-- A field that may be missing. -/
def default (name : String) (decode : Decoder β) (set : β → α → α) : Field α :=
  ⟨name, false, fun format d => (decode format d).map set⟩

/-- A field that has to be there. -/
def need (name : String) (decode : Decoder β) (set : β → α → α) : Field α :=
  ⟨name, true, fun format d => (decode format d).map set⟩

end Field

/-- The fields of a record in order, and the record without any of them. -/
structure Schema (α : Type) where
  name : String
  blank : α
  fields : List (Field α)

namespace Schema

variable {α : Type}

/-- Decodes the fields of a map in its order; unknown ones are passed over. -/
def decodeFields (schema : Schema α) (format : Format) (fields : List (String × Datum)) :
    Decoded α := do
  let record ← fields.foldlM (fun record (name, d) =>
    match schema.fields.find? (·.name = name) with
    | some field => (field.decode format d).map (· record)
    | none => .ok record) schema.blank
  match schema.fields.find? fun f => f.required && fields.all (·.1 ≠ f.name) with
  | some field => Decoder.fail (.missingField field.name)
  | none => .ok record

/-- Decodes the items of a sequence as fields in declared order. -/
def decodeItems (schema : Schema α) (format : Format) (items : List Datum) : Decoded α := do
  let record ← (schema.fields.zip items).foldlM (fun record (field, d) =>
    (field.decode format d).map (· record)) schema.blank
  match schema.fields.zipIdx.find? fun (f, i) => f.required && items.length ≤ i with
  | some (_, i) => Decoder.fail (.tooFewItems i schema.name schema.fields.length)
  | none =>
    if format = .json ∧ schema.fields.length < items.length then
      Decoder.fail (.tooManyItems items.length)
    else .ok record

def decode (schema : Schema α) : Decoder α := fun format => Decoder.visit fun d =>
  match d with
  | .seq items | .tables items => schema.decodeItems format items
  | d =>
    match Decoder.fields? d with
    | some fields => schema.decodeFields format fields
    | none => Decoder.mismatch format d ("struct " ++ schema.name)

end Schema

end Ferry
