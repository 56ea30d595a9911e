import Ferry.Json
import Ferry.Toml.Node

/-!
# Values on the way to records

A `Datum` is a value as a data format presents it, before it is known what it is
to be decoded as. It carries the places of its parts, if the format has them, so
that a complaint can name the line it is about.
-/
namespace Ferry

open Toml (Mark Node)

inductive Datum where
  | null
  | bool (b : Bool)
  | int (n : Int)
  | real (r : Toml.Real)
  | str (s : String)
  | dateTime (text : String)
  | seq (items : List Datum)
  /-- A sequence of tables that have headers of their own. -/
  | tables (items : List Datum)
  | map (fields : List (String × Datum))
  /-- A value that begins at a place. -/
  | located (mark : Mark) (d : Datum)
  /-- A value whose key begins at a place. -/
  | keyed (mark : Mark) (d : Datum)

namespace Datum

instance : Inhabited Datum := ⟨null⟩

/-- The name under which a date or time is seen as a field of a map. -/
def dateTimeField : String := "$__toml_private_datetime"

mutual

def ofJson : Json → Datum
  | .null => null
  | .bool b => bool b
  | .int n => int n
  | .float x => real (.finite x)
  | .str s => str s
  | .arr items => seq (ofJsonItems items)
  | .obj fields => map (ofJsonFields fields)

def ofJsonItems : List Json → List Datum
  | [] => []
  | v :: rest => ofJson v :: ofJsonItems rest

def ofJsonFields : List (String × Json) → List (String × Datum)
  | [] => []
  | (name, v) :: rest => (name, ofJson v) :: ofJsonFields rest

end

mutual

/-- The untyped value; one that the data model of JSON lacks becomes null. -/
def toJson : Datum → Json
  | null => .null
  | bool b => .bool b
  | int n => .int n
  | real (.finite x) => .float x
  | real (.infinite _) | real .undefined => .null
  | str s => .str s
  | dateTime text => .obj [(dateTimeField, .str text)]
  | seq items | tables items => .arr (toJsonItems items)
  | map fields => .obj (toJsonFields fields)
  | located _ d | keyed _ d => d.toJson

def toJsonItems : List Datum → List Json
  | [] => []
  | d :: rest => d.toJson :: toJsonItems rest

def toJsonFields : List (String × Datum) → List (String × Json)
  | [] => []
  | (name, d) :: rest => (name, d.toJson) :: toJsonFields rest

end

def ofScalar : Toml.Scalar → Datum
  | .str s => str s
  | .int n => int n
  | .real r => real r
  | .bool b => bool b
  | .dateTime text => dateTime text

/-- The mark of the first table of an array, by the last one and those before it. -/
def firstMark (mark : Mark) (before : List (Mark × List (Toml.Key × Node))) : Mark :=
  (before.getLast?.map Prod.fst).getD mark

mutual

/-- The value of a document's node. An array of tables begins where its first table begins. -/
def ofNode : Node → Datum
  | .scalar mark value => located mark (ofScalar value)
  | .array mark items => located mark (seq (ofNodes items))
  | .table (.inline mark) entries | .table (.header mark) entries =>
    located mark (map (ofEntries entries))
  | .table .implied entries | .table .dotted entries => map (ofEntries entries)
  | .tables mark entries before =>
    located (firstMark mark before)
      (tables (ofElements [located mark (map (ofEntries entries))] before))

def ofNodes : List Node → List Datum
  | [] => []
  | node :: rest => ofNode node :: ofNodes rest

def ofEntries : List (Toml.Key × Node) → List (String × Datum)
  | [] => []
  | (key, node) :: rest => (key.name, keyed key.mark (ofNode node)) :: ofEntries rest

def ofElements (later : List Datum) : List (Mark × List (Toml.Key × Node)) → List Datum
  | [] => later
  | (mark, entries) :: before =>
    ofElements (located mark (map (ofEntries entries)) :: later) before

end

end Datum

end Ferry
