import Ferry.Toml.Number

/-!
# The tables of a TOML document

A document is a tree of tables that statements add to: a header opens a table,
a pair of key and value is put into the table opened last, below the dotted
part of its key. Where a table came from decides what may be added to it later,
and `Origin` keeps that. Every value and table has a mark, the part of the text
that begins where it begins, so that a later complaint can name its line.
-/
namespace Ferry.Toml

/-- A place in a text: the part of the text that begins there. -/
abbrev Mark := List Char

structure Key where
  name : String
  mark : Mark

/-- A value without parts. -/
inductive Scalar where
  | str (s : String)
  | int (n : Int)
  | real (r : Real)
  | bool (b : Bool)
  | dateTime (text : String)

/-- Where a table came from. -/
inductive Origin where
  /-- Written between braces: nothing is added later. -/
  | inline (mark : Mark)
  /-- Opened by its own header, or the document itself. -/
  | header (mark : Mark)
  /-- Named so far only on the way to tables with headers. -/
  | implied
  /-- Named so far only in dotted keys. -/
  | dotted

namespace Origin

def mark? : Origin → Option Mark
  | inline mark | header mark => some mark
  | implied | dotted => none

def isDotted : Origin → Bool
  | dotted => true
  | _ => false

/-- Whether a path may lead through a table: that of a header through all but inline tables, that
of a dotted key only through tables that no header has opened. -/
def leads (origin : Origin) (byDots : Bool) : Bool :=
  match origin with
  | inline _ => false
  | header _ => !byDots
  | implied | dotted => true

end Origin

/-- A value of a document. -/
inductive Node where
  | scalar (mark : Mark) (value : Scalar)
  | array (mark : Mark) (items : List Node)
  | table (origin : Origin) (entries : List (Key × Node))
  /-- An array of tables, each opened by a header of its own: the last table, and those before it,
  from the last one back. -/
  | tables (mark : Mark) (entries : List (Key × Node)) (before : List (Mark × List (Key × Node)))

instance : Inhabited Node := ⟨.array [] []⟩

abbrev Entries := List (Key × Node)

namespace Entries

def find? (name : String) (entries : Entries) : Option Node :=
  (List.find? (fun e => e.1.name = name) entries).map Prod.snd

/-- Replaces the value of a key, or puts a new one at the end; none if the change is refused. -/
def alter? (key : Key) (change : Option Node → Option Node) : Entries → Option Entries
  | [] => (change none).map fun node => [(key, node)]
  | (k, node) :: rest =>
    if k.name = key.name then (change (some node)).map fun node => (k, node) :: rest
    else (alter? key change rest).map ((k, node) :: ·)

/-- Changes the table at the end of a path, making tables that are missing. A step through an
array of tables goes into its last table. -/
def descend? (byDots : Bool) (change : Origin → Entries → Option Entries) :
    List Key → Origin → Entries → Option Entries
  | [], origin, entries => change origin entries
  | key :: path, _, entries =>
    entries.alter? key fun
      | none =>
        let origin := if byDots then .dotted else .implied
        (descend? byDots change path origin []).map (.table origin)
      | some (.table origin inner) =>
        if origin.leads byDots then
          (descend? byDots change path origin inner).map (.table origin)
        else none
      | some (.tables mark inner before) =>
        (descend? byDots change path (.header mark) inner).map (.tables mark · before)
      | some (.array _ _) | some (.scalar _ _) => none

/-- Puts a value under a dotted key. The key has to be new, and a table that is not made by dotted
keys is not extended by them. -/
def putPair? (path : List Key) (key : Key) (value : Node) (origin : Origin) (entries : Entries) :
    Option Entries :=
  descend? true (fun origin entries =>
    if origin.isDotted = path.isEmpty ∨ (entries.find? key.name).isSome then none
    else some (entries ++ [(key, value)])) path origin entries

/-- Opens a table by a header. One that was only implied so far keeps its entries and moves to the
end; every other table is opened once. -/
def openTable? (path : List Key) (key : Key) (mark : Mark) (origin : Origin) (entries : Entries) :
    Option Entries :=
  descend? false (fun _ entries =>
    match entries.find? key.name with
    | none => some (entries ++ [(key, .table (.header mark) [])])
    | some (.table .implied inner) =>
      some (entries.filter (·.1.name ≠ key.name) ++ [(key, .table (.header mark) inner)])
    | some _ => none) path origin entries

/-- Opens one more table of an array by a header. -/
def openElement? (path : List Key) (key : Key) (mark : Mark) (origin : Origin)
    (entries : Entries) : Option Entries :=
  descend? false (fun _ entries => entries.alter? key fun
    | none => some (.tables mark [] [])
    | some (.tables last inner before) => some (.tables mark [] ((last, inner) :: before))
    | some _ => none) path origin entries

end Entries

/-- The tables read so far, and the path to the one that pairs are put into. -/
structure Document where
  mark : Mark
  entries : Entries
  opened : List Key

namespace Document

def empty (text : List Char) : Document := ⟨text, [], []⟩

/-- Puts a pair into the table opened last. -/
def putPair? (doc : Document) (path : List Key) (key : Key) (value : Node) : Option Document :=
  (doc.entries.descend? false (fun origin entries => entries.putPair? path key value origin)
    doc.opened (.header doc.mark)).map fun entries => { doc with entries }

def openTable? (doc : Document) (path : List Key) (key : Key) (mark : Mark) : Option Document :=
  (doc.entries.openTable? path key mark (.header doc.mark)).map fun entries =>
    { doc with entries, opened := path ++ [key] }

def openElement? (doc : Document) (path : List Key) (key : Key) (mark : Mark) : Option Document :=
  (doc.entries.openElement? path key mark (.header doc.mark)).map fun entries =>
    { doc with entries, opened := path ++ [key] }

def node (doc : Document) : Node := .table (.header doc.mark) doc.entries

end Document

end Ferry.Toml
