import Ferry.Toml.DateTime
import Ferry.Toml.Node

/-!
# Reading a TOML document

Values, dotted keys, and the statements of a document. Brackets and braces nest
to a fixed depth, and `readValue` recurs on what is left of it. A document is
read statement by statement; each is checked against the tables read before it,
and the first one that cannot be read or added ends the reading.
-/
namespace Ferry.Toml

/-- So many brackets and braces may be open inside a value. -/
def maxNesting : Nat := 79

/-- A dotted key has at most so many parts. -/
def maxKeyParts : Nat := 79

/-- Whether a text begins like a key. -/
def startsKey : List Char → Bool
  | c :: _ => c = '"' || c = '\'' || isBareKeyChar c
  | [] => false

/-- One part of a key. -/
def readKeyPart (s : List Char) : Except Mark (Key × Mark) :=
  match s with
  | '"' :: _ | '\'' :: _ => (readQuotedLine s).map fun (name, left) => (⟨name, s⟩, left)
  | _ =>
    match s.takeWhile isBareKeyChar with
    | [] => .error s
    | cs => .ok (⟨String.ofList cs, s⟩, s.drop cs.length)

/-- The parts of a dotted key, at most so many of them, with blanks around each. -/
def readKeyParts : (most : Nat) → List Char → Except Mark (List Key × Mark)
  | 0, s => .error s
  | most + 1, s => do
    let (key, s) ← readKeyPart (skipBlanks s)
    match skipBlanks s with
    | '.' :: s =>
      let (keys, s) ← readKeyParts most s
      return (key :: keys, s)
    | s => return ([key], s)

/-- A dotted key: the parts that lead to a table, and the last one. -/
def readKey (s : List Char) : Except Mark ((List Key × Key) × Mark) := do
  let (keys, left) ← readKeyParts maxKeyParts s
  match keys.getLast? with
  | some key => return ((keys.dropLast, key), left)
  | none => .error s

/-- A value without parts. -/
def readScalar (s : List Char) : Except Mark (Scalar × Mark) :=
  match s with
  | '"' :: _ | '\'' :: _ => (readQuoted s).map fun (text, left) => (.str text, left)
  | _ =>
    match dropWord? ['t', 'r', 'u', 'e'] s with
    | some left => .ok (.bool true, left)
    | none =>
      match dropWord? ['f', 'a', 'l', 's', 'e'] s with
      | some left => .ok (.bool false, left)
      | none =>
        match dateTime? s with
        | some (text, left) => .ok (.dateTime (String.ofList text), left)
        | none =>
          (readNumber s).map fun (n, left) =>
            (match n with | .inl n => .int n | .inr r => .real r, left)

/-- The items of an array after its bracket, up to the closing one. A comma may end them. Reading
stops at an item already if the space behind it is not well formed. -/
def readItems (readItem : List Char → Except Mark (Node × Mark)) : (fuel : Nat) → List Char →
    Except Mark (List Node × Mark)
  | 0, s => .error s
  | fuel + 1, s => do
    match ← skipSpace s with
    | ']' :: left => return ([], left)
    | s =>
      let (item, left) ← readItem s
      match ← (skipSpace left).mapError fun _ => s with
      | ',' :: left =>
        let (items, left) ← readItems readItem fuel left
        return (item :: items, left)
      | ']' :: left => return ([item], left)
      | left => .error left

/-- A dotted key, its path first, with a value. -/
structure Pair where
  path : List Key
  key : Key
  value : Node

def readPair (readItem : List Char → Except Mark (Node × Mark)) (s : List Char) :
    Except Mark (Pair × Mark) := do
  let ((path, key), s) ← readKey s
  let s ← expect '=' s
  let (value, s) ← readItem (skipBlanks s)
  return (⟨path, key, value⟩, s)

/-- The pairs between braces. A comma after which no key begins is left unread. -/
def readPairs (readItem : List Char → Except Mark (Node × Mark)) : (fuel : Nat) → List Char →
    Except Mark (List Pair × Mark)
  | 0, s => .error s
  | fuel + 1, s => do
    let (pair, s) ← readPair readItem s
    match skipBlanks s with
    | ',' :: t =>
      if startsKey (skipBlanks t) then
        let (pairs, s) ← readPairs readItem fuel t
        return (pair :: pairs, s)
      else return ([pair], ',' :: t)
    | s => return ([pair], s)

/-- The table that pairs between braces make. -/
def inlineEntries? (mark : Mark) (pairs : List Pair) : Option Entries :=
  pairs.foldlM (fun entries p => entries.putPair? p.path p.key p.value (.inline mark)) []

/-- A value that nests at most so deep. An array or table has at most `size` parts: no bound for a
text with at most `size` characters. -/
def readValue (size : Nat) : (depth : Nat) → List Char → Except Mark (Node × Mark)
  | 0, '[' :: s => .error s
  | 0, '{' :: s => .error s
  | depth + 1, '[' :: s =>
    (readItems (readValue size depth) (size + 1) s).map fun (items, left) =>
      (.array ('[' :: s) items, left)
  | depth + 1, '{' :: s => do
    let mark := '{' :: s
    let (pairs, left) ←
      if startsKey (skipBlanks s) then readPairs (readValue size depth) (size + 1) s
      else .ok ([], skipBlanks s)
    match inlineEntries? mark pairs with
    | none => .error s
    | some entries =>
      let left ← expect '}' left
      return (.table (.inline mark) entries, left)
  | _, s => (readScalar s).map fun (value, left) => (.scalar s value, left)

/-- A line of a document that says something; a value may go on over several lines. -/
inductive Statement where
  | blank
  | openTable (path : List Key) (key : Key)
  | openElement (path : List Key) (key : Key)
  | pair (pair : Pair)

/-- What was wanted where reading stopped. -/
inductive Wanted where
  /-- The rest of a header after its key; that of an array has two brackets. -/
  | headerEnd (ofArray : Bool)
  | toml
  deriving DecidableEq, Repr

def Wanted.message : Wanted → String
  | headerEnd true => "invalid table header\nexpected \x60.\x60, \x60]]\x60"
  | headerEnd false => "invalid table header\nexpected \x60.\x60, \x60]\x60"
  | toml => "invalid TOML"

/-- A text that is not TOML, with the part of it where reading stopped. -/
structure SyntaxError where
  mark : Mark
  wanted : Wanted

def orWanted {α : Type} (wanted : Wanted) (r : Except Mark α) : Except SyntaxError α :=
  r.mapError fun mark => ⟨mark, wanted⟩

/-- A statement with the end of its line, in a text with at most `size` characters. -/
def readStatement (size : Nat) (s : List Char) : Except SyntaxError (Statement × Mark) :=
  match s with
  | '[' :: '[' :: s => do
    let ((path, key), s) ← orWanted .toml (readKey s)
    let s ← orWanted (.headerEnd true) (expect ']' s)
    let s ← orWanted (.headerEnd true) (expect ']' s)
    return (.openElement path key, ← orWanted .toml (endLine s))
  | '[' :: s => do
    let ((path, key), s) ← orWanted .toml (readKey s)
    let s ← orWanted (.headerEnd false) (expect ']' s)
    return (.openTable path key, ← orWanted .toml (endLine s))
  | _ =>
    orWanted .toml <|
      if startsKey s then do
        let (pair, s) ← readPair (readValue size maxNesting) s
        return (.pair pair, ← endLine s)
      else do
        return (.blank, ← endLine s)

/-- Adds a statement that begins at a mark to the tables before it. -/
def Document.add? (doc : Document) (mark : Mark) : Statement → Option Document
  | .blank => some doc
  | .openTable path key => doc.openTable? path key mark
  | .openElement path key => doc.openElement? path key mark
  | .pair p => doc.putPair? p.path p.key p.value

/-- Reads the statements that are left of a document with at most `size` characters. -/
def readStatements (size : Nat) : (fuel : Nat) → Document → List Char → Except SyntaxError Document
  | _, doc, [] => .ok doc
  | 0, _, s => .error ⟨s, .toml⟩
  | fuel + 1, doc, s => do
    let s := skipBlanks s
    let (statement, left) ← readStatement size s
    match doc.add? s statement with
    | some doc => readStatements size fuel doc left
    | none => .error ⟨s, .toml⟩

/-- A byte order mark may stand first. -/
def skipByteOrderMark : List Char → List Char
  | '\ufeff' :: s => s
  | s => s

/-- The tables of a document, or the place where reading stopped. -/
def readDocument (text : List Char) : Except SyntaxError Node :=
  let size := text.length
  (readStatements size (size + 1) (.empty text) (skipByteOrderMark text)).map Document.node

end Ferry.Toml
