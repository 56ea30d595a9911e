import Ferry.Proofs.Results
import Ferry.Proofs.Toml.Writable

/-!
# Integers of a document

Every integer that a document is read with has 64 bits, whatever the text. The
values are read with such integers, and every statement keeps the tables as they
are or puts such values into them.
-/
namespace Ferry

namespace Json

theorem intsFit_arr {items : List Json} : (arr items).IntsFit ↔ ∀ v ∈ items, v.IntsFit :=
  structural_fitsInt64.every_arr

theorem intsFit_obj {fields : List (String × Json)} :
    (obj fields).IntsFit ↔ ∀ f ∈ fields, f.2.IntsFit := by
  rw [IntsFit, structural_fitsInt64.every_obj, everyField_iff]

end Json

namespace Datum

/-- All integers of a datum have 64 bits. -/
def IntsFit (d : Datum) : Prop := d.toJson.IntsFit

@[simp]
theorem intsFit_located {mark : Toml.Mark} {d : Datum} : (located mark d).IntsFit ↔ d.IntsFit := by
  rw [IntsFit, toJson]
  rfl

@[simp]
theorem intsFit_keyed {mark : Toml.Mark} {d : Datum} : (keyed mark d).IntsFit ↔ d.IntsFit := by
  rw [IntsFit, toJson]
  rfl

theorem toJsonItems_eq_map (items : List Datum) : toJsonItems items = items.map toJson := by
  induction items with
  | nil => rfl
  | cons d items ih => rw [toJsonItems, ih, List.map_cons]

theorem intsFit_seq {items : List Datum} : (seq items).IntsFit ↔ ∀ d ∈ items, d.IntsFit := by
  rw [IntsFit, toJson, toJsonItems_eq_map, Json.intsFit_arr, List.forall_mem_map]
  rfl

theorem intsFit_tables {items : List Datum} : (tables items).IntsFit ↔ ∀ d ∈ items, d.IntsFit := by
  rw [IntsFit, toJson, toJsonItems_eq_map, Json.intsFit_arr, List.forall_mem_map]
  rfl

theorem intsFit_map {fields : List (String × Datum)} :
    (map fields).IntsFit ↔ ∀ f ∈ fields, f.2.IntsFit := by
  rw [IntsFit, toJson, toJsonFields_eq_map, Json.intsFit_obj, List.forall_mem_map]
  rfl

end Datum

namespace Toml

def Node.IntsFit (node : Node) : Prop := (Datum.ofNode node).IntsFit

def Entries.IntsFit (entries : Entries) : Prop := ∀ e ∈ entries, e.2.IntsFit

namespace Node

theorem intsFit_array {mark : Mark} {items : List Node} :
    (array mark items).IntsFit ↔ ∀ node ∈ items, node.IntsFit := by
  rw [IntsFit, Datum.ofNode, Datum.intsFit_located, Datum.intsFit_seq, Datum.ofNodes_eq_map,
    List.forall_mem_map]
  rfl

theorem intsFit_ofEntries {entries : Entries} :
    (Datum.map (Datum.ofEntries entries)).IntsFit ↔ entries.IntsFit := by
  rw [Datum.intsFit_map, Datum.ofEntries_eq_map, List.forall_mem_map]
  simp only [Datum.intsFit_keyed]
  rfl

theorem intsFit_table {origin : Origin} {entries : Entries} :
    (table origin entries).IntsFit ↔ entries.IntsFit := by
  cases origin <;> simp only [IntsFit, Datum.ofNode, Datum.intsFit_located, intsFit_ofEntries]

theorem mem_ofElements {later : List Datum} {before : List (Mark × Entries)} :
    (∀ d ∈ Datum.ofElements later before, d.IntsFit) ↔
      (∀ d ∈ later, d.IntsFit) ∧ ∀ b ∈ before, Entries.IntsFit b.2 := by
  induction before generalizing later with
  | nil => simp [Datum.ofElements]
  | cons b before ih =>
    obtain ⟨mark, entries⟩ := b
    rw [Datum.ofElements, ih, List.forall_mem_cons, List.forall_mem_cons, Datum.intsFit_located,
      intsFit_ofEntries, and_assoc, and_left_comm]

theorem intsFit_tables {mark : Mark} {entries : Entries} {before : List (Mark × Entries)} :
    (tables mark entries before).IntsFit ↔
      entries.IntsFit ∧ ∀ b ∈ before, Entries.IntsFit b.2 := by
  rw [IntsFit, Datum.ofNode, Datum.intsFit_located, Datum.intsFit_tables, mem_ofElements,
    List.forall_mem_singleton, Datum.intsFit_located, intsFit_ofEntries]

end Node

/-! ### Values -/

theorem bounds_of_int64? {n m : Int} (h : int64? n = some m) :
    -int64Bound ≤ m ∧ m < int64Bound := by
  unfold int64? at h
  split at h
  next hn =>
    cases h
    exact hn
  next => cases h

theorem bounds_of_radixInt? {s left : List Char} {n : Int} (h : radixInt? s = some (some n, left)) :
    -int64Bound ≤ n ∧ n < int64Bound := by
  unfold radixInt? at h
  split at h
  · obtain ⟨_, _, heq⟩ := Option.map_eq_some_iff.mp h
    exact bounds_of_int64? (Prod.mk.inj heq).1
  · obtain ⟨_, _, heq⟩ := Option.map_eq_some_iff.mp h
    exact bounds_of_int64? (Prod.mk.inj heq).1
  · obtain ⟨_, _, heq⟩ := Option.map_eq_some_iff.mp h
    exact bounds_of_int64? (Prod.mk.inj heq).1
  · cases h

theorem bounds_of_readNumber {s left : List Char} {n : Int}
    (h : readNumber s = .ok (.inl n, left)) : -int64Bound ≤ n ∧ n < int64Bound := by
  unfold readNumber at h
  dsimp only at h
  split at h
  next => cases h
  split at h
  next hradix =>
    cases h
    exact bounds_of_radixInt? hradix
  next => cases h
  split at h
  next => cases h
  split at h
  next =>
    split at h
    next => split at h <;> cases h
    next => split at h <;> cases h
  next =>
    split at h
    next => split at h <;> cases h
    next =>
      split at h
      next hint =>
        cases h
        exact bounds_of_int64? hint
      next => cases h

theorem intsFit_of_readScalar {s left : List Char} {value : Scalar} (mark : Mark)
    (h : readScalar s = .ok (value, left)) : (Node.scalar mark value).IntsFit := by
  rw [Node.IntsFit, Datum.ofNode, Datum.intsFit_located]
  unfold readScalar at h
  split at h
  · obtain ⟨_, _, heq⟩ := exists_of_map_eq_ok h
    cases heq
    trivial
  · obtain ⟨_, _, heq⟩ := exists_of_map_eq_ok h
    cases heq
    trivial
  split at h
  next =>
    cases h
    trivial
  split at h
  next =>
    cases h
    trivial
  split at h
  next =>
    cases h
    exact ⟨trivial, trivial, trivial⟩
  next =>
    obtain ⟨⟨n, _⟩, hnumber, heq⟩ := exists_of_map_eq_ok h
    cases heq
    cases n with
    | inl n => exact bounds_of_readNumber hnumber
    | inr r => cases r <;> trivial

section Items

variable {readItem : List Char → Except Mark (Node × Mark)}

def ReadsIntsFit (readItem : List Char → Except Mark (Node × Mark)) : Prop :=
  ∀ s node left, readItem s = .ok (node, left) → node.IntsFit

theorem intsFit_of_readItems (hitem : ReadsIntsFit readItem) {fuel : Nat} {s left : List Char}
    {nodes : List Node} (h : readItems readItem fuel s = .ok (nodes, left)) :
    ∀ node ∈ nodes, node.IntsFit := by
  induction fuel generalizing s nodes with
  | zero => cases h
  | succ fuel ih =>
    unfold readItems at h
    obtain ⟨s', -, h⟩ := exists_of_bind_eq_ok h
    split at h
    next =>
      cases h
      exact nofun
    next =>
      obtain ⟨⟨node, left'⟩, hnode, h⟩ := exists_of_bind_eq_ok h
      obtain ⟨s'', -, h⟩ := exists_of_bind_eq_ok h
      split at h
      next =>
        obtain ⟨⟨rest, _⟩, hrest, h⟩ := exists_of_bind_eq_ok h
        cases h
        exact List.forall_mem_cons.mpr ⟨hitem _ _ _ hnode, ih hrest⟩
      next =>
        cases h
        exact List.forall_mem_singleton.mpr (hitem _ _ _ hnode)
      next => cases h

theorem intsFit_of_readPair (hitem : ReadsIntsFit readItem) {s left : List Char} {p : Pair}
    (h : readPair readItem s = .ok (p, left)) : p.value.IntsFit := by
  unfold readPair at h
  obtain ⟨⟨_, s⟩, -, h⟩ := exists_of_bind_eq_ok h
  obtain ⟨s', -, h⟩ := exists_of_bind_eq_ok h
  obtain ⟨⟨node, _⟩, hnode, h⟩ := exists_of_bind_eq_ok h
  cases h
  exact hitem _ _ _ hnode

theorem intsFit_of_readPairs (hitem : ReadsIntsFit readItem) {fuel : Nat} {s left : List Char}
    {pairs : List Pair} (h : readPairs readItem fuel s = .ok (pairs, left)) :
    ∀ p ∈ pairs, p.value.IntsFit := by
  induction fuel generalizing s pairs with
  | zero => cases h
  | succ fuel ih =>
    unfold readPairs at h
    obtain ⟨⟨p, s'⟩, hp, h⟩ := exists_of_bind_eq_ok h
    have hp' := intsFit_of_readPair hitem hp
    dsimp only at h
    split at h
    next =>
      split at h
      next =>
        obtain ⟨⟨rest, _⟩, hrest, h⟩ := exists_of_bind_eq_ok h
        cases h
        exact List.forall_mem_cons.mpr ⟨hp', ih hrest⟩
      next =>
        cases h
        exact List.forall_mem_singleton.mpr hp'
    next =>
      cases h
      exact List.forall_mem_singleton.mpr hp'

end Items

/-! ### Tables -/

namespace Entries

def Change.KeepsIntsFit (change : Change) : Prop :=
  ∀ origin entries entries', IntsFit entries → change origin entries = some entries' →
    IntsFit entries'

theorem IntsFit.nil : IntsFit [] := fun _ he => nomatch he

theorem IntsFit.append {entries : Entries} (h : entries.IntsFit) {key : Key} {node : Node}
    (hnode : node.IntsFit) : IntsFit (entries ++ [(key, node)]) := by
  intro e he
  rcases List.mem_append.mp he with he | he
  · exact h e he
  · rw [List.mem_singleton.mp he]
    exact hnode

theorem IntsFit.find? {entries : Entries} (h : entries.IntsFit) {name : String} {node : Node}
    (hfind : entries.find? name = some node) : node.IntsFit := by
  obtain ⟨e, he, rfl⟩ := Option.map_eq_some_iff.mp hfind
  exact h e (List.mem_of_find?_eq_some he)

theorem IntsFit.alter? {key : Key} {change : Option Node → Option Node}
    (hchange : ∀ node node', (∀ n ∈ node, Node.IntsFit n) → change node = some node' →
      node'.IntsFit) {entries entries' : Entries} (h : entries.IntsFit)
    (halter : entries.alter? key change = some entries') : entries'.IntsFit := by
  induction entries generalizing entries' with
  | nil =>
    obtain ⟨node, hnode, rfl⟩ := Option.map_eq_some_iff.mp halter
    exact List.forall_mem_singleton.mpr (hchange none node nofun hnode)
  | cons e rest ih =>
    obtain ⟨k, node⟩ := e
    obtain ⟨hnode, hrest⟩ := List.forall_mem_cons.mp h
    unfold Entries.alter? at halter
    split at halter
    next =>
      obtain ⟨node', hnode', rfl⟩ := Option.map_eq_some_iff.mp halter
      refine List.forall_mem_cons.mpr ⟨hchange _ _ (fun n hn => ?_) hnode', hrest⟩
      cases hn
      exact hnode
    next =>
      obtain ⟨rest', hrest', rfl⟩ := Option.map_eq_some_iff.mp halter
      exact List.forall_mem_cons.mpr ⟨hnode, ih hrest hrest'⟩

theorem keepsIntsFit_descend? {byDots : Bool} {change : Change} (hchange : change.KeepsIntsFit)
    (path : List Key) : Change.KeepsIntsFit (descend? byDots change path) := by
  induction path with
  | nil => exact hchange
  | cons key path ih =>
    intro origin entries entries' h hdescend
    refine h.alter? (fun node node' hnode hchanged => ?_) hdescend
    cases node with
    | none =>
      obtain ⟨inner, hinner, rfl⟩ := Option.map_eq_some_iff.mp hchanged
      exact Node.intsFit_table.mpr (ih _ _ _ .nil hinner)
    | some node =>
      cases node with
      | table origin inner =>
        dsimp only at hchanged
        split at hchanged
        next =>
          obtain ⟨inner', hinner, rfl⟩ := Option.map_eq_some_iff.mp hchanged
          exact Node.intsFit_table.mpr
            (ih _ _ _ (Node.intsFit_table.mp (hnode _ rfl)) hinner)
        next => cases hchanged
      | tables mark inner before =>
        obtain ⟨inner', hinner, rfl⟩ := Option.map_eq_some_iff.mp hchanged
        obtain ⟨hfit, hbefore⟩ := Node.intsFit_tables.mp (hnode _ rfl)
        exact Node.intsFit_tables.mpr ⟨ih _ _ _ hfit hinner, hbefore⟩
      | scalar => cases hchanged
      | array => cases hchanged

theorem keepsIntsFit_putPair? (path : List Key) (key : Key) {value : Node} (h : value.IntsFit) :
    Change.KeepsIntsFit fun origin entries => putPair? path key value origin entries := by
  refine keepsIntsFit_descend? (fun origin entries entries' hfit hput => ?_) path
  split at hput
  next => cases hput
  next =>
    cases hput
    exact hfit.append h

theorem keepsIntsFit_openTable? (path : List Key) (key : Key) (mark : Mark) :
    Change.KeepsIntsFit (openTable? path key mark) := by
  refine keepsIntsFit_descend? (fun origin entries entries' hfit hopen => ?_) path
  split at hopen
  next =>
    cases hopen
    exact hfit.append (Node.intsFit_table.mpr .nil)
  next hfind =>
    cases hopen
    have hkept : IntsFit (entries.filter (·.1.name ≠ key.name)) := fun e he =>
      hfit e (List.mem_of_mem_filter he)
    exact hkept.append (Node.intsFit_table.mpr (Node.intsFit_table.mp (hfit.find? hfind)))
  next => cases hopen

theorem keepsIntsFit_openElement? (path : List Key) (key : Key) (mark : Mark) :
    Change.KeepsIntsFit (openElement? path key mark) := by
  refine keepsIntsFit_descend? (fun origin entries entries' hfit hopen => ?_) path
  refine hfit.alter? (fun node node' hnode hchanged => ?_) hopen
  split at hchanged
  next =>
    cases hchanged
    exact Node.intsFit_tables.mpr ⟨.nil, nofun⟩
  next last inner before =>
    cases hchanged
    obtain ⟨hinner, hbefore⟩ := Node.intsFit_tables.mp (hnode _ rfl)
    exact Node.intsFit_tables.mpr ⟨.nil, List.forall_mem_cons.mpr ⟨hinner, hbefore⟩⟩
  next => cases hchanged

end Entries

theorem intsFit_of_foldlM_putPair? {mark : Mark} {pairs : List Pair}
    (hpairs : ∀ p ∈ pairs, p.value.IntsFit) {start entries : Entries} (hstart : start.IntsFit)
    (h : pairs.foldlM (fun entries p => entries.putPair? p.path p.key p.value (.inline mark))
      start = some entries) : entries.IntsFit := by
  induction pairs generalizing start with
  | nil =>
    cases h
    exact hstart
  | cons p pairs ih =>
    obtain ⟨hp, hpairs⟩ := List.forall_mem_cons.mp hpairs
    rw [List.foldlM_cons] at h
    obtain ⟨middle, hmiddle, h⟩ := Option.bind_eq_some_iff.mp h
    exact ih hpairs (Entries.keepsIntsFit_putPair? p.path p.key hp _ _ _ hstart hmiddle) h

theorem intsFit_of_inlineEntries? {mark : Mark} {pairs : List Pair}
    (hpairs : ∀ p ∈ pairs, p.value.IntsFit) {entries : Entries}
    (h : inlineEntries? mark pairs = some entries) : entries.IntsFit :=
  intsFit_of_foldlM_putPair? hpairs .nil h

/-! ### Documents -/

theorem readsIntsFit_readValue (size depth : Nat) : ReadsIntsFit (readValue size depth) := by
  induction depth with
  | zero =>
    intro s node left h
    unfold readValue at h
    split at h
    next => cases h
    next => cases h
    next heq => cases heq
    next heq => cases heq
    next =>
      obtain ⟨⟨value, _⟩, hvalue, heq⟩ := exists_of_map_eq_ok h
      cases heq
      exact intsFit_of_readScalar _ hvalue
  | succ depth ih =>
    intro s node left h
    unfold readValue at h
    split at h
    next => cases h
    next => cases h
    next heq =>
      cases heq
      obtain ⟨⟨items, _⟩, hitems, heq⟩ := exists_of_map_eq_ok h
      cases heq
      exact Node.intsFit_array.mpr (intsFit_of_readItems ih hitems)
    next heq =>
      cases heq
      dsimp only at h
      split at h
      next =>
        obtain ⟨⟨pairs, left'⟩, hpairs, h⟩ := exists_of_bind_eq_ok h
        dsimp only at h
        split at h
        next => cases h
        next hentries =>
          obtain ⟨_, -, h⟩ := exists_of_bind_eq_ok h
          cases h
          exact Node.intsFit_table.mpr
            (intsFit_of_inlineEntries? (intsFit_of_readPairs ih hpairs) hentries)
      next =>
        obtain ⟨⟨pairs, left'⟩, hpairs, h⟩ := exists_of_bind_eq_ok h
        cases hpairs
        obtain ⟨_, -, h⟩ := exists_of_bind_eq_ok h
        cases h
        exact Node.intsFit_table.mpr .nil
    next =>
      obtain ⟨⟨value, _⟩, hvalue, heq⟩ := exists_of_map_eq_ok h
      cases heq
      exact intsFit_of_readScalar _ hvalue

def Statement.IntsFit : Statement → Prop
  | pair p => p.value.IntsFit
  | blank | openTable _ _ | openElement _ _ => True

theorem eq_ok_of_orWanted {α : Type} {wanted : Wanted} {r : Except Mark α} {a : α}
    (h : orWanted wanted r = .ok a) : r = .ok a := by
  cases r with
  | error e => cases h
  | ok b => exact congrArg Except.ok (Except.ok.inj h)

theorem intsFit_of_readStatement {size : Nat} {s left : List Char} {statement : Statement}
    (h : readStatement size s = .ok (statement, left)) : statement.IntsFit := by
  unfold readStatement at h
  split at h
  next =>
    obtain ⟨_, -, h⟩ := exists_of_bind_eq_ok h
    obtain ⟨_, -, h⟩ := exists_of_bind_eq_ok h
    obtain ⟨_, -, h⟩ := exists_of_bind_eq_ok h
    obtain ⟨_, -, h⟩ := exists_of_bind_eq_ok h
    cases h
    trivial
  next =>
    obtain ⟨_, -, h⟩ := exists_of_bind_eq_ok h
    obtain ⟨_, -, h⟩ := exists_of_bind_eq_ok h
    obtain ⟨_, -, h⟩ := exists_of_bind_eq_ok h
    cases h
    trivial
  next =>
    have h := eq_ok_of_orWanted h
    split at h
    next =>
      obtain ⟨⟨p, _⟩, hp, h⟩ := exists_of_bind_eq_ok h
      obtain ⟨_, -, h⟩ := exists_of_bind_eq_ok h
      cases h
      exact intsFit_of_readPair (readsIntsFit_readValue size maxNesting) hp
    next =>
      obtain ⟨_, -, h⟩ := exists_of_bind_eq_ok h
      cases h
      trivial

theorem intsFit_of_add? {doc doc' : Document} {mark : Mark} {statement : Statement}
    (hdoc : doc.entries.IntsFit) (hstatement : statement.IntsFit)
    (h : doc.add? mark statement = some doc') : doc'.entries.IntsFit := by
  cases statement with
  | blank =>
    cases h
    exact hdoc
  | openTable path key =>
    obtain ⟨entries, hentries, rfl⟩ := Option.map_eq_some_iff.mp h
    exact Entries.keepsIntsFit_openTable? path key mark _ _ _ hdoc hentries
  | openElement path key =>
    obtain ⟨entries, hentries, rfl⟩ := Option.map_eq_some_iff.mp h
    exact Entries.keepsIntsFit_openElement? path key mark _ _ _ hdoc hentries
  | pair p =>
    obtain ⟨entries, hentries, rfl⟩ := Option.map_eq_some_iff.mp h
    exact Entries.keepsIntsFit_descend? (Entries.keepsIntsFit_putPair? p.path p.key hstatement)
      doc.opened _ _ _ hdoc hentries

theorem intsFit_of_readStatements {size fuel : Nat} {doc doc' : Document} {s : List Char}
    (hdoc : doc.entries.IntsFit) (h : readStatements size fuel doc s = .ok doc') :
    doc'.entries.IntsFit := by
  induction fuel generalizing doc s with
  | zero =>
    unfold readStatements at h
    split at h
    next =>
      cases h
      exact hdoc
    next => cases h
    next heq _ => cases heq
  | succ fuel ih =>
    unfold readStatements at h
    split at h
    next =>
      cases h
      exact hdoc
    next heq _ => cases heq
    next heq _ =>
      cases heq
      obtain ⟨⟨statement, left⟩, hread, h⟩ := exists_of_bind_eq_ok h
      dsimp only at h
      split at h
      next hadd => exact ih (intsFit_of_add? hdoc (intsFit_of_readStatement hread) hadd) h
      next => cases h

/-- Whatever text a document is read from, its integers have 64 bits. -/
theorem intsFit_of_readDocument {text : List Char} {node : Node}
    (h : readDocument text = .ok node) : node.IntsFit := by
  obtain ⟨doc, hread, rfl⟩ := exists_of_map_eq_ok h
  exact Node.intsFit_table.mpr (intsFit_of_readStatements .nil hread)

end Toml

end Ferry
