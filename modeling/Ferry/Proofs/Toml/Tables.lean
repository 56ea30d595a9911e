import Ferry.Toml.Reader

/-!
# Changes of tables

A statement of a document changes the table at the end of a path. Two changes at
one path are one change, and a change below a table that has just been put at the
end of another one is a change of what was put. So a table that is filled by many
statements has been put in with all its entries by one.
-/
namespace Ferry.Toml

namespace Entries

/-- A change of the entries of a table, which may be refused. -/
abbrev Change := Origin → Entries → Option Entries

def Change.next (f g : Change) : Change := fun origin entries => (f origin entries).bind (g origin)

/-- What one change does, the other one does as well. -/
def Change.Within (f g : Change) : Prop :=
  ∀ origin entries entries', f origin entries = some entries' → g origin entries = some entries'

def names (entries : Entries) : List String := entries.map fun e => e.1.name

@[simp]
theorem names_nil : names [] = [] := rfl

@[simp]
theorem names_append (entries entries' : Entries) :
    names (entries ++ entries') = entries.names ++ entries'.names := List.map_append

@[simp]
theorem names_cons (e : Key × Node) (entries : Entries) :
    names (e :: entries) = e.1.name :: entries.names := rfl

theorem find?_eq_none_iff {name : String} {entries : Entries} :
    entries.find? name = none ↔ name ∉ entries.names := by
  unfold find? names
  simp only [Option.map_eq_none_iff, List.find?_eq_none, decide_eq_true_eq, List.mem_map,
    not_exists, not_and]

/-! ### The entry of a key -/

section Alter

variable {key key' : Key} {entries : Entries} {change change' : Option Node → Option Node}

theorem alter?_of_not_mem (h : key.name ∉ entries.names) :
    entries.alter? key change = (change none).map fun node => entries ++ [(key, node)] := by
  induction entries with
  | nil => rfl
  | cons e rest ih =>
    obtain ⟨k, node⟩ := e
    rw [names_cons, List.mem_cons, not_or] at h
    have hne : k.name ≠ key.name := fun heq => h.1 heq.symm
    rw [alter?, if_neg hne, ih h.2, Option.map_map]
    rfl

theorem alter?_append_last {node : Node} (h : key.name ∉ entries.names)
    (hkey : key.name = key'.name) :
    alter? key' change (entries ++ [(key, node)]) =
      (change (some node)).map fun node => entries ++ [(key, node)] := by
  induction entries with
  | nil => simp [alter?, hkey]
  | cons e rest ih =>
    obtain ⟨k, node'⟩ := e
    rw [names_cons, List.mem_cons, not_or] at h
    have hne : k.name ≠ key'.name := fun heq => h.1 (hkey.trans heq.symm)
    rw [List.cons_append, alter?, if_neg hne, ih h.2, Option.map_map]
    rfl

/-- Two changes of one entry. The first one makes it, if it is missing. -/
theorem alter?_alter? (hkey : key.name = key'.name) (change change' : Option Node → Option Node)
    (entries : Entries) :
    (entries.alter? key change).bind (alter? key' change') =
      entries.alter? key fun node => (change node).bind fun node => change' (some node) := by
  induction entries with
  | nil => cases h : change none <;> simp [alter?, h, hkey]
  | cons e rest ih =>
    obtain ⟨k, node⟩ := e
    by_cases hk : k.name = key.name
    · cases h : change (some node) <;> simp [alter?, hk, hkey, h]
    · have hk' : k.name ≠ key'.name := fun heq => hk (heq.trans hkey.symm)
      rw [alter?, if_neg hk, alter?, if_neg hk, ← ih]
      cases alter? key change rest <;> simp [alter?, hk']

theorem alter?_mono (h : ∀ node node', change node = some node' → change' node = some node')
    {entries' : Entries} (halter : entries.alter? key change = some entries') :
    entries.alter? key change' = some entries' := by
  induction entries generalizing entries' with
  | nil =>
    obtain ⟨node, hnode, rfl⟩ := Option.map_eq_some_iff.mp halter
    rw [alter?, h none node hnode]
    rfl
  | cons e rest ih =>
    obtain ⟨k, node⟩ := e
    unfold alter? at halter ⊢
    split at halter
    next hk =>
      obtain ⟨node', hnode, rfl⟩ := Option.map_eq_some_iff.mp halter
      rw [if_pos hk, h _ _ hnode]
      rfl
    next hk =>
      obtain ⟨rest', hrest, rfl⟩ := Option.map_eq_some_iff.mp halter
      rw [if_neg hk, ih hrest]
      rfl

end Alter

/-! ### The table at the end of a path -/

section Descend

variable {f g : Change} {path path' : List Key}

theorem descend?_append (byDots : Bool) (f : Change) (path path' : List Key) (origin : Origin)
    (entries : Entries) :
    descend? byDots f (path ++ path') origin entries =
      descend? byDots (descend? byDots f path') path origin entries := by
  induction path generalizing origin entries with
  | nil => rfl
  | cons key path ih =>
    rw [List.cons_append, descend?, descend?]
    congr 1
    funext node
    cases node with
    | none => simp only [ih]
    | some node => cases node <;> simp only [ih]

/-- Two changes at one path. The keys of the second path only have to have the same names. -/
theorem descend?_next (f g : Change) (hpath : path.map Key.name = path'.map Key.name)
    (origin : Origin) (entries : Entries) :
    (descend? false f path origin entries).bind (descend? false g path' origin) =
      descend? false (f.next g) path origin entries := by
  induction path generalizing path' origin entries with
  | nil =>
    obtain rfl := List.map_eq_nil_iff.mp hpath.symm
    rfl
  | cons key path ih =>
    cases path' with
    | nil => cases hpath
    | cons key' path' =>
      rw [List.map_cons, List.map_cons, List.cons.injEq] at hpath
      have hsecond : descend? false g (key' :: path') origin = alter? key' _ := funext fun _ => rfl
      rw [descend?, descend?, hsecond, alter?_alter? hpath.1]
      congr 1
      funext node
      cases node with
      | none =>
        simp only [Bool.false_eq_true, ↓reduceIte]
        rw [← ih hpath.2]
        cases descend? false f path .implied [] <;> rfl
      | some node =>
        cases node with
        | table origin inner =>
          dsimp only
          by_cases hleads : origin.leads false = true
          · rw [if_pos hleads, if_pos hleads, ← ih hpath.2]
            cases descend? false f path origin inner <;> simp [hleads]
          · rw [if_neg hleads, if_neg hleads]
            rfl
        | tables mark inner before =>
          dsimp only
          rw [← ih hpath.2]
          cases descend? false f path (.header mark) inner <;> rfl
        | scalar => rfl
        | array => rfl

theorem descend?_mono (h : f.Within g) {origin : Origin} {entries entries' : Entries}
    (hf : descend? false f path origin entries = some entries') :
    descend? false g path origin entries = some entries' := by
  induction path generalizing origin entries entries' with
  | nil => exact h _ _ _ hf
  | cons key path ih =>
    refine alter?_mono (fun node node' hnode => ?_) hf
    cases node with
    | none =>
      obtain ⟨inner, hinner, rfl⟩ := Option.map_eq_some_iff.mp hnode
      exact congrArg (Option.map _) (ih hinner)
    | some node =>
      cases node with
      | table origin inner =>
        dsimp only at hnode ⊢
        split at hnode
        next hleads =>
          obtain ⟨inner', hinner, rfl⟩ := Option.map_eq_some_iff.mp hnode
          rw [if_pos hleads]
          exact congrArg (Option.map _) (ih hinner)
        next => cases hnode
      | tables mark inner before =>
        obtain ⟨inner', hinner, rfl⟩ := Option.map_eq_some_iff.mp hnode
        exact congrArg (Option.map _) (ih hinner)
      | scalar => cases hnode
      | array => cases hnode

end Descend

/-! ### Putting entries in -/

/-- Puts an entry at the end of a table that has no other of its name. -/
def put (key : Key) (node : Node) : Change := fun origin entries =>
  entries.putPair? [] key node origin

theorem put_eq (key : Key) (node : Node) (origin : Origin) (entries : Entries) :
    put key node origin entries =
      if origin.isDotted = true ∨ key.name ∈ entries.names then none
      else some (entries ++ [(key, node)]) := by
  have hfind : (entries.find? key.name).isSome ↔ key.name ∈ entries.names := by
    rw [Option.isSome_iff_ne_none, ne_eq, find?_eq_none_iff, Decidable.not_not]
  simp only [put, putPair?, descend?, List.isEmpty_nil, hfind]

theorem put_of_not_mem {key : Key} {node : Node} {origin : Origin} {entries : Entries}
    (horigin : origin.isDotted = false) (h : key.name ∉ entries.names) :
    put key node origin entries = some (entries ++ [(key, node)]) := by
  rw [put_eq, if_neg (by simp [horigin, h])]

theorem put_within {key : Key} {node : Node} {f : Change}
    (h : ∀ origin entries, key.name ∉ entries.names →
      f origin entries = some (entries ++ [(key, node)])) : (put key node).Within f := by
  intro origin entries entries' hput
  rw [put_eq] at hput
  split at hput
  next => cases hput
  next hkept =>
    rw [not_or] at hkept
    rw [h origin entries hkept.2, hput]

def putAt? (origin : Origin) (entries : Entries) (p : Pair) : Option Entries :=
  descend? false (put p.key p.value) p.path origin entries

def putAll? (origin : Origin) (pairs : List Pair) (entries : Entries) : Option Entries :=
  pairs.foldlM (putAt? origin) entries

end Entries

def Pair.entry (p : Pair) : Key × Node := (p.key, p.value)

namespace Entries

theorem foldlM_put {step : Entries → Pair → Option Entries} {pairs : List Pair}
    (hstep : ∀ p ∈ pairs, ∀ entries, p.key.name ∉ entries.names →
      step entries p = some (entries ++ [p.entry]))
    {entries : Entries} (hnames : (names (entries ++ pairs.map Pair.entry)).Nodup) :
    pairs.foldlM step entries = some (entries ++ pairs.map Pair.entry) := by
  induction pairs generalizing entries with
  | nil => simp
  | cons p pairs ih =>
    have hfresh : p.key.name ∉ entries.names := by
      rw [List.map_cons, names_append, names_cons, List.nodup_append] at hnames
      exact fun hmem => hnames.2.2 _ hmem _ List.mem_cons_self rfl
    have hnames' : (names ((entries ++ [p.entry]) ++ pairs.map Pair.entry)).Nodup := by
      simpa using hnames
    rw [List.foldlM_cons, hstep p List.mem_cons_self entries hfresh, Option.bind_eq_bind,
      Option.bind_some, ih (fun p hp => hstep p (List.mem_cons_of_mem _ hp)) hnames']
    simp

/-- A change that makes a table under a key with given entries. -/
structure Makes (key : Key) (make : Entries → Change) : Prop where
  /-- An entry that is put into the table after it has been made could have been made with it. -/
  put_next : ∀ {entries : Entries} {e : Key × Node} {key' : Key}, key.name = key'.name →
    e.1.name ∉ entries.names →
    (make entries).next (descend? false (put e.1 e.2) [key']) = make (entries ++ [e])

/-- Whatever is put into a table after it has been made could have been made with it. -/
theorem Makes.putAll {key : Key} {make : Entries → Change} (hmake : Makes key make)
    {path : List Key} {pairs : List Pair}
    (hpath : ∀ p ∈ pairs, p.path.map Key.name = path.map Key.name ++ [key.name])
    {inner : Entries} (hnames : (names (inner ++ pairs.map Pair.entry)).Nodup) (origin : Origin)
    (entries : Entries) :
    (descend? false (make inner) path origin entries).bind (putAll? origin pairs) =
      descend? false (make (inner ++ pairs.map Pair.entry)) path origin entries := by
  induction pairs generalizing inner with
  | nil =>
    rw [List.map_nil, List.append_nil]
    cases descend? false (make inner) path origin entries <;> rfl
  | cons p pairs ih =>
    obtain ⟨path', back, hp, hpath', hback⟩ :=
      List.map_eq_append_iff.mp (hpath p List.mem_cons_self)
    obtain ⟨key', rfl, hkey'⟩ := List.map_eq_singleton_iff.mp hback
    have hfresh : p.entry.1.name ∉ inner.names := by
      rw [List.map_cons, names_append, names_cons, List.nodup_append] at hnames
      exact fun hmem => hnames.2.2 _ hmem _ List.mem_cons_self rfl
    have hput : (descend? false (make inner) path origin entries).bind
        (fun entries => putAt? origin entries p) =
          descend? false (make (inner ++ [p.entry])) path origin entries := by
      have hchange : (fun entries => putAt? origin entries p) =
          descend? false (descend? false (put p.key p.value) [key']) path' origin := by
        funext entries
        rw [putAt?, hp, descend?_append]
      rw [hchange, descend?_next _ _ hpath'.symm]
      have hmade := hmake.put_next hkey'.symm hfresh
      exact congrArg (descend? false · path origin entries) hmade
    have hnames' : (names ((inner ++ [p.entry]) ++ pairs.map Pair.entry)).Nodup := by
      simpa using hnames
    have hrest := ih (fun p hp => hpath p (List.mem_cons_of_mem _ hp)) hnames'
    rw [List.append_assoc, List.singleton_append] at hrest
    rw [List.map_cons, ← hrest, ← hput, Option.bind_assoc]
    rfl

theorem makes_put_table (key : Key) (origin : Origin) (hleads : origin.leads false = true)
    (hdotted : origin.isDotted = false) : Makes key fun inner => put key (.table origin inner) := by
  constructor
  intro inner e key' hkey hfresh
  funext outer entries
  rw [Change.next, put_eq, put_eq]
  split
  next => rfl
  next hkept =>
    rw [not_or] at hkept
    rw [Option.bind_some, descend?, alter?_append_last hkept.2 hkey]
    dsimp only
    rw [if_pos hleads, descend?, put_of_not_mem hdotted hfresh]
    rfl

/-! ### Arrays of tables -/

def push (key : Key) (mark : Mark) (inner : Entries) : Change := fun _ entries =>
  entries.alter? key fun
    | none => some (.tables mark inner [])
    | some (.tables last inner' before) => some (.tables mark inner ((last, inner') :: before))
    | some _ => none

theorem makes_push (key : Key) (mark : Mark) : Makes key (push key mark) := by
  constructor
  intro inner e key' hkey hfresh
  have hput : put e.1 e.2 (.header mark) inner = some (inner ++ [e]) := put_of_not_mem rfl hfresh
  funext outer entries
  have hsecond : descend? false (put e.1 e.2) [key'] outer = alter? key' _ := funext fun _ => rfl
  rw [Change.next, push, push, hsecond, alter?_alter? hkey]
  congr 1
  funext node
  cases node with
  | none => simp [descend?, hput]
  | some node => cases node <;> simp [descend?, hput]

theorem put_next_push {key key' : Key} (hkey : key.name = key'.name) (last mark : Mark)
    (inner inner' : Entries) (before : List (Mark × Entries)) :
    Change.next (put key (.tables last inner before)) (push key' mark inner') =
      put key (.tables mark inner' ((last, inner) :: before)) := by
  funext outer entries
  rw [Change.next, put_eq, put_eq]
  split
  next => rfl
  next hkept =>
    rw [not_or] at hkept
    rw [Option.bind_some, push, alter?_append_last hkept.2 hkey]
    rfl

structure Element where
  path : List Key
  key : Key
  mark : Mark
  entries : Entries

def pushAt? (origin : Origin) (entries : Entries) (e : Element) : Option Entries :=
  descend? false (push e.key e.mark e.entries) e.path origin entries

def withElements (last : Mark) (inner : Entries) (before : List (Mark × Entries)) :
    List Element → Node
  | [] => .tables last inner before
  | e :: elements => withElements e.mark e.entries ((last, inner) :: before) elements

/-- Whatever tables are opened after the first one could have been put in with it. -/
theorem put_pushAll {key : Key} {path : List Key} {elements : List Element}
    (hpath : ∀ e ∈ elements, e.path.map Key.name = path.map Key.name ∧ e.key.name = key.name)
    (last : Mark) (inner : Entries) (before : List (Mark × Entries)) (origin : Origin)
    (entries : Entries) :
    (descend? false (put key (.tables last inner before)) path origin entries).bind
        (fun entries => elements.foldlM (pushAt? origin) entries) =
      descend? false (put key (withElements last inner before elements)) path origin entries := by
  induction elements generalizing last inner before with
  | nil => simp [withElements]
  | cons e elements ih =>
    obtain ⟨hepath, hekey⟩ := hpath e List.mem_cons_self
    have hpush : (descend? false (put key (.tables last inner before)) path origin entries).bind
        (fun entries => pushAt? origin entries e) =
          descend? false (put key (.tables e.mark e.entries ((last, inner) :: before))) path origin
            entries := by
      have hchange : (fun entries => pushAt? origin entries e) =
        descend? false (push e.key e.mark e.entries) e.path origin := rfl
      rw [hchange, descend?_next _ _ hepath.symm]
      exact congrArg (descend? false · path origin entries) (put_next_push hekey.symm _ _ _ _ _)
    rw [withElements, ← ih fun e he => hpath e (List.mem_cons_of_mem _ he), ← hpush,
      Option.bind_assoc]
    rfl

end Entries

end Ferry.Toml
