import Ferry.Disk

/-!
# Files that were written

What is written under a path is found under the same path afterwards. A write
changes nothing on the way: the places that the path goes through are directories
before it and after it, since none of them is the file itself.
-/
namespace Ferry

namespace FileNode

theorem lookup_cons_eq (other key : String) (node : FileNode) (entries : List (String × FileNode)) :
    ((key, node) :: entries).lookup other =
      if other = key then some node else entries.lookup other := by
  rw [List.lookup_cons]
  by_cases h : other = key
  · simp [h]
  · have hbeq : (other == key) = false := by simpa using h
    simp [h, hbeq]

theorem lookup_setEntry (name other : String) (node : FileNode)
    (entries : List (String × FileNode)) :
    (setEntry name node entries).lookup other =
      if other = name then some node else entries.lookup other := by
  induction entries with
  | nil => rw [setEntry, lookup_cons_eq]
  | cons e rest ih =>
    obtain ⟨key, old⟩ := e
    unfold setEntry
    split
    next hkey =>
      subst hkey
      simp only [lookup_cons_eq]
      split <;> rfl
    next hkey =>
      rw [lookup_cons_eq, lookup_cons_eq, ih]
      by_cases h : other = key
      · simp [h, hkey]
      · simp [h]

theorem put_cons {entries : List (String × FileNode)} {name second : String} {place : List String}
    {child : FileNode} (h : entries.lookup name = some child) (new : FileNode) :
    put new (name :: second :: place) (directory entries) =
      directory (setEntry name (put new (second :: place) child) entries) := by
  simp [put, h]

theorem at?_directory_setEntry (name first : String) (node : FileNode) (place : List String)
    (entries : List (String × FileNode)) :
    at? (first :: place) (directory (setEntry name node entries)) =
      if first = name then at? place node else at? (first :: place) (directory entries) := by
  simp only [at?, child?, lookup_setEntry]
  split <;> rfl

theorem at?_put_child {entries : List (String × FileNode)} {name : String} {child : FileNode}
    (h : entries.lookup name = some child) (new : FileNode) (place other : List String) :
    at? (name :: other) (put new (name :: place) (directory entries)) =
      at? other (put new place child) := by
  cases place with
  | nil => simp [put, at?_directory_setEntry]
  | cons second place => rw [put_cons h, at?_directory_setEntry, if_pos rfl]

theorem at?_put_of_ne {first name : String} (h : first ≠ name) (new root : FileNode)
    (place other : List String) :
    at? (first :: other) (put new (name :: place) root) = at? (first :: other) root := by
  cases root with
  | text => rfl
  | binary => rfl
  | directory entries =>
    cases place with
    | nil => rw [put, at?_directory_setEntry, if_neg h]
    | cons second place =>
      cases hname : entries.lookup name with
      | none => simp [put, hname]
      | some child => rw [put_cons hname, at?_directory_setEntry, if_neg h]

theorem at?_append (place place' : List String) (node : FileNode) :
    at? (place ++ place') node = (at? place node).bind (at? place') := by
  induction place generalizing node with
  | nil => rfl
  | cons name place ih =>
    simp only [List.cons_append, at?, Option.bind_assoc]
    congr 1
    funext child
    exact ih child

theorem isDirectory_of_child? {name : String} {node child : FileNode}
    (h : node.child? name = some child) : node.isDirectory = true := by
  cases node with
  | directory => rfl
  | text => cases h
  | binary => cases h

/-- Directories lead to a place, also if nothing stands there. -/
def Leads : (place : List String) → FileNode → Prop
  | [], _ => True
  | [_], node => node.isDirectory = true
  | name :: place, node => ∃ child, node.child? name = some child ∧ Leads place child

theorem leads_append {place : List String} {name : String} {root node : FileNode}
    (h : at? place root = some node) (hdir : node.isDirectory = true) :
    Leads (place ++ [name]) root := by
  induction place generalizing root with
  | nil =>
    cases h
    exact hdir
  | cons first place ih =>
    obtain ⟨child, hchild, hrest⟩ := Option.bind_eq_some_iff.mp h
    have hleads := ih hrest
    cases place with
    | nil => exact ⟨child, hchild, hleads⟩
    | cons second place => exact ⟨child, hchild, hleads⟩

theorem leads_of_at? {place : List String} {root node : FileNode} (h : at? place root = some node) :
    Leads place root := by
  induction place generalizing root with
  | nil => trivial
  | cons name place ih =>
    obtain ⟨child, hchild, hrest⟩ := Option.bind_eq_some_iff.mp h
    cases place with
    | nil => exact isDirectory_of_child? hchild
    | cons second place => exact ⟨child, hchild, ih hrest⟩

theorem at?_put_self {place : List String} {root : FileNode} (h : Leads place root)
    (new : FileNode) : at? place (put new place root) = some new := by
  induction place generalizing root new with
  | nil => rfl
  | cons name place ih =>
    cases root with
    | text => cases place <;> simp [Leads, isDirectory, child?] at h
    | binary => cases place <;> simp [Leads, isDirectory, child?] at h
    | directory entries =>
      cases place with
      | nil => simp [put, at?, child?, lookup_setEntry]
      | cons second place =>
        obtain ⟨child, hchild, hleads⟩ := h
        rw [at?_put_child hchild]
        exact ih hleads new

theorem isDirectory_of_at? {place : List String} {root node : FileNode}
    (h : at? place root = some node) (hdir : node.isDirectory = true) :
    root.isDirectory = true := by
  cases place with
  | nil =>
    cases h
    exact hdir
  | cons name place =>
    obtain ⟨child, hchild, _⟩ := Option.bind_eq_some_iff.mp h
    exact isDirectory_of_child? hchild

theorem isDirectory_put (new : FileNode) (name : String) (place : List String)
    (entries : List (String × FileNode)) :
    (put new (name :: place) (directory entries)).isDirectory = true := by
  cases place with
  | nil => rfl
  | cons second place =>
    cases h : entries.lookup name with
    | none => simp [put, h, isDirectory]
    | some child =>
      rw [put_cons h]
      rfl

/-- A put at a place where no directory stands leaves the directories. -/
theorem at?_put_directory {place other : List String} {root node : FileNode}
    (hplace : ∀ n, at? place root = some n → n.isDirectory = false)
    (h : at? other root = some node) (hdir : node.isDirectory = true) (new : FileNode) :
    ∃ node', at? other (put new place root) = some node' ∧ node'.isDirectory = true := by
  induction place generalizing root other with
  | nil =>
    have hroot := isDirectory_of_at? h hdir
    rw [hplace root rfl] at hroot
    cases hroot
  | cons name place ih =>
    cases root with
    | text => exact ⟨node, h, hdir⟩
    | binary => exact ⟨node, h, hdir⟩
    | directory entries =>
      cases other with
      | nil => exact ⟨_, rfl, isDirectory_put new name place entries⟩
      | cons first other =>
        obtain ⟨child, hchild, hrest⟩ := Option.bind_eq_some_iff.mp h
        have hlookup : entries.lookup first = some child := hchild
        by_cases hfirst : first = name
        · subst hfirst
          have hbelow : ∀ n, at? place child = some n → n.isDirectory = false := by
            intro n hn
            apply hplace
            simpa [at?, hchild] using hn
          rw [at?_put_child hlookup]
          exact ih hbelow hrest
        · rw [at?_put_of_ne hfirst]
          exact ⟨node, h, hdir⟩

end FileNode

namespace Disk

open FileNode

theorem at?_reverse_cons (root node : FileNode) {back : List String} (part : String)
    (h : root.at? back.reverse = some node) :
    root.at? (part :: back).reverse = node.child? part := by
  rw [List.reverse_cons, at?_append, h]
  simp [at?]

/-- A path leads to a place of the disk, and directories lead to that place. -/
theorem walk_ok {disk : Disk} {back : List String} {rest : List String} {location : Location}
    (hleads : disk.root.Leads back.reverse)
    (h : disk.walk back (disk.root.at? back.reverse) rest = .ok location) :
    location.node = disk.root.at? location.place ∧ disk.root.Leads location.place := by
  induction rest generalizing back with
  | nil =>
    rw [walk] at h
    cases h
    exact ⟨rfl, hleads⟩
  | cons part rest ih =>
    cases hnode : disk.root.at? back.reverse with
    | none => simp [walk, hnode] at h
    | some node =>
      rw [hnode, walk] at h
      split at h
      · cases h
      · rename_i hdir
        split at h
        · rw [← hnode] at h
          exact ih hleads h
        · split at h
          · have hup : disk.root.Leads back.tail.reverse := by
              cases back with
              | nil => trivial
              | cons last back =>
                rw [List.reverse_cons, at?_append, Option.bind_eq_some_iff] at hnode
                obtain ⟨above, habove, _⟩ := hnode
                exact leads_of_at? habove
            exact ih hup h
          · split at h
            · cases h
            · rw [← at?_reverse_cons _ _ part hnode] at h
              refine ih ?_ h
              rw [List.reverse_cons]
              exact leads_append hnode (by simpa using hdir)

theorem walk_put {disk : Disk} {back : List String} {rest : List String} {location : Location}
    (h : disk.walk back (disk.root.at? back.reverse) rest = .ok location)
    (hplace : ∀ n, disk.root.at? location.place = some n → n.isDirectory = false)
    (new : FileNode) :
    (disk.put location.place new).walk back
        ((disk.put location.place new).root.at? back.reverse) rest =
      .ok ⟨location.place, (disk.put location.place new).root.at? location.place⟩ := by
  induction rest generalizing back with
  | nil =>
    rw [walk] at h
    cases h
    rfl
  | cons part rest ih =>
    cases hnode : disk.root.at? back.reverse with
    | none => simp [walk, hnode] at h
    | some node =>
      rw [hnode, walk] at h
      split at h
      · cases h
      · rename_i hdir
        -- What stands on the way may hold another entry now, but is a directory still.
        obtain ⟨node', hnode', hdir'⟩ :=
          at?_put_directory hplace hnode (by simpa using hdir) new
        have hput : (disk.put location.place new).root.at? back.reverse = some node' := hnode'
        rw [hput, walk]
        simp only [hdir', Bool.not_true, Bool.false_eq_true, if_false]
        split at h
        next hdot =>
          rw [if_pos hdot, ← hput]
          rw [← hnode] at h
          exact ih h
        next hdot =>
          rw [if_neg hdot]
          split at h
          next hdots =>
            rw [if_pos hdots]
            exact ih h
          next hdots =>
            rw [if_neg hdots]
            split at h
            next => cases h
            next hlong =>
              rw [if_neg hlong, ← at?_reverse_cons _ _ part hput]
              rw [← at?_reverse_cons _ _ part hnode] at h
              exact ih h

theorem locate_write {disk disk' : Disk} {path : String} {file : FileNode}
    (h : disk.write path file = .ok disk') :
    ∃ place, disk'.locate path = .ok ⟨place, some file⟩ := by
  unfold write at h
  dsimp only at h
  split at h
  · split at h <;> cases h
  · cases hlocate : disk.locate path with
    | error e => simp [hlocate] at h
    | ok location =>
      rw [hlocate] at h
      simp only at h
      split at h
      · cases h
      · rename_i hfile
        cases h
        unfold locate at hlocate ⊢
        split at hlocate
        next => cases hlocate
        next hpath =>
          have hstart : disk.root.Leads ([] : List String).reverse := trivial
          obtain ⟨hnode, hleads⟩ := walk_ok hstart hlocate
          have hplace : ∀ n, disk.root.at? location.place = some n → n.isDirectory = false := by
            intro n hn
            rw [hnode, hn] at hfile
            simpa using hfile
          rw [if_neg hpath]
          refine ⟨location.place, ?_⟩
          rw [← at?_put_self hleads file]
          exact @walk_put disk [] _ _ hlocate hplace file

theorem read_write {disk disk' : Disk} {path content : String}
    (h : disk.write path (.text content) = .ok disk') : disk'.read path = .ok content := by
  obtain ⟨place, hlocate⟩ := locate_write h
  unfold read
  rw [hlocate]
  rfl

theorem exists?_write {disk disk' : Disk} {path : String} {file : FileNode}
    (h : disk.write path file = .ok disk') : disk'.exists? path = true := by
  obtain ⟨place, hlocate⟩ := locate_write h
  unfold exists?
  rw [hlocate]
  rfl

end Disk

end Ferry
