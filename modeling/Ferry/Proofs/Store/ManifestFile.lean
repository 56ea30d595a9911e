import Ferry.Proofs.Disk
import Ferry.Proofs.Store.Growth
import Ferry.Store.ManifestFile

/-!
# The store in a file

What the store does to the world: a call that only reads leaves it as it is, and
a create that succeeds leaves a file with the text of the manifest that is longer
by the new object. Whether that text can be read back is a matter of the manifest.
-/
namespace Ferry

namespace Manifest

def extend (m : Manifest) (objects : List Deployable) : Manifest :=
  { m with deployables := m.deployables ++ objects }

@[simp]
theorem extend_nil (m : Manifest) : m.extend [] = m := by simp [extend]

@[simp]
theorem extend_extend (m : Manifest) (objects objects' : List Deployable) :
    (m.extend objects).extend objects' = m.extend (objects ++ objects') := by
  simp [extend]

def without (m : Manifest) (key : ObjectKey) : Manifest :=
  { m with deployables := m.deployables.filter (·.key ≠ key) }

/-- The text of this manifest is read as this manifest. -/
def ReadsBack (m : Manifest) : Prop := ∀ text, m.toToml = .ok text → parse text = .ok m

/-- It is enough to read the characters that are written, without the text that they make. -/
theorem readsBack_of_decoded {m : Manifest}
    (h : ((Toml.readDocument (Toml.writeDocument m.fields)).toOption.bind fun node =>
      (schema.decode .toml (.ofNode node)).toOption) = some m)
    (hvalid : m.validate.toOption = some ()) : m.ReadsBack := by
  intro text htext
  have hchars : text.toList = Toml.writeDocument m.fields := by
    unfold toToml Toml.render at htext
    split at htext
    · cases htext
    · cases htext
      exact String.toList_ofList
  obtain ⟨node, hread, hdecode⟩ := Option.bind_eq_some_iff.mp h
  unfold parse Toml.decodeText
  rw [hchars, eq_ok_of_toOption hread]
  dsimp only
  rw [eq_ok_of_toOption hdecode]
  dsimp only
  rw [eq_ok_of_toOption hvalid]
  rfl

def isTaken (m : Manifest) (key : ObjectKey) : Bool := (m.deployable? key).isSome

end Manifest

namespace World

def withDisk (w : World) (disk : Disk) : World := { w with disk }

@[simp]
theorem disk_withDisk (w : World) (disk : Disk) : (w.withDisk disk).disk = disk := rfl

@[simp]
theorem supply_withDisk (w : World) (disk : Disk) : (w.withDisk disk).supply = w.supply := rfl

@[simp]
theorem drawn_withDisk (w : World) (disk : Disk) : (w.withDisk disk).drawn = w.drawn := rfl

@[simp]
theorem resolve_withDisk (w : World) (disk : Disk) (path : String) :
    (w.withDisk disk).resolve path = w.resolve path := rfl

@[simp]
theorem withDisk_withDisk (w : World) (disk disk' : Disk) :
    (w.withDisk disk).withDisk disk' = w.withDisk disk' := rfl

def afterDraw (w : World) : World := { w with drawn := w.drawn + 1 }

@[simp]
theorem withDisk_self (w : World) : w.withDisk w.disk = w := rfl

def manifest (w : World) (path : String) : Except StoreError Manifest :=
  match w.resolve path with
  | .error _ => .ok .empty
  | .ok full =>
    if w.disk.exists? full then
      match w.disk.read full with
      | .error e => .error (.file path e)
      | .ok text => Manifest.parse text
    else .ok .empty

theorem run_pathExists (path : String) (w : World) :
    StateT.run (Host.pathExists path : StateM World Bool) w =
      (match w.resolve path with
        | .ok full => w.disk.exists? full
        | .error _ => false, w) := by
  change StateT.run (match w.resolve path with
    | .ok path => pure (w.disk.exists? path)
    | .error _ => pure false : StateM World Bool) w = _
  cases w.resolve path <;> rfl

theorem run_readText (path : String) (w : World) :
    StateT.run (Host.readText path : StateM World _) w = (w.resolve path >>= w.disk.read, w) := rfl

theorem run_change (f : World → Except FileError Disk) (w : World) :
    StateT.run (change f) w =
      match f w with
      | .ok disk => (.ok (), w.withDisk disk)
      | .error e => (.error e, w) := by
  change StateT.run (match f w with
    | .ok disk => do
      set { w with disk }
      return Except.ok ()
    | .error e => pure (Except.error e) : StateM World (Except FileError Unit)) w = _
  cases f w <;> rfl

theorem run_makeDirectories (path : String) (w : World) :
    StateT.run (Host.makeDirectories path : StateM World _) w =
      match w.resolve path >>= w.disk.makeDirectories with
      | .ok disk => (.ok (), w.withDisk disk)
      | .error e => (.error e, w) :=
  run_change _ w

theorem run_writeText (path text : String) (w : World) :
    StateT.run (Host.writeText path text : StateM World _) w =
      match w.resolve path >>= fun full => w.disk.write full (.text text) with
      | .ok disk => (.ok (), w.withDisk disk)
      | .error e => (.error e, w) :=
  run_change _ w

end World

namespace ManifestFile

theorem runFrom_liftStore {α : Type} (r : Except StoreError α) (w : World) :
    runFrom (liftStore (m := StateM World) r) w = (r, w) := rfl

theorem runFrom_liftFile {α : Type} (path : String) (x : StateM World (Except FileError α))
    (w : World) :
    runFrom (liftFile path x) w =
      ((StateT.run x w).1.mapError (.file path), (StateT.run x w).2) := rfl

theorem liftFile_ok {path : String} {x : StateM World (Except FileError Unit)} {w w' : World}
    {changed : Except FileError Disk}
    (hx : StateT.run x w =
      match changed with
      | .ok disk => (.ok (), w.withDisk disk)
      | .error e => (.error e, w))
    (h : runFrom (liftFile path x) w = (.ok (), w')) :
    ∃ disk, changed = .ok disk ∧ w' = w.withDisk disk := by
  rw [runFrom_liftFile, hx] at h
  cases changed with
  | error e =>
    change (Except.error (StoreError.file path e), w) = (Except.ok (), w') at h
    cases h
  | ok disk =>
    change (Except.ok (), w.withDisk disk) = (Except.ok (), w') at h
    cases h
    exact ⟨disk, rfl, rfl⟩

theorem runFrom_load (path : String) (w : World) :
    runFrom (load path) w = (w.manifest path, w) := by
  unfold load World.manifest
  rw [runFrom_bind_ok (runFrom_lift _ w), World.run_pathExists]
  cases hfull : w.resolve path with
  | error e => simp
  | ok full =>
    dsimp only
    by_cases hex : w.disk.exists? full = true
    · rw [if_pos hex, if_pos hex, runFrom_bind, runFrom_liftFile, World.run_readText, hfull]
      dsimp only [bind, Except.bind]
      cases w.disk.read full <;> rfl
    · rw [if_neg hex, if_neg hex]
      rfl

theorem runFrom_read {α : Type} (path : String) (f : Manifest → α) (w : World) :
    runFrom (load path >>= fun m => pure (f m)) w = ((w.manifest path).map f, w) := by
  rw [runFrom_bind, runFrom_load]
  cases w.manifest path <;> rfl

theorem runFrom_list (path : String) (space : Option String) (w : World) :
    runFrom ((store path).list space) w =
      ((w.manifest path).map fun m => inSpace space m.deployables, w) :=
  runFrom_read path _ w

theorem save_ok {path : String} {m : Manifest} {w w' : World}
    (h : runFrom (save path m) w = (.ok (), w')) :
    ∃ text disk, m.toToml = .ok text ∧ w' = w.withDisk disk ∧
      w'.manifest path = Manifest.parse text := by
  unfold save at h
  obtain ⟨text, t, htext, h⟩ := runFrom_bind_eq_ok h
  rw [runFrom_liftStore, Prod.mk.injEq] at htext
  obtain ⟨htext, rfl⟩ := htext
  have hmade : ∃ disk,
      runFrom (liftFile path (Host.writeText path text)) (w.withDisk disk) = (.ok (), w') := by
    split at h
    · rename_i dir hdir
      split at h
      · obtain ⟨_, t, hmake, hwrite⟩ := runFrom_bind_eq_ok h
        obtain ⟨disk, _, rfl⟩ := liftFile_ok (World.run_makeDirectories dir w) hmake
        exact ⟨disk, hwrite⟩
      · exact ⟨w.disk, h⟩
    · exact ⟨w.disk, h⟩
  obtain ⟨disk, hwrite⟩ := hmade
  obtain ⟨disk', hwritten, rfl⟩ := liftFile_ok (World.run_writeText path text _) hwrite
  rw [World.resolve_withDisk, World.disk_withDisk] at hwritten
  refine ⟨text, disk', htext, by simp, ?_⟩
  unfold World.manifest
  cases hfull : w.resolve path with
  | error e =>
    rw [hfull] at hwritten
    cases hwritten
  | ok full =>
    rw [hfull] at hwritten
    simp only [bind, Except.bind] at hwritten
    simp [hfull, Disk.exists?_write hwritten, Disk.read_write hwritten]

theorem create_ok {path : String} {d p : Deployable} {w w' : World}
    (h : runFrom ((store path).create d) w = (.ok p, w')) :
    ∃ m text, w.manifest path = .ok m ∧
      prepareForCreate (w.supply w.drawn) m.isTaken d = .ok p ∧
      (m.extend [p]).toToml = .ok text ∧ w'.manifest path = Manifest.parse text ∧
      w'.supply = w.supply ∧ w'.drawn = w.drawn + 1 := by
  change runFrom (create path d) w = (.ok p, w') at h
  unfold create at h
  obtain ⟨m, t, hload, h⟩ := runFrom_bind_eq_ok h
  rw [runFrom_load, Prod.mk.injEq] at hload
  obtain ⟨hload, rfl⟩ := hload
  rw [runFrom_bind_ok (runFrom_lift _ w)] at h
  obtain ⟨created, t, hprepare, h⟩ := runFrom_bind_eq_ok h
  rw [runFrom_liftStore, Prod.mk.injEq] at hprepare
  obtain ⟨hprepare, rfl⟩ := hprepare
  obtain ⟨_, t, hsave, h⟩ := runFrom_bind_eq_ok h
  rw [runFrom_pure, Prod.mk.injEq, Except.ok.injEq] at h
  obtain ⟨rfl, rfl⟩ := h
  obtain ⟨text, disk, htext, rfl, hread⟩ := save_ok hsave
  exact ⟨m, text, hload, hprepare, htext, hread, rfl, rfl⟩

theorem runFrom_get (path : String) (key : ObjectKey) (w : World) :
    runFrom ((store path).get key) w =
      ((w.manifest path).map fun m => m.deployable? key, w) :=
  runFrom_read path _ w

theorem runFrom_channel (path : String) (key : ObjectKey) (w : World) :
    runFrom (channel path key) w = ((w.manifest path).map fun m => m.channel? key, w) :=
  runFrom_read path _ w

theorem runFrom_channels (path : String) (w : World) :
    runFrom (channels path) w = ((w.manifest path).map Manifest.channels, w) :=
  runFrom_read path _ w

/-- A create draws once, completes the object and saves the manifest with it. -/
theorem runFrom_create {path : String} {w : World} {m : Manifest} (hload : w.manifest path = .ok m)
    (d : Deployable) :
    runFrom ((store path).create d) w =
      match prepareForCreate (w.supply w.drawn) m.isTaken d with
      | .error e => (.error e, w.afterDraw)
      | .ok p => (runFrom (save path (m.extend [p])) w.afterDraw).map (·.map fun _ => p) id := by
  change runFrom (create path d) w = _
  unfold create
  rw [runFrom_bind_ok (a := m) (by rw [runFrom_load, hload]), runFrom_bind_ok (runFrom_lift _ w)]
  change runFrom _ w.afterDraw = _
  rw [runFrom_bind, runFrom_liftStore]
  have hprepare : prepareForCreate (StateT.run (Host.draw : StateM World Allocation) w).1
      (fun key => (m.deployable? key).isSome) d =
    prepareForCreate (w.supply w.drawn) m.isTaken d := rfl
  rw [hprepare]
  cases prepareForCreate (w.supply w.drawn) m.isTaken d with
  | error e => rfl
  | ok p =>
    change runFrom (save path (m.extend [p]) >>= fun _ => pure p) w.afterDraw = _
    dsimp only
    rw [runFrom_bind]
    rcases runFrom (save path (m.extend [p])) w.afterDraw with ⟨_ | _, t⟩ <;> rfl

theorem runFrom_delete {path : String} {w : World} {m : Manifest} (hload : w.manifest path = .ok m)
    (key : ObjectKey) :
    runFrom ((store path).delete key) w =
      if m.isTaken key then runFrom (save path (m.without key)) w
      else (.error (.notFound key), w) := by
  change runFrom (delete path key) w = _
  unfold delete
  rw [runFrom_bind_ok (a := m) (by rw [runFrom_load, hload])]
  have hlength : (m.deployables.filter (·.key ≠ key)).length = m.deployables.length ↔
      m.isTaken key = false := by
    simp [Manifest.isTaken, Manifest.deployable?, List.length_filter_eq_length_iff]
  dsimp only
  by_cases htaken : m.isTaken key = true
  · rw [if_pos htaken, if_neg fun h => Bool.noConfusion (htaken.symm.trans (hlength.mp h))]
    rfl
  · rw [if_neg htaken, if_pos (hlength.mpr (Bool.eq_false_iff.mpr htaken))]
    rfl

/-- A manifest that has a text is saved, unless a file cannot be written. -/
theorem save_error {path text : String} {m : Manifest} (htext : m.toToml = .ok text) {w w' : World}
    {e : StoreError} (h : runFrom (save path m) w = (.error e, w')) :
    ∃ file cause, e = .file file cause := by
  have hfile {file : String} {x : StateM World (Except FileError Unit)} {w : World}
      (h : runFrom (liftFile file x) w = (.error e, w')) : ∃ file cause, e = .file file cause := by
    rw [runFrom_liftFile, Prod.mk.injEq] at h
    cases hx : (StateT.run x w).1 with
    | error cause =>
      rw [hx] at h
      cases h.1
      exact ⟨_, _, rfl⟩
    | ok _ =>
      rw [hx] at h
      cases h.1
  unfold save at h
  rw [runFrom_bind_ok (a := text) (by rw [runFrom_liftStore, htext])] at h
  split at h
  · split at h
    · rcases runFrom_bind_eq_error h with h | ⟨_, _, _, h⟩
      · exact hfile h
      · exact hfile h
    · exact hfile h
  · exact hfile h

/-- A create that fails leaves the disk as it was, unless a file could not be written. -/
theorem disk_of_create_error {path : String} {d : Deployable} {w w' : World} {e : StoreError}
    (h : runFrom ((store path).create d) w = (.error e, w'))
    (hfile : ∀ file cause, e ≠ .file file cause) : w'.disk = w.disk := by
  cases hload : w.manifest path with
  | error e' =>
    change runFrom (create path d) w = _ at h
    unfold create at h
    rw [runFrom_bind_error (e := e') (t := w) (by rw [runFrom_load, hload])] at h
    cases h
    rfl
  | ok m =>
    rw [runFrom_create hload] at h
    split at h
    next =>
      cases h
      rfl
    next p hprepare =>
      cases htext : (m.extend [p]).toToml with
      | ok text =>
        cases hsave : runFrom (save path (m.extend [p])) w.afterDraw with
        | mk answer t =>
          rw [hsave] at h
          cases answer with
          | error e' =>
            cases h
            obtain ⟨file, cause, he⟩ := save_error htext hsave
            exact absurd he (hfile file cause)
          | ok _ => cases h
      | error e' =>
        have hsave : runFrom (save path (m.extend [p])) w.afterDraw = (.error e', w.afterDraw) := by
          unfold save
          exact runFrom_bind_error (by rw [runFrom_liftStore, htext])
        rw [hsave] at h
        cases h
        rfl

end ManifestFile

end Ferry
