import Ferry.Proofs.Toml.Value

/-!
# Documents read back

The sections of a document fill its tables one after another. What the sections
of a field do is what putting in the whole field at once would do; this is proved
along the recursion of the writer, for tables with and without a header and for
arrays of tables. At the top the fields are put into an empty document.
-/
namespace Ferry

namespace Json

open Toml (hasHeaders maxKeyParts maxNesting)

mutual

/-- Whether a field whose path has so many keys is written so that it can be read: no header has
too many keys, and no value on one line nests too deep. -/
def fits (keys : Nat) : Json → Bool
  | obj fields => decide (keys ≤ maxKeyParts) && fitsFields (keys + 1) fields
  | arr items =>
    if hasHeaders (arr items) then decide (keys ≤ maxKeyParts) && fitsElements (keys + 1) items
    else decide ((arr items).nesting ≤ maxNesting)
  | null | bool _ | int _ | float _ | str _ => true

def fitsElements (keys : Nat) : List Json → Bool
  | [] => true
  | obj fields :: rest => fitsFields keys fields && fitsElements keys rest
  | arr _ :: rest | null :: rest | bool _ :: rest | int _ :: rest | float _ :: rest
  | str _ :: rest =>
    fitsElements keys rest

def fitsFields (keys : Nat) : List (String × Json) → Bool
  | [] => true
  | (_, v) :: rest => fits keys v && fitsFields keys rest

end

theorem nesting_le_of_fits {v : Json} {keys : Nat} (hplain : hasHeaders v = false)
    (hfits : v.fits keys = true) : v.nesting ≤ maxNesting := by
  cases v with
  | obj fields => cases hplain
  | arr items => simpa [fits, hplain] using hfits
  | _ => exact Nat.zero_le _

theorem fits_of_mem {fields : List (String × Json)} {keys : Nat}
    (hfits : fitsFields keys fields = true) {f : String × Json} (hf : f ∈ fields) :
    f.2.fits keys = true := by
  induction fields with
  | nil => cases hf
  | cons g fields ih =>
    obtain ⟨name, v⟩ := g
    rw [fitsFields, Bool.and_eq_true] at hfits
    rcases List.mem_cons.mp hf with rfl | hf
    · exact hfits.1
    · exact ih hfits.2 hf

theorem every_of_mem {P : Json → Prop} {fields : List (String × Json)} (h : EveryField P fields)
    {f : String × Json} (hf : f ∈ fields) : f.2.Every P := by
  induction fields with
  | nil => cases hf
  | cons g fields ih =>
    obtain ⟨name, v⟩ := g
    rw [EveryField] at h
    rcases List.mem_cons.mp hf with rfl | hf
    · exact h.1
    · exact ih h.2 hf

end Json

namespace Toml

open Entries (put push putAt? putAll? pushAt? descend? Element)

/-! ### Statements -/

section Statements

variable {size : Nat} {doc doc' doc'' : Document} {s s' rest : List Char}

/-- Reading a document at one place goes on at another one, with the tables read in between. -/
def Reaches (size : Nat) (doc : Document) (s : List Char) (doc' : Document) (rest : List Char) :
    Prop :=
  ∀ fuel, s.length ≤ fuel → ∃ fuel', rest.length ≤ fuel' ∧
    readStatements size fuel doc s = readStatements size fuel' doc' rest

theorem Reaches.refl (size : Nat) (doc : Document) (s : List Char) : Reaches size doc s doc s :=
  fun fuel hfuel => ⟨fuel, hfuel, rfl⟩

theorem Reaches.trans (h : Reaches size doc s doc' s') (h' : Reaches size doc' s' doc'' rest) :
    Reaches size doc s doc'' rest := by
  intro fuel hfuel
  obtain ⟨fuel', hfuel', heq⟩ := h fuel hfuel
  obtain ⟨fuel'', hfuel'', heq'⟩ := h' fuel' hfuel'
  exact ⟨fuel'', hfuel'', heq.trans heq'⟩

theorem reaches_of_statement {statement : Statement} (hblanks : skipBlanks s = s)
    (hread : readStatement size s = .ok (statement, rest)) (hadd : doc.add? s statement = some doc')
    (hlength : rest.length < s.length) : Reaches size doc s doc' rest := by
  intro fuel hfuel
  obtain ⟨fuel, rfl⟩ : ∃ n, fuel = n + 1 := Nat.exists_eq_add_of_le' (by omega)
  refine ⟨fuel, by omega, ?_⟩
  cases s with
  | nil => simp at hlength
  | cons c s =>
    rw [readStatements]
    · simp only [hblanks, hread, hadd, bind, Except.bind]
    · exact nofun

theorem endLine_newline (rest : List Char) : endLine ('\n' :: rest) = .ok rest := rfl

theorem endsPath_bracket (rest : List Char) : EndsPath (']' :: rest) := by
  constructor
  · rintro c hc
    cases hc
    decide
  · simp [skipBlanks, isBlank]

theorem reaches_blank : Reaches size doc ('\n' :: rest) doc rest :=
  reaches_of_statement rfl (show readStatement size _ = .ok (.blank, rest) from rfl) rfl (by simp)

theorem readStatement_openTable {path : List String} {key : String}
    (hlength : path.length + 1 ≤ maxKeyParts) (rest : List Char) :
    ∃ keys last, readStatement size ('[' :: (writePath (path ++ [key]) ++ ']' :: '\n' :: rest)) =
      .ok (.openTable keys last, rest) ∧ keys.map Key.name = path ∧ last.name = key := by
  have hstart := startsKey_writePath (show path ++ [key] ≠ [] by simp) (']' :: '\n' :: rest)
  obtain ⟨keys, last, hkey, hkeys, hlast⟩ := readKey_writePath hlength
    (endsPath_bracket ('\n' :: rest)) (skipBlanks_of_startsKey hstart)
  refine ⟨keys, last, ?_, hkeys, hlast⟩
  have hbracket : skipBlanks (']' :: '\n' :: rest) = ']' :: '\n' :: rest := rfl
  rw [hbracket] at hkey
  unfold readStatement
  split
  next heq =>
    rw [List.cons.injEq] at heq
    rw [heq.2] at hstart
    exact absurd rfl (startsKey_ne hstart).2.2
  next heq =>
    rw [List.cons.injEq] at heq
    rw [← heq.2]
    simp only [orWanted, hkey, expect, endLine_newline, Except.mapError, bind, Except.bind, pure,
      Except.pure, ↓reduceIte]
  next hother => exact absurd rfl (hother _)

theorem readStatement_openElement {path : List String} {key : String}
    (hlength : path.length + 1 ≤ maxKeyParts) (rest : List Char) :
    ∃ keys last, readStatement size
      ('[' :: '[' :: (writePath (path ++ [key]) ++ ']' :: ']' :: '\n' :: rest)) =
        .ok (.openElement keys last, rest) ∧ keys.map Key.name = path ∧ last.name = key := by
  have hstart := startsKey_writePath (show path ++ [key] ≠ [] by simp) (']' :: ']' :: '\n' :: rest)
  obtain ⟨keys, last, hkey, hkeys, hlast⟩ := readKey_writePath hlength
    (endsPath_bracket (']' :: '\n' :: rest)) (skipBlanks_of_startsKey hstart)
  refine ⟨keys, last, ?_, hkeys, hlast⟩
  have hbracket : skipBlanks (']' :: ']' :: '\n' :: rest) = ']' :: ']' :: '\n' :: rest := rfl
  rw [hbracket] at hkey
  simp only [readStatement, orWanted, hkey, expect, endLine_newline, Except.mapError, bind,
    Except.bind, pure, Except.pure, ↓reduceIte]

theorem readStatement_pair {key : String} {v : Json} (hv : ReadsAs (readValue size maxNesting) v)
    (rest : List Char) :
    ∃ last node, readStatement size (writePair key (writeValue v) ++ '\n' :: rest) =
      .ok (.pair ⟨[], last, node⟩, rest) ∧ last.name = key ∧ v.Shows (Datum.ofNode node) := by
  have hstart := startsKey_writePair key (writeValue v) ('\n' :: rest)
  obtain ⟨last, node, hpair, hlast, hshow⟩ := readPair_writePair hv
    (endsValue_cons (by simp) rest) (skipBlanks_of_startsKey hstart)
  refine ⟨last, node, ?_, hlast, hshow⟩
  unfold readStatement
  split
  next heq =>
    rw [heq] at hstart
    exact absurd rfl (startsKey_ne hstart).2.2
  next heq =>
    rw [heq] at hstart
    exact absurd rfl (startsKey_ne hstart).2.2
  next =>
    rw [if_pos hstart]
    simp only [orWanted, hpair, endLine_newline, Except.mapError, bind, Except.bind, pure,
      Except.pure]

end Statements

/-! ### Plain lines -/

section Lines

variable {size : Nat}

theorem putAll?_cons {origin : Origin} {p : Pair} {pairs : List Pair} {entries entries' : Entries} :
    putAll? origin (p :: pairs) entries = some entries' ↔
      ∃ middle, putAt? origin entries p = some middle ∧
        putAll? origin pairs middle = some entries' :=
  Option.bind_eq_some_iff

theorem putAll?_append {origin : Origin} {pairs pairs' : List Pair} {entries entries' : Entries} :
    putAll? origin (pairs ++ pairs') entries = some entries' ↔
      ∃ middle, putAll? origin pairs entries = some middle ∧
        putAll? origin pairs' middle = some entries' := by
  rw [putAll?, List.foldlM_append]
  exact Option.bind_eq_some_iff

theorem putPair?_eq (doc : Document) (key : Key) (node : Node) :
    doc.putPair? [] key node = (putAt? (.header doc.mark) doc.entries ⟨doc.opened, key, node⟩).map
      fun entries => { doc with entries } := rfl

theorem plainLines_cons (key : String) (v : Json) (fields : List (String × Json)) :
    plainLines ((key, v) :: fields) =
      (if hasHeaders v then [] else writePair key (writeValue v) ++ ['\n']) ++
        plainLines fields := by
  unfold plainLines
  cases h : hasHeaders v <;> simp [h]

theorem readsPairs_plainLines {fields : List (String × Json)}
    (h : ∀ f ∈ fields, hasHeaders f.2 = false → ReadsAs (readValue size maxNesting) f.2)
    (opened : List Key) (rest : List Char) :
    ∃ pairs, (∀ p ∈ pairs, p.path = opened) ∧
      Json.ShowsFields (fields.filter fun f => !hasHeaders f.2)
        (Datum.ofEntries (pairs.map Pair.entry)) ∧
      ∀ (doc : Document) {entries : Entries}, doc.opened = opened →
        putAll? (.header doc.mark) pairs doc.entries = some entries →
          Reaches size doc (plainLines fields ++ rest) { doc with entries } rest := by
  induction fields with
  | nil =>
    refine ⟨[], by simp, showsFields_ofEntries_nil, fun doc {entries} _ hput => ?_⟩
    cases hput
    exact .refl size doc rest
  | cons f fields ih =>
    obtain ⟨key, v⟩ := f
    obtain ⟨pairs, hpaths, hshows, hreaches⟩ := ih fun f hf => h f (List.mem_cons_of_mem _ hf)
    rw [plainLines_cons]
    cases hplain : hasHeaders v with
    | true =>
      refine ⟨pairs, hpaths, ?_, hreaches⟩
      simpa [List.filter_cons, hplain] using hshows
    | false =>
      obtain ⟨last, node, hread, hlast, hshow⟩ :=
        readStatement_pair (h _ List.mem_cons_self hplain) (plainLines fields ++ rest)
      refine ⟨⟨opened, last, node⟩ :: pairs, ?_, ?_, fun doc {entries} hopened hput => ?_⟩
      · exact List.forall_mem_cons.mpr ⟨rfl, hpaths⟩
      · simp only [List.filter_cons, hplain, Bool.not_false, ↓reduceIte]
        exact showsFields_ofEntries_cons hlast hshow hshows
      · obtain ⟨middle, hmiddle, hput⟩ := putAll?_cons.mp hput
        have hadd (mark : Mark) : doc.add? mark (.pair ⟨[], last, node⟩) =
            some { doc with entries := middle } := by
          subst hopened
          exact (putPair?_eq doc last node).trans (congrArg _ hmiddle)
        have hline : Reaches size doc
            (writePair key (writeValue v) ++ '\n' :: (plainLines fields ++ rest))
            { doc with entries := middle } (plainLines fields ++ rest) :=
          reaches_of_statement (skipBlanks_of_startsKey (startsKey_writePair key _ _)) hread
            (hadd _) (by simp; omega)
        have hlines := hreaches { doc with entries := middle } hopened hput
        simpa using hline.trans hlines

end Lines

/-! ### Sections -/

section Sections

variable {size : Nat}

def spaced (sections : List (List Char)) : List Char := sections.flatMap fun text => '\n' :: text

@[simp]
theorem spaced_nil : spaced [] = [] := rfl

@[simp]
theorem spaced_cons (text : List Char) (sections : List (List Char)) :
    spaced (text :: sections) = '\n' :: text ++ spaced sections := rfl

@[simp]
theorem spaced_append (sections sections' : List (List Char)) :
    spaced (sections ++ sections') = spaced sections ++ spaced sections' := List.flatMap_append

def ReadsBelow (size : Nat) (path : List String) (text : List Char)
    (fields : List (String × Json)) : Prop :=
  ∀ rest, ∃ pairs, (∀ p ∈ pairs, p.path.map Key.name = path) ∧
    Json.ShowsFields fields (Datum.ofEntries (pairs.map Pair.entry)) ∧
    ∀ (doc : Document) {entries : Entries},
      putAll? (.header doc.mark) pairs doc.entries = some entries →
        ∃ opened, Reaches size doc (text ++ rest) { doc with entries, opened } rest

def ReadsField (size : Nat) (path : List String) (key : String) (text : List Char) (v : Json) :
    Prop :=
  ∀ rest, ∃ p : Pair, p.path.map Key.name = path ∧ p.key.name = key ∧
    v.Shows (Datum.ofNode p.value) ∧
    ∀ (doc : Document) {entries : Entries},
      putAt? (.header doc.mark) doc.entries p = some entries →
        ∃ opened, Reaches size doc (text ++ rest) { doc with entries, opened } rest

def Entries.Element.datum (e : Element) : Datum :=
  .located e.mark (.map (Datum.ofEntries e.entries))

/-- A text is read as tables of an array, which are opened one after another. -/
def ReadsElements (size : Nat) (path : List String) (key : String) (text : List Char)
    (items : List Json) : Prop :=
  ∀ rest, ∃ elements : List Element,
    (∀ e ∈ elements, e.path.map Key.name = path ∧ e.key.name = key) ∧
    Json.ShowsItems items (elements.map Element.datum) ∧
    ∀ (doc : Document) {entries : Entries},
      elements.foldlM (pushAt? (.header doc.mark)) doc.entries = some entries →
        ∃ opened, Reaches size doc (text ++ rest) { doc with entries, opened } rest

theorem readsBelow_nil (path : List String) : ReadsBelow size path [] [] := by
  intro rest
  refine ⟨[], by simp, showsFields_ofEntries_nil, fun doc {entries} hput => ⟨doc.opened, ?_⟩⟩
  cases hput
  exact .refl size doc rest

theorem ReadsField.cons {path : List String} {key : String} {text text' : List Char} {v : Json}
    {fields : List (String × Json)} (h : ReadsField size path key text v)
    (h' : ReadsBelow size path text' fields) :
    ReadsBelow size path (text ++ text') ((key, v) :: fields) := by
  intro rest
  obtain ⟨pairs, hpaths, hshows, hreaches⟩ := h' rest
  obtain ⟨p, hpath, hkey, hshow, hreach⟩ := h (text' ++ rest)
  refine ⟨p :: pairs, List.forall_mem_cons.mpr ⟨hpath, hpaths⟩,
    showsFields_ofEntries_cons hkey hshow hshows, fun doc {entries} hput => ?_⟩
  obtain ⟨middle, hmiddle, hput⟩ := putAll?_cons.mp hput
  obtain ⟨opened, hfirst⟩ := hreach doc hmiddle
  obtain ⟨opened', hlater⟩ := hreaches { doc with entries := middle, opened } hput
  rw [List.append_assoc]
  exact ⟨opened', hfirst.trans hlater⟩

/-- The lines of a table that has just been opened and the sections below it fill the table. -/
theorem reads_table {path : List String} {key : String} {fields : List (String × Json)}
    {below : List Char}
    (hlines : ∀ f ∈ fields, hasHeaders f.2 = false → ReadsAs (readValue size maxNesting) f.2)
    (hbelow : ReadsBelow size (path ++ [key]) below (fields.filter fun f => hasHeaders f.2))
    {keys : List Key} {last : Key} (hkeys : keys.map Key.name = path) (hlast : last.name = key)
    (rest : List Char) :
    ∃ pairs : List Pair, (∀ p ∈ pairs, p.path.map Key.name = keys.map Key.name ++ [last.name]) ∧
      Json.ShowsFields ((fields.filter fun f => !hasHeaders f.2) ++
        fields.filter fun f => hasHeaders f.2) (Datum.ofEntries (pairs.map Pair.entry)) ∧
      ∀ (doc : Document) {entries : Entries}, doc.opened = keys ++ [last] →
        putAll? (.header doc.mark) pairs doc.entries = some entries →
          ∃ opened, Reaches size doc (plainLines fields ++ below ++ rest)
            { doc with entries, opened } rest := by
  obtain ⟨pairs', hpaths', hshows', hreaches'⟩ := hbelow rest
  obtain ⟨pairs, hpaths, hshows, hreaches⟩ :=
    readsPairs_plainLines hlines (keys ++ [last]) (below ++ rest)
  refine ⟨pairs ++ pairs', fun p hp => ?_, ?_, fun doc {entries} hopened hput => ?_⟩
  · rcases List.mem_append.mp hp with hp | hp
    · rw [hpaths p hp, List.map_append, List.map_singleton]
    · rw [hpaths' p hp, hkeys, hlast]
  · rw [List.map_append, Datum.ofEntries_eq_map, List.map_append, ← Datum.ofEntries_eq_map,
      ← Datum.ofEntries_eq_map]
    exact hshows.append hshows'
  · obtain ⟨middle, hmiddle, hput⟩ := putAll?_append.mp hput
    obtain ⟨opened, hlater⟩ := hreaches' { doc with entries := middle } hput
    rw [List.append_assoc]
    exact ⟨opened, (hreaches doc hopened hmiddle).trans hlater⟩

theorem filter_headers_perm (fields : List (String × Json)) :
    ((fields.filter fun f => !hasHeaders f.2) ++ fields.filter fun f => hasHeaders f.2).Perm
      fields := by
  have h := List.filter_append_perm (fun f : String × Json => hasHeaders f.2) fields
  exact (List.perm_append_comm).trans h

theorem nodup_names_of_shows {fields fields' : List (String × Json)} {entries : Entries}
    (h : Json.ShowsFields fields' (Datum.ofEntries entries)) (hperm : fields'.Perm fields)
    (hnames : (fields.map Prod.fst).Nodup) : entries.names.Nodup := by
  rw [names_of_showsFields h]
  exact (hperm.map Prod.fst).nodup_iff.mpr hnames

/-- A header opens a table and what follows fills it: that is as if the table had been made with
all its entries. -/
theorem reaches_filled {keys : List Key} {last : Key} {make : Entries → Entries.Change}
    (hmake : Entries.Makes last make) {pairs : List Pair}
    (hpaths : ∀ p ∈ pairs, p.path.map Key.name = keys.map Key.name ++ [last.name])
    (hnames : (Entries.names (pairs.map Pair.entry)).Nodup) {s body rest : List Char}
    (hopen : ∀ (doc : Document) {entries : Entries},
      descend? false (make []) keys (.header doc.mark) doc.entries = some entries →
        Reaches size doc s { doc with entries, opened := keys ++ [last] } body)
    (hfill : ∀ (doc : Document) {entries : Entries}, doc.opened = keys ++ [last] →
      putAll? (.header doc.mark) pairs doc.entries = some entries →
        ∃ opened, Reaches size doc body { doc with entries, opened } rest)
    {doc : Document} {entries : Entries}
    (h : descend? false (make (pairs.map Pair.entry)) keys (.header doc.mark) doc.entries =
      some entries) :
    ∃ opened, Reaches size doc s { doc with entries, opened } rest := by
  have hnames' : (Entries.names ([] ++ pairs.map Pair.entry)).Nodup := hnames
  have hfilled := hmake.putAll hpaths hnames' (.header doc.mark) doc.entries
  rw [List.nil_append] at hfilled
  obtain ⟨middle, hmiddle, hrest⟩ := Option.bind_eq_some_iff.mp (hfilled.trans h)
  obtain ⟨opened, hbody⟩ :=
    hfill { doc with entries := middle, opened := keys ++ [last] } rfl hrest
  exact ⟨opened, (hopen doc hmiddle).trans hbody⟩

section Table

variable {path : List String} {key : String} {fields : List (String × Json)} {below : List Char}

theorem readsField_header (hlength : path.length + 1 ≤ maxKeyParts)
    (hnames : (fields.map Prod.fst).Nodup)
    (hlines : ∀ f ∈ fields, hasHeaders f.2 = false → ReadsAs (readValue size maxNesting) f.2)
    (hbelow : ReadsBelow size (path ++ [key]) below (fields.filter fun f => hasHeaders f.2)) :
    ReadsField size path key ('\n' :: '[' :: writePath (path ++ [key]) ++ [']', '\n'] ++
      plainLines fields ++ below) (.obj fields) := by
  intro rest
  obtain ⟨keys, last, hread, hkeys, hlast⟩ :=
    readStatement_openTable hlength (plainLines fields ++ below ++ rest)
  obtain ⟨pairs, hpaths, hshows, hfill⟩ := reads_table hlines hbelow hkeys hlast rest
  obtain ⟨mark, hmark⟩ : ∃ mark, mark = '[' :: (writePath (path ++ [key]) ++ ']' :: '\n' ::
    (plainLines fields ++ below ++ rest)) := ⟨_, rfl⟩
  rw [← hmark] at hread
  have htext : '\n' :: '[' :: writePath (path ++ [key]) ++ [']', '\n'] ++ plainLines fields ++
      below ++ rest = '\n' :: mark := by simp [hmark]
  refine ⟨⟨keys, last, .table (.header mark) (pairs.map Pair.entry)⟩, hkeys, hlast, ?_,
    fun doc {entries} hput => ?_⟩
  · rw [Datum.ofNode, Json.shows_located]
    exact Json.shows_obj_of_perm rfl (filter_headers_perm fields) hnames hshows
  · rw [htext]
    refine reaches_filled (Entries.makes_put_table last (.header mark) rfl rfl) hpaths
      (nodup_names_of_shows hshows (filter_headers_perm fields) hnames)
      (fun doc {entries} hput => reaches_blank.trans ?_) hfill hput
    have hopen : doc.entries.openTable? keys last mark (.header doc.mark) = some entries := by
      refine Entries.descend?_mono (Entries.put_within fun origin outer hkey => ?_) hput
      rw [Entries.find?_eq_none_iff.mpr hkey]
    refine reaches_of_statement (by rw [hmark]; rfl) hread ?_ (by simp [hmark]; omega)
    exact congrArg (Option.map fun entries =>
      ({ doc with entries, opened := keys ++ [last] } : Document)) hopen

/-- A table that has only tables below it needs no header. -/
theorem readsField_implied (hnames : (fields.map Prod.fst).Nodup) (hne : fields ≠ [])
    (hall : ∀ f ∈ fields, hasHeaders f.2 = true)
    (hbelow : ReadsBelow size (path ++ [key]) below (fields.filter fun f => hasHeaders f.2)) :
    ReadsField size path key below (.obj fields) := by
  intro rest
  rw [List.filter_eq_self.mpr hall] at hbelow
  obtain ⟨pairs, hpaths, hshows, hreaches⟩ := hbelow rest
  have hnodup := nodup_names_of_shows hshows (.refl _) hnames
  cases pairs with
  | nil =>
    have := hshows.map_fst
    exact absurd (List.map_eq_nil_iff.mp this.symm) hne
  | cons first pairs =>
    obtain ⟨path', back, hfirst, hpath', hback⟩ :=
      List.map_eq_append_iff.mp (hpaths first List.mem_cons_self)
    obtain ⟨key', rfl, hkey'⟩ := List.map_eq_singleton_iff.mp hback
    refine ⟨⟨path', key', .table .implied ((first :: pairs).map Pair.entry)⟩, hpath', hkey', ?_,
      fun doc {entries} hput => hreaches doc ?_⟩
    · rw [Datum.ofNode]
      exact Json.shows_obj_of_perm rfl (.refl _) hnames hshows
    · have hrest : ∀ p ∈ pairs, p.path.map Key.name = path'.map Key.name ++ [key'.name] := by
        intro p hp
        rw [hpath', hkey', hpaths p (List.mem_cons_of_mem _ hp)]
      have hnodup' : (Entries.names ([first.entry] ++ pairs.map Pair.entry)).Nodup := hnodup
      have hfilled := (Entries.makes_put_table key' .implied rfl rfl).putAll hrest hnodup'
        (.header doc.mark) doc.entries
      obtain ⟨middle, hmiddle, hput⟩ := Option.bind_eq_some_iff.mp (hfilled.trans hput)
      refine putAll?_cons.mpr ⟨middle, ?_, hput⟩
      rw [putAt?, hfirst, Entries.descend?_append]
      refine Entries.descend?_mono (Entries.put_within fun origin outer hkey => ?_) hmiddle
      rw [descend?, Entries.alter?_of_not_mem hkey]
      rfl

end Table

section Elements

variable {path : List String} {key : String} {fields : List (String × Json)}
  {items : List Json} {below later : List Char}

theorem readsElements_nil (path : List String) (key : String) :
    ReadsElements size path key [] [] := by
  intro rest
  refine ⟨[], by simp, ?_, fun doc {entries} hput => ⟨doc.opened, ?_⟩⟩
  · rw [Json.ShowsItems]
    rfl
  · cases hput
    exact .refl size doc rest

theorem readsElements_cons (hlength : path.length + 1 ≤ maxKeyParts)
    (hnames : (fields.map Prod.fst).Nodup)
    (hlines : ∀ f ∈ fields, hasHeaders f.2 = false → ReadsAs (readValue size maxNesting) f.2)
    (hbelow : ReadsBelow size (path ++ [key]) below (fields.filter fun f => hasHeaders f.2))
    (hlater : ReadsElements size path key later items) :
    ReadsElements size path key ('\n' :: '[' :: '[' :: writePath (path ++ [key]) ++
      [']', ']', '\n'] ++ plainLines fields ++ below ++ later) (.obj fields :: items) := by
  intro rest
  obtain ⟨elements, hpaths', hshows', hreaches'⟩ := hlater rest
  obtain ⟨keys, last, hread, hkeys, hlast⟩ :=
    readStatement_openElement hlength (plainLines fields ++ below ++ (later ++ rest))
  obtain ⟨pairs, hpaths, hshows, hfill⟩ := reads_table hlines hbelow hkeys hlast (later ++ rest)
  obtain ⟨mark, hmark⟩ : ∃ mark, mark = '[' :: '[' :: (writePath (path ++ [key]) ++
    ']' :: ']' :: '\n' :: (plainLines fields ++ below ++ (later ++ rest))) := ⟨_, rfl⟩
  rw [← hmark] at hread
  have htext : '\n' :: '[' :: '[' :: writePath (path ++ [key]) ++ [']', ']', '\n'] ++
      plainLines fields ++ below ++ later ++ rest = '\n' :: mark := by simp [hmark]
  refine ⟨⟨keys, last, mark, pairs.map Pair.entry⟩ :: elements,
    List.forall_mem_cons.mpr ⟨⟨hkeys, hlast⟩, hpaths'⟩, ?_, fun doc {entries} hput => ?_⟩
  · rw [Json.ShowsItems]
    refine ⟨_, _, rfl, ?_, hshows'⟩
    rw [Element.datum, Json.shows_located]
    exact Json.shows_obj_of_perm rfl (filter_headers_perm fields) hnames hshows
  · obtain ⟨middle, hmiddle, hput⟩ := Option.bind_eq_some_iff.mp hput
    rw [htext]
    have hopened : ∃ opened, Reaches size doc ('\n' :: mark)
        { doc with entries := middle, opened } (later ++ rest) := by
      refine reaches_filled (Entries.makes_push last mark) hpaths
        (nodup_names_of_shows hshows (filter_headers_perm fields) hnames)
        (fun doc {entries} hput => reaches_blank.trans ?_) hfill hmiddle
      have hopen : doc.entries.openElement? keys last mark (.header doc.mark) = some entries := hput
      refine reaches_of_statement (by rw [hmark]; rfl) hread ?_ (by simp [hmark]; omega)
      exact congrArg (Option.map fun entries =>
        ({ doc with entries, opened := keys ++ [last] } : Document)) hopen
    obtain ⟨opened, hfirst⟩ := hopened
    obtain ⟨opened', hnext⟩ := hreaches' { doc with entries := middle, opened } hput
    exact ⟨opened', hfirst.trans hnext⟩

theorem ofNode_withElements (last : Mark) (inner : Entries) (before : List (Mark × Entries))
    (elements : List Element) :
    ∃ mark, Datum.ofNode (Entries.withElements last inner before elements) =
      .located mark (.tables (Datum.ofElements
        (.located last (.map (Datum.ofEntries inner)) :: elements.map Element.datum) before)) := by
  induction elements generalizing last inner before with
  | nil =>
    rw [Entries.withElements, Datum.ofNode]
    exact ⟨_, rfl⟩
  | cons e elements ih =>
    obtain ⟨mark, hmark⟩ := ih e.mark e.entries ((last, inner) :: before)
    refine ⟨mark, ?_⟩
    rw [Entries.withElements, hmark, Datum.ofElements]
    rfl

theorem ReadsElements.readsField (hne : items ≠ []) (h : ReadsElements size path key below items) :
    ReadsField size path key below (.arr items) := by
  intro rest
  obtain ⟨elements, hpaths, hshows, hreaches⟩ := h rest
  cases elements with
  | nil =>
    cases items with
    | nil => exact absurd rfl hne
    | cons v items =>
      rw [Json.ShowsItems] at hshows
      obtain ⟨_, _, hnil, -⟩ := hshows
      cases hnil
  | cons e elements =>
    obtain ⟨hpath, hkey⟩ := hpaths e List.mem_cons_self
    refine ⟨⟨e.path, e.key, Entries.withElements e.mark e.entries [] elements⟩, hpath, hkey, ?_,
      fun doc {entries} hput => hreaches doc ?_⟩
    · obtain ⟨mark, hnode⟩ := ofNode_withElements e.mark e.entries [] elements
      rw [hnode, Json.shows_located, Json.Shows]
      exact ⟨_, .inr rfl, hshows⟩
    · have hpaths' : ∀ e' ∈ elements,
          e'.path.map Key.name = e.path.map Key.name ∧ e'.key.name = e.key.name := by
        intro e' he'
        rw [hpath, hkey]
        exact hpaths e' (List.mem_cons_of_mem _ he')
      have hfilled := Entries.put_pushAll hpaths' e.mark e.entries [] (.header doc.mark) doc.entries
      obtain ⟨middle, hmiddle, hput⟩ := Option.bind_eq_some_iff.mp (hfilled.trans hput)
      refine Option.bind_eq_some_iff.mpr ⟨middle, ?_, hput⟩
      refine Entries.descend?_mono (Entries.put_within fun origin outer hkey => ?_) hmiddle
      rw [push, Entries.alter?_of_not_mem hkey]
      rfl

end Elements

/-! ### All sections of a document -/

theorem length_writeValue_le {fields : List (String × Json)} {f : String × Json} (hf : f ∈ fields)
    (hplain : hasHeaders f.2 = false) : (writeValue f.2).length ≤ (plainLines fields).length := by
  induction fields with
  | nil => cases hf
  | cons g fields ih =>
    obtain ⟨key, v⟩ := g
    rw [plainLines_cons, List.length_append]
    rcases List.mem_cons.mp hf with rfl | hf
    · simp only [hplain, Bool.false_eq_true, ↓reduceIte, writePair, List.length_append]
      omega
    · have := ih hf
      omega

theorem readsAs_lines {fields : List (String × Json)} {keys size : Nat}
    (hform : Json.EveryField Json.HasToml fields)
    (hnames : Json.EveryField Json.DistinctNames fields)
    (hfits : Json.fitsFields keys fields = true) (hsize : (plainLines fields).length ≤ size) :
    ∀ f ∈ fields, hasHeaders f.2 = false → ReadsAs (readValue size maxNesting) f.2 := by
  intro f hf hplain
  refine readsAs_value f.2 (Json.every_of_mem hform hf) (Json.every_of_mem hnames hf)
    (Json.nesting_le_of_fits hplain (Json.fits_of_mem hfits hf)) ?_
  exact (length_writeValue_le hf hplain).trans hsize

theorem sectionsOf_plain {v : Json} (hplain : hasHeaders v = false) (path : List String) :
    sectionsOf path v = [] := by
  cases v with
  | arr items =>
    cases items with
    | nil => rfl
    | cons v items =>
      have : (v :: items).all isTable = false := by simpa [hasHeaders] using hplain
      rw [sectionsOf, this]
      rfl
  | obj fields => cases hplain
  | _ => rfl

mutual

theorem readsField_value : ∀ (v : Json), v.Every Json.HasToml → v.Every Json.DistinctNames →
    hasHeaders v = true → ∀ (path : List String) (key : String),
      v.fits (path.length + 1) = true →
        (spaced (sectionsOf (path ++ [key]) v)).length ≤ size + 1 →
          ReadsField size path key (spaced (sectionsOf (path ++ [key]) v)) v
  | .obj fields, hform, hnames, _, path, key, hfits, hsize => by
    rw [Json.Every] at hform hnames
    rw [Json.fits, Bool.and_eq_true, decide_eq_true_eq] at hfits
    rw [sectionsOf, spaced_append] at hsize ⊢
    rw [List.length_append] at hsize
    have hbelow := readsBelow_fields fields hform.2 hnames.2 (path ++ [key])
      (by simpa using hfits.2) (by omega)
    unfold tableSection at hsize ⊢
    split at hsize
    next himplied =>
      rw [if_pos himplied]
      simp only [Bool.and_eq_true, Bool.not_eq_true', List.isEmpty_eq_false_iff] at himplied
      exact readsField_implied hnames.1 himplied.1 (by simpa using himplied.2) hbelow
    next himplied =>
      rw [if_neg himplied]
      simp only [spaced_cons, spaced_nil, List.length_append, List.length_cons] at hsize
      have hlines := readsAs_lines hform.2 hnames.2 hfits.2
        (show (plainLines fields).length ≤ size by omega)
      have h := readsField_header hfits.1 hnames.1 hlines hbelow
      simpa using h
  | .arr items, hform, hnames, hheaders, path, key, hfits, hsize => by
    rw [Json.Every] at hform hnames
    rw [Json.fits, if_pos hheaders, Bool.and_eq_true, decide_eq_true_eq] at hfits
    simp only [hasHeaders, Bool.and_eq_true, Bool.not_eq_true', List.isEmpty_eq_false_iff]
      at hheaders
    rw [sectionsOf, if_pos hheaders.2] at hsize ⊢
    exact (readsElements_items items hform.2 hnames.2 hheaders.2 path key hfits.1 hfits.2
      hsize).readsField hheaders.1
  | .null, _, _, hheaders, _, _, _, _ | .bool _, _, _, hheaders, _, _, _, _
  | .int _, _, _, hheaders, _, _, _, _ | .float _, _, _, hheaders, _, _, _, _
  | .str _, _, _, hheaders, _, _, _, _ => by cases hheaders

/-- The sections below a table are read as the fields that have headers. -/
theorem readsBelow_fields : ∀ (fields : List (String × Json)),
    Json.EveryField Json.HasToml fields → Json.EveryField Json.DistinctNames fields →
      ∀ (path : List String), Json.fitsFields (path.length + 1) fields = true →
        (spaced (sectionsBelow path fields)).length ≤ size + 1 →
          ReadsBelow size path (spaced (sectionsBelow path fields))
            (fields.filter fun f => hasHeaders f.2)
  | [], _, _, path, _, _ => readsBelow_nil path
  | (key, v) :: fields, hform, hnames, path, hfits, hsize => by
    rw [Json.EveryField] at hform hnames
    rw [Json.fitsFields, Bool.and_eq_true] at hfits
    rw [sectionsBelow, spaced_append] at hsize ⊢
    rw [List.length_append] at hsize
    have hrest := readsBelow_fields fields hform.2 hnames.2 path hfits.2 (by omega)
    cases hheaders : hasHeaders v with
    | false =>
      rw [sectionsOf_plain hheaders, List.filter_cons_of_neg (by simp [hheaders])]
      exact hrest
    | true =>
      rw [List.filter_cons_of_pos (by simp [hheaders])]
      exact (readsField_value v hform.1 hnames.1 hheaders path key hfits.1 (by omega)).cons hrest

theorem readsElements_items : ∀ (items : List Json), Json.EveryItem Json.HasToml items →
    Json.EveryItem Json.DistinctNames items → items.all isTable = true →
      ∀ (path : List String) (key : String), path.length + 1 ≤ maxKeyParts →
        Json.fitsElements (path.length + 1 + 1) items = true →
          (spaced (elementSections (path ++ [key]) items)).length ≤ size + 1 →
            ReadsElements size path key (spaced (elementSections (path ++ [key]) items)) items
  | [], _, _, _, path, key, _, _, _ => readsElements_nil path key
  | .obj fields :: items, hform, hnames, htables, path, key, hlength, hfits, hsize => by
    rw [Json.EveryItem, Json.Every] at hform hnames
    rw [Json.fitsElements, Bool.and_eq_true] at hfits
    rw [elementSections, spaced_cons, spaced_append] at hsize ⊢
    simp only [List.length_append, List.length_cons, elementSection] at hsize
    have hbelow := readsBelow_fields fields hform.1.2 hnames.1.2 (path ++ [key])
      (by simpa using hfits.1) (by omega)
    have hlines := readsAs_lines hform.1.2 hnames.1.2 hfits.1
      (show (plainLines fields).length ≤ size by omega)
    have hlater := readsElements_items items hform.2 hnames.2 (by simpa [isTable] using htables)
      path key hlength hfits.2 (by omega)
    have h := readsElements_cons hlength hnames.1.1 hlines hbelow hlater
    simpa [elementSection] using h
  | .arr _ :: _, _, _, htables, _, _, _, _, _ | .null :: _, _, _, htables, _, _, _, _, _
  | .bool _ :: _, _, _, htables, _, _, _, _, _ | .int _ :: _, _, _, htables, _, _, _, _, _
  | .float _ :: _, _, _, htables, _, _, _, _, _ | .str _ :: _, _, _, htables, _, _, _, _, _ => by
    cases htables

end

/-! ### The whole document -/

theorem joinTexts_newline (text : List Char) (texts : List (List Char)) :
    joinTexts ['\n'] (text :: texts) = text ++ spaced texts := by
  induction texts generalizing text with
  | nil => simp [joinTexts]
  | cons text' texts ih =>
    rw [joinTexts_cons_cons, ih, spaced_cons]
    simp

/-- A blank line at the beginning makes no difference. -/
theorem readStatements_blank (fuel : Nat) (doc : Document) (s : List Char) :
    readStatements size (fuel + 1) doc ('\n' :: s) = readStatements size fuel doc s := rfl

/-- A byte order mark is not skipped past the beginning. -/
theorem readStatements_byteOrderMark (size fuel : Nat) (doc : Document) (s : List Char) :
    ∃ e, readStatements size fuel doc ('\ufeff' :: s) = .error e := by
  cases fuel with
  | zero => exact ⟨_, rfl⟩
  | succ fuel => exact ⟨_, rfl⟩

theorem skipByteOrderMark_of_readStatements {fuel : Nat} {doc doc' : Document} {s : List Char}
    (h : readStatements size fuel doc s = .ok doc') : skipByteOrderMark s = s := by
  unfold skipByteOrderMark
  split
  next s =>
    obtain ⟨e, he⟩ := readStatements_byteOrderMark size fuel doc s
    rw [he] at h
    cases h
  next => rfl

/-- A document is its lines with a blank line before every section, except that a section that
stands first has none. -/
theorem writeDocument_cases (fields : List (String × Json)) :
    writeDocument fields = plainLines fields ++ spaced (sectionsBelow [] fields) ∨
      (plainLines fields = [] ∧
        '\n' :: writeDocument fields = spaced (sectionsBelow [] fields)) := by
  unfold writeDocument
  dsimp only
  by_cases hplain : plainLines fields = []
  · rw [if_pos hplain, List.nil_append, hplain, List.nil_append]
    cases sectionsBelow [] fields with
    | nil => exact .inl rfl
    | cons text texts =>
      exact .inr ⟨rfl, by rw [joinTexts_newline, spaced_cons, List.cons_append]⟩
  · rw [if_neg hplain, List.singleton_append, joinTexts_newline]
    exact .inl rfl

theorem readStatements_writeDocument {fields : List (String × Json)} {doc doc' : Document}
    (h : Reaches size doc (plainLines fields ++ spaced (sectionsBelow [] fields)) doc' [])
    {fuel : Nat} (hfuel : (writeDocument fields).length ≤ fuel) :
    readStatements size fuel doc (writeDocument fields) = .ok doc' := by
  have hend (fuel : Nat) : readStatements size fuel doc' [] = .ok doc' := by
    cases fuel <;> rfl
  rcases writeDocument_cases fields with htext | ⟨hplain, htext⟩
  · rw [← htext] at h
    obtain ⟨fuel', -, heq⟩ := h fuel hfuel
    exact heq.trans (hend fuel')
  · rw [hplain, List.nil_append, ← htext] at h
    obtain ⟨fuel', -, heq⟩ := h (fuel + 1) (Nat.succ_le_succ hfuel)
    rw [readStatements_blank] at heq
    exact heq.trans (hend fuel')

end Sections

/-- The text of an object is read as a document that shows the object. -/
theorem readDocument_writeDocument {fields : List (String × Json)}
    (hform : Json.EveryField Json.HasToml fields)
    (hdistinct : Json.EveryField Json.DistinctNames fields)
    (hnames : (fields.map Prod.fst).Nodup) (hfits : Json.fitsFields 1 fields = true) :
    ∃ node, readDocument (writeDocument fields) = .ok node ∧
      (Json.obj fields).Shows (Datum.ofNode node) := by
  obtain ⟨text, htext⟩ : ∃ text, text = writeDocument fields := ⟨_, rfl⟩
  have hlength : (plainLines fields).length ≤ text.length ∧
      (spaced (sectionsBelow [] fields)).length ≤ text.length + 1 := by
    rcases writeDocument_cases fields with h | ⟨hplain, h⟩
    · have := congrArg List.length h
      rw [← htext, List.length_append] at this
      omega
    · have := congrArg List.length h
      rw [List.length_cons, ← htext] at this
      rw [hplain]
      exact ⟨Nat.zero_le _, this.ge⟩
  obtain ⟨below, hpaths', hshows', hbelow⟩ := readsBelow_fields fields hform hdistinct [] hfits
    hlength.2 []
  obtain ⟨lines, hpaths, hshows, hlines⟩ := readsPairs_plainLines
    (readsAs_lines hform hdistinct hfits hlength.1) [] (spaced (sectionsBelow [] fields) ++ [])
  have hpathsNil : ∀ p ∈ lines ++ below, p.path = [] := by
    intro p hp
    rcases List.mem_append.mp hp with hp | hp
    · exact hpaths p hp
    · exact List.map_eq_nil_iff.mp (hpaths' p hp)
  have hshowsAll : Json.ShowsFields ((fields.filter fun f => !hasHeaders f.2) ++
      fields.filter fun f => hasHeaders f.2)
        (Datum.ofEntries ((lines ++ below).map Pair.entry)) := by
    rw [List.map_append, Datum.ofEntries_eq_map, List.map_append, ← Datum.ofEntries_eq_map,
      ← Datum.ofEntries_eq_map]
    exact hshows.append hshows'
  have hput : putAll? (.header text) (lines ++ below) [] =
      some ((lines ++ below).map Pair.entry) := by
    refine Entries.foldlM_put (fun p hp entries hfresh => ?_)
      (nodup_names_of_shows hshowsAll (filter_headers_perm fields) hnames)
    rw [putAt?, hpathsNil p hp]
    exact Entries.put_of_not_mem rfl hfresh
  obtain ⟨middle, hmiddle, hrest⟩ := putAll?_append.mp hput
  obtain ⟨opened, hbelow⟩ := hbelow { Document.empty text with entries := middle } hrest
  have hreaches := (hlines (.empty text) rfl hmiddle).trans hbelow
  rw [List.append_nil] at hreaches
  have hread := readStatements_writeDocument hreaches
    (show (writeDocument fields).length ≤ text.length + 1 by rw [htext]; exact Nat.le_succ _)
  refine ⟨.table (.header text) ((lines ++ below).map Pair.entry), ?_, ?_⟩
  · unfold readDocument
    rw [← htext] at hread ⊢
    dsimp only
    rw [skipByteOrderMark_of_readStatements hread, hread]
    rfl
  · rw [Datum.ofNode, Json.shows_located]
    exact Json.shows_obj_of_perm rfl (filter_headers_perm fields) hnames hshowsAll

end Toml

end Ferry
