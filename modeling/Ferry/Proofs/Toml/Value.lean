import Ferry.Proofs.Every
import Ferry.Proofs.Datum
import Ferry.Proofs.Toml.Number
import Ferry.Proofs.Toml.Quoted
import Ferry.Proofs.Toml.Tables
import Ferry.Toml.Writer

/-!
# Values read back

A value to the right of its key is read as a node that presents it. What a value
contains is read by the same function at one depth less, so that brackets and
braces are treated for any function that reads their items.
-/
namespace Ferry

namespace Json

/-- What TOML has a form for, apart from what it contains: no null, and integers of 64 bits. -/
def HasToml : Json → Prop
  | null => False
  | int n => -Toml.int64Bound ≤ n ∧ n < Toml.int64Bound
  | bool _ | float _ | str _ | arr _ | obj _ => True

instance : DecidablePred HasToml
  | null => inferInstanceAs (Decidable False)
  | int n => inferInstanceAs (Decidable (-Toml.int64Bound ≤ n ∧ n < Toml.int64Bound))
  | bool _ | float _ | str _ | arr _ | obj _ => inferInstanceAs (Decidable True)

def DistinctNames : Json → Prop
  | obj fields => (fields.map Prod.fst).Nodup
  | null | bool _ | int _ | float _ | str _ | arr _ => True

def Storable : Json → Prop := Every HasToml

instance : DecidablePred Storable := inferInstanceAs (DecidablePred (Every HasToml))

mutual

/-- How many brackets and braces are open at most, if a value is written on one line. -/
def nesting : Json → Nat
  | arr items => nestingItems items + 1
  | obj fields => nestingFields fields + 1
  | null | bool _ | int _ | float _ | str _ => 0

def nestingItems : List Json → Nat
  | [] => 0
  | v :: items => max (nesting v) (nestingItems items)

def nestingFields : List (String × Json) → Nat
  | [] => 0
  | (_, v) :: fields => max (nesting v) (nestingFields fields)

end

end Json

namespace Toml

/-! ### Keys -/

section Keys

variable {s rest : List Char}

theorem startsKey_writeKey (key : String) (rest : List Char) :
    startsKey (writeKey key ++ rest) = true := by
  unfold writeKey
  dsimp only
  split
  next h =>
    simp only [Bool.and_eq_true, Bool.not_eq_true', List.isEmpty_eq_false_iff] at h
    obtain ⟨c, cs, hcs⟩ := List.exists_cons_of_ne_nil h.1
    have hc : isBareKeyChar c = true := List.all_eq_true.mp h.2 c (by simp [hcs])
    simp [hcs, startsKey, hc]
  split
  · simp [Quotes.write, startsKey]
  split
  · simp [Quotes.write, startsKey]
  · simp [Quotes.write, startsKey]

theorem startsKey_ne {c : Char} (h : startsKey (c :: s) = true) :
    isBlank c = false ∧ c ≠ '\n' ∧ c ≠ '[' := by
  change startsKey [c] = true at h
  refine ⟨Bool.eq_false_iff.mpr fun hblank => ?_, ?_, ?_⟩
  · unfold isBlank at hblank
    rcases Bool.or_eq_true_iff.mp hblank with hc | hc <;> obtain rfl := of_decide_eq_true hc <;>
      exact absurd h (by decide)
  · rintro rfl
    exact absurd h (by decide)
  · rintro rfl
    exact absurd h (by decide)

theorem skipBlanks_of_startsKey (h : startsKey s = true) : skipBlanks s = s := by
  cases s with
  | nil => rfl
  | cons c s => simp [skipBlanks, (startsKey_ne h).1]

theorem joinTexts_cons_cons (between text text' : List Char) (texts : List (List Char)) :
    joinTexts between (text :: text' :: texts) =
      text ++ between ++ joinTexts between (text' :: texts) := rfl

theorem startsKey_writePath {path : List String} (hne : path ≠ []) (rest : List Char) :
    startsKey (writePath path ++ rest) = true := by
  cases path with
  | nil => exact absurd rfl hne
  | cons key path =>
    cases path with
    | nil => exact startsKey_writeKey key rest
    | cons key' path =>
      rw [writePath, List.map_cons, List.map_cons, joinTexts_cons_cons, List.append_assoc,
        List.append_assoc]
      exact startsKey_writeKey key _

/-- What may follow a dotted key: no part of a bare key, and no further dot. -/
def EndsPath (rest : List Char) : Prop :=
  (∀ c ∈ rest.head?, isBareKeyChar c = false) ∧ (skipBlanks rest).head? ≠ some '.'

theorem readKeyParts_writePath {path : List String} (hne : path ≠ []) {most : Nat}
    (hmost : path.length ≤ most) (hrest : EndsPath rest)
    (hs : skipBlanks s = writePath path ++ rest) :
    ∃ keys, readKeyParts most s = .ok (keys, skipBlanks rest) ∧ keys.map Key.name = path := by
  induction path generalizing most s with
  | nil => exact absurd rfl hne
  | cons key path ih =>
    obtain ⟨most, rfl⟩ : ∃ n, most = n + 1 := Nat.exists_eq_add_of_le' (by
      rw [List.length_cons] at hmost
      omega)
    rw [readKeyParts, hs]
    cases path with
    | nil =>
      refine ⟨[⟨key, writeKey key ++ rest⟩], ?_, rfl⟩
      have hpart := readKeyPart_writeKey key hrest.1
      have hpath : writePath [key] = writeKey key := rfl
      simp only [hpath, hpart, bind, Except.bind, pure, Except.pure]
      split
      · simp_all [EndsPath]
      · rfl
    | cons key' path =>
      have hpath : writePath (key :: key' :: path) ++ rest =
          writeKey key ++ '.' :: (writePath (key' :: path) ++ rest) := by
        rw [writePath, List.map_cons, List.map_cons, joinTexts_cons_cons, writePath, List.map_cons]
        simp
      have hends : ∀ c ∈ ('.' :: (writePath (key' :: path) ++ rest)).head?,
          isBareKeyChar c = false := by
        rintro c hc
        cases hc
        decide
      have hpart := readKeyPart_writeKey key hends
      obtain ⟨keys, hkeys, hnames⟩ := ih (by simp)
        (show (key' :: path).length ≤ most by simpa using hmost)
        (skipBlanks_of_startsKey (startsKey_writePath (by simp) rest))
      refine ⟨⟨key, writeKey key ++ '.' :: (writePath (key' :: path) ++ rest)⟩ :: keys, ?_,
        by rw [List.map_cons, hnames]⟩
      have hdot : skipBlanks ('.' :: (writePath (key' :: path) ++ rest)) =
        '.' :: (writePath (key' :: path) ++ rest) := rfl
      rw [hpath, hpart]
      simp only [bind, Except.bind, hdot, hkeys, pure, Except.pure]

theorem readKey_writePath {path : List String} {key : String}
    (hlength : path.length + 1 ≤ maxKeyParts) (hrest : EndsPath rest)
    (hs : skipBlanks s = writePath (path ++ [key]) ++ rest) :
    ∃ keys last, readKey s = .ok ((keys, last), skipBlanks rest) ∧ keys.map Key.name = path ∧
      last.name = key := by
  obtain ⟨keys, hkeys, hnames⟩ := readKeyParts_writePath (by simp) (by simpa using hlength) hrest hs
  obtain ⟨front, back, rfl, hfront, hback⟩ := List.map_eq_append_iff.mp hnames
  obtain ⟨last, rfl, hlast⟩ := List.map_eq_singleton_iff.mp hback
  refine ⟨front, last, ?_, hfront, hlast⟩
  simp only [readKey, hkeys, bind, Except.bind, List.getLast?_append, List.getLast?_singleton,
    Option.some_or, List.dropLast_concat, pure, Except.pure]

end Keys

/-! ### Items and pairs -/

/-- A text begins with what a value begins with: not with what may stand between values. -/
def StartsValue (s : List Char) : Prop :=
  ∃ c cs, s = c :: cs ∧ isBlank c = false ∧ c ≠ '\n' ∧ c ≠ '\r' ∧ c ≠ '#' ∧ c ≠ ']'

theorem StartsValue.append {s : List Char} (h : StartsValue s) (rest : List Char) :
    StartsValue (s ++ rest) := by
  obtain ⟨c, cs, rfl, hc⟩ := h
  exact ⟨c, cs ++ rest, rfl, hc⟩

theorem StartsValue.skipBlanks {s : List Char} (h : StartsValue s) : skipBlanks s = s := by
  obtain ⟨c, cs, rfl, hc, -⟩ := h
  simp [Toml.skipBlanks, hc]

theorem StartsValue.skipSpace {s : List Char} (h : StartsValue s) : skipSpace s = .ok s := by
  obtain ⟨c, cs, rfl, hblank, hnewline, hreturn, hcomment, -⟩ := h
  unfold Toml.skipSpace skipSpaceFrom
  split <;> simp_all

structure ReadsAs (readItem : List Char → Except Mark (Node × Mark)) (v : Json) : Prop where
  starts : StartsValue (writeValue v)
  read : ∀ rest, EndsValue rest →
    ∃ node, readItem (writeValue v ++ rest) = .ok (node, rest) ∧ v.Shows (Datum.ofNode node)

section Items

variable {readItem : List Char → Except Mark (Node × Mark)}

theorem endsValue_cons {c : Char} (hc : c = '\n' ∨ c = ',' ∨ c = ']' ∨ c = ' ')
    (rest : List Char) : EndsValue (c :: rest) := by
  intro d hd
  cases hd
  exact hc

theorem skipSpace_ends {c : Char} (hc : c = ',' ∨ c = ']') (rest : List Char) :
    skipSpace (c :: rest) = .ok (c :: rest) := by
  rcases hc with rfl | rfl <;> simp [skipSpace, skipSpaceFrom, isBlank]

theorem readItems_comma {s text rest : List Char} {node : Node} (hstart : StartsValue text)
    (hitem : readItem text = .ok (node, ',' :: rest)) (hs : skipSpace s = .ok text) (fuel : Nat) :
    readItems readItem (fuel + 1) s =
      (readItems readItem fuel rest).map fun (items, left) => (node :: items, left) := by
  obtain ⟨c, cs, rfl, hc⟩ := hstart
  rw [readItems, hs]
  simp only [bind, Except.bind]
  split
  next heq => simp_all
  next =>
    simp only [hitem, skipSpace_ends (.inl rfl), Except.mapError, pure, Except.pure]
    cases readItems readItem fuel rest <;> rfl

theorem readItems_last {s text rest : List Char} {node : Node} (hstart : StartsValue text)
    (hitem : readItem text = .ok (node, ']' :: rest)) (hs : skipSpace s = .ok text) (fuel : Nat) :
    readItems readItem (fuel + 1) s = .ok ([node], rest) := by
  obtain ⟨c, cs, rfl, hc⟩ := hstart
  rw [readItems, hs]
  simp only [bind, Except.bind]
  split
  next heq => simp_all
  next => simp only [hitem, skipSpace_ends (.inr rfl), Except.mapError, pure, Except.pure]

theorem readItems_none {s rest : List Char} (hs : skipSpace s = .ok (']' :: rest)) (fuel : Nat) :
    readItems readItem (fuel + 1) s = .ok ([], rest) := by
  rw [readItems, hs]
  rfl

theorem showsItems_cons {v : Json} {items : List Json} {node : Node} {nodes : List Node}
    (h : v.Shows (Datum.ofNode node)) (hs : Json.ShowsItems items (Datum.ofNodes nodes)) :
    Json.ShowsItems (v :: items) (Datum.ofNodes (node :: nodes)) := by
  rw [Json.ShowsItems]
  exact ⟨_, _, rfl, h, hs⟩

theorem showsItems_nil : Json.ShowsItems [] (Datum.ofNodes []) := by
  rw [Json.ShowsItems]
  rfl

theorem writeValues_eq_map (items : List Json) : writeValues items = items.map writeValue := by
  induction items with
  | nil => rfl
  | cons v items ih => rw [writeValues, ih, List.map_cons]

theorem readItems_lines {items : List Json} (h : ∀ v ∈ items, ReadsAs readItem v)
    (rest : List Char) {fuel : Nat} (hfuel : items.length < fuel) :
    ∃ nodes, readItems readItem fuel
      ((items.map writeValue).flatMap (fun text => ['\n', ' ', ' ', ' ', ' '] ++ text ++ [',']) ++
        '\n' :: ']' :: rest) = .ok (nodes, rest) ∧ Json.ShowsItems items (Datum.ofNodes nodes) := by
  induction items generalizing fuel with
  | nil =>
    obtain ⟨fuel, rfl⟩ : ∃ n, fuel = n + 1 := Nat.exists_eq_add_of_le' hfuel
    exact ⟨[], readItems_none rfl fuel, showsItems_nil⟩
  | cons v items ih =>
    obtain ⟨fuel, rfl⟩ : ∃ n, fuel = n + 1 := Nat.exists_eq_add_of_le' (by omega)
    have hv := h v List.mem_cons_self
    obtain ⟨nodes, hnodes, hshows⟩ := ih (fun w hw => h w (List.mem_cons_of_mem _ hw))
      (show items.length < fuel by simpa using hfuel)
    obtain ⟨node, hnode, hshow⟩ := hv.read (',' :: ((items.map writeValue).flatMap
      (fun text => ['\n', ' ', ' ', ' ', ' '] ++ text ++ [',']) ++ '\n' :: ']' :: rest))
      (endsValue_cons (by simp) _)
    have hstart := hv.starts.append (',' :: ((items.map writeValue).flatMap
      (fun text => ['\n', ' ', ' ', ' ', ' '] ++ text ++ [',']) ++ '\n' :: ']' :: rest))
    refine ⟨node :: nodes, ?_, showsItems_cons hshow hshows⟩
    rw [readItems_comma hstart hnode, hnodes]
    · rfl
    · rw [← hstart.skipSpace]
      simp [skipSpace, skipSpaceFrom, isBlank]

theorem readItems_bracketItems {items : List Json} (h : ∀ v ∈ items, ReadsAs readItem v)
    (rest : List Char) {fuel : Nat} (hfuel : items.length < fuel) :
    ∃ s nodes, bracketItems (writeValues items) ++ rest = '[' :: s ∧
      readItems readItem fuel s = .ok (nodes, rest) ∧
        Json.ShowsItems items (Datum.ofNodes nodes) := by
  obtain ⟨n, hn⟩ : ∃ n, fuel = n + 1 := Nat.exists_eq_add_of_le' (by omega)
  rw [writeValues_eq_map]
  match items with
  | [] =>
    rw [hn]
    exact ⟨']' :: rest, [], rfl, readItems_none rfl n, showsItems_nil⟩
  | [v] =>
    have hv := h v List.mem_cons_self
    obtain ⟨node, hnode, hshow⟩ := hv.read (']' :: rest) (endsValue_cons (by simp) _)
    have hstart := hv.starts.append (']' :: rest)
    rw [hn]
    exact ⟨writeValue v ++ ']' :: rest, [node], by simp [bracketItems],
      readItems_last hstart hnode hstart.skipSpace n, showsItems_cons hshow showsItems_nil⟩
  | v :: w :: items =>
    obtain ⟨nodes, hnodes, hshows⟩ := readItems_lines h rest hfuel
    refine ⟨_, nodes, ?_, hnodes, hshows⟩
    simp [bracketItems]

end Items

section Pairs

variable {readItem : List Char → Except Mark (Node × Mark)}

theorem readPair_writePair {key : String} {v : Json} {s rest : List Char}
    (hv : ReadsAs readItem v) (hrest : EndsValue rest)
    (hs : skipBlanks s = writePair key (writeValue v) ++ rest) :
    ∃ last node, readPair readItem s = .ok (⟨[], last, node⟩, rest) ∧ last.name = key ∧
      v.Shows (Datum.ofNode node) := by
  have hs' : skipBlanks s =
      writePath ([] ++ [key]) ++ (' ' :: '=' :: ' ' :: (writeValue v ++ rest)) := by
    rw [hs]
    simp [writePair, writePath, joinTexts]
  have hends : EndsPath (' ' :: '=' :: ' ' :: (writeValue v ++ rest)) := by
    constructor
    · rintro c hc
      cases hc
      decide
    · simp [skipBlanks, isBlank]
  obtain ⟨keys, last, hkey, hkeys, hlast⟩ := readKey_writePath (by decide) hends hs'
  rw [List.map_eq_nil_iff] at hkeys
  obtain ⟨node, hnode, hshow⟩ := hv.read rest hrest
  refine ⟨last, node, ?_, hlast, hshow⟩
  have hblanks : skipBlanks (' ' :: '=' :: ' ' :: (writeValue v ++ rest)) =
    '=' :: ' ' :: (writeValue v ++ rest) := rfl
  have hvalue : skipBlanks (' ' :: (writeValue v ++ rest)) = writeValue v ++ rest :=
    (hv.starts.append rest).skipBlanks
  simp only [readPair, hkey, hkeys, hblanks, hvalue, expect, hnode, bind, Except.bind,
    pure, Except.pure, ↓reduceIte]

theorem startsKey_writePair (key : String) (text rest : List Char) :
    startsKey (writePair key text ++ rest) = true := by
  rw [writePair, List.append_assoc, List.append_assoc]
  exact startsKey_writeKey key _

theorem showsFields_ofEntries_cons {key : Key} {name : String} {v : Json} {node : Node}
    {fields : List (String × Json)} {entries : Entries} (hkey : key.name = name)
    (h : v.Shows (Datum.ofNode node)) (hs : Json.ShowsFields fields (Datum.ofEntries entries)) :
    Json.ShowsFields ((name, v) :: fields) (Datum.ofEntries ((key, node) :: entries)) := by
  rw [Json.ShowsFields, Datum.ofEntries, hkey]
  exact ⟨_, _, rfl, Json.shows_keyed.mpr h, hs⟩

theorem showsFields_ofEntries_nil : Json.ShowsFields [] (Datum.ofEntries []) := by
  rw [Json.ShowsFields]
  rfl

theorem names_of_showsFields {fields : List (String × Json)} {entries : Entries}
    (h : Json.ShowsFields fields (Datum.ofEntries entries)) :
    entries.names = fields.map Prod.fst := by
  rw [← h.map_fst, Datum.ofEntries_eq_map, List.map_map]
  rfl

theorem startsKey_writeFields {key : String} {v : Json} (fields : List (String × Json))
    (rest : List Char) :
    startsKey (joinTexts [',', ' '] (writeFields ((key, v) :: fields)) ++ rest) = true := by
  rw [writeFields]
  cases writeFields fields with
  | nil => exact startsKey_writePair key _ _
  | cons text texts =>
    rw [joinTexts_cons_cons, List.append_assoc, List.append_assoc]
    exact startsKey_writePair key _ _

theorem readPairs_writeFields {fields : List (String × Json)}
    (h : ∀ f ∈ fields, ReadsAs readItem f.2) (hne : fields ≠ []) (rest : List Char)
    {s : List Char}
    (hs : skipBlanks s = joinTexts [',', ' '] (writeFields fields) ++ ' ' :: '\x7d' :: rest)
    {fuel : Nat} (hfuel : fields.length ≤ fuel) :
    ∃ pairs, readPairs readItem fuel s = .ok (pairs, '\x7d' :: rest) ∧
      (∀ p ∈ pairs, p.path = []) ∧
        Json.ShowsFields fields (Datum.ofEntries (pairs.map Pair.entry)) := by
  induction fields generalizing s fuel with
  | nil => exact absurd rfl hne
  | cons f fields ih =>
    obtain ⟨key, v⟩ := f
    rw [List.length_cons] at hfuel
    obtain ⟨fuel, rfl⟩ : ∃ n, fuel = n + 1 := Nat.exists_eq_add_of_le' (by omega)
    have hv := h _ List.mem_cons_self
    cases fields with
    | nil =>
      obtain ⟨last, node, hpair, hlast, hshow⟩ :=
        readPair_writePair hv (endsValue_cons (by simp) _) hs
      refine ⟨[⟨[], last, node⟩], ?_, by simp,
        showsFields_ofEntries_cons hlast hshow showsFields_ofEntries_nil⟩
      have hbrace : skipBlanks (' ' :: '\x7d' :: rest) = '\x7d' :: rest := rfl
      simp only [readPairs, hpair, hbrace, bind, Except.bind, pure, Except.pure]
      rfl
    | cons f' fields =>
      let others := joinTexts [',', ' '] (writeFields (f' :: fields)) ++ ' ' :: '\x7d' :: rest
      have hjoin : joinTexts [',', ' '] (writeFields ((key, v) :: f' :: fields)) ++
          ' ' :: '\x7d' :: rest = writePair key (writeValue v) ++ ',' :: ' ' :: others := by
        simp only [others, writeFields, joinTexts_cons_cons]
        simp
      rw [hjoin] at hs
      obtain ⟨last, node, hpair, hlast, hshow⟩ :=
        readPair_writePair hv (endsValue_cons (by simp) _) hs
      have hstart : startsKey others = true := startsKey_writeFields fields _
      have hblanks : skipBlanks (' ' :: others) = others := skipBlanks_of_startsKey hstart
      obtain ⟨pairs, hpairs, hpaths, hshows⟩ :=
        ih (fun f hf => h f (List.mem_cons_of_mem _ hf)) (by simp) hblanks
          (show (f' :: fields).length ≤ fuel by omega)
      refine ⟨⟨[], last, node⟩ :: pairs, ?_, ?_, showsFields_ofEntries_cons hlast hshow hshows⟩
      · have hcomma : skipBlanks (',' :: ' ' :: others) = ',' :: ' ' :: others := rfl
        simp only [readPairs, hpair, hcomma, hblanks, hstart, hpairs, bind, Except.bind, pure,
          Except.pure, ↓reduceIte]
      · intro p hp
        rcases List.mem_cons.mp hp with rfl | hp
        · rfl
        · exact hpaths p hp

/-- Pairs with different names make a table between braces that has them in their order. -/
theorem inlineEntries?_eq (mark : Mark) {pairs : List Pair} (hpaths : ∀ p ∈ pairs, p.path = [])
    (hnames : (Entries.names (pairs.map Pair.entry)).Nodup) :
    inlineEntries? mark pairs = some (pairs.map Pair.entry) := by
  refine Entries.foldlM_put (fun p hp entries hfresh => ?_) hnames
  rw [hpaths p hp]
  exact Entries.put_of_not_mem rfl hfresh

end Pairs

/-! ### Values -/

section Values

variable {size depth : Nat} {rest : List Char}

theorem startsValue_cons {c : Char} (cs : List Char)
    (hc : isBlank c = false ∧ c ≠ '\n' ∧ c ≠ '\r' ∧ c ≠ '#' ∧ c ≠ ']') :
    StartsValue (c :: cs) := ⟨c, cs, rfl, hc⟩

theorem quote_starts (s : String) : ∃ q cs, quote s = q :: cs ∧ (q = '"' ∨ q = '\'') := by
  unfold quote
  cases quotesFor s.toList <;> simp [Quotes.write]

theorem readValue_scalar {c : Char} {cs : List Char} (hbracket : c ≠ '[') (hbrace : c ≠ '\x7b') :
    readValue size depth (c :: cs) =
      (readScalar (c :: cs)).map fun (value, left) => (.scalar (c :: cs) value, left) := by
  unfold readValue
  split <;> simp_all

/-- What a number begins with is nothing that stands between values or begins one of another
kind. -/
theorem withSign_starts (negative : Bool) {whole : List Char} (hwhole : IsWhole whole)
    (rest : List Char) :
    ∃ c cs, withSign negative (whole ++ rest) = c :: cs ∧ (c = '-' ∨ c.isDigit = true) := by
  cases negative with
  | true => exact ⟨'-', _, rfl, .inl rfl⟩
  | false =>
    have hhead := hwhole.head?_append rest
    unfold withSign
    cases h : whole ++ rest with
    | nil => exact absurd (List.append_eq_nil_iff.mp h).1 hwhole.1
    | cons c cs =>
      rw [h] at hhead
      exact ⟨c, cs, rfl, .inr (hhead c rfl)⟩

theorem ne_of_startsNumber {c d : Char} (hc : c = '-' ∨ c.isDigit = true) (hd : d ≠ '-')
    (hdigit : d.isDigit = false) : c ≠ d := by
  rcases hc with rfl | hc
  · exact hd.symm
  · exact ne_of_isDigit hc hdigit

theorem startsValue_withSign (negative : Bool) {whole : List Char} (hwhole : IsWhole whole)
    (rest : List Char) : StartsValue (withSign negative (whole ++ rest)) := by
  obtain ⟨c, cs, heq, hc⟩ := withSign_starts negative hwhole rest
  rw [heq]
  have hspace := ne_of_startsNumber (d := ' ') hc (by decide) rfl
  have htab := ne_of_startsNumber (d := '\t') hc (by decide) rfl
  exact startsValue_cons cs ⟨by simp [isBlank, hspace, htab],
    ne_of_startsNumber hc (by decide) rfl, ne_of_startsNumber hc (by decide) rfl,
    ne_of_startsNumber hc (by decide) rfl, ne_of_startsNumber hc (by decide) rfl⟩

def Scalar.ofNumber : Int ⊕ Real → Scalar
  | .inl n => .int n
  | .inr r => .real r

theorem readValue_withSign (negative : Bool) {whole : List Char} (hwhole : IsWhole whole)
    (hrest : ∀ c ∈ rest.head?, c.isDigit = false ∧ c ≠ '-' ∧ c ≠ ':') {n : Int ⊕ Real}
    {left : List Char} (h : readNumber (withSign negative (whole ++ rest)) = .ok (n, left)) :
    readValue size depth (withSign negative (whole ++ rest)) =
      .ok (.scalar (withSign negative (whole ++ rest)) (.ofNumber n), left) := by
  have hdate := dateTime?_withSign negative hwhole.2.1 hrest
  obtain ⟨c, cs, heq, hc⟩ := withSign_starts negative hwhole rest
  rw [heq] at h hdate ⊢
  have hdouble := ne_of_startsNumber (d := '"') hc (by decide) rfl
  have hsingle := ne_of_startsNumber (d := '\'') hc (by decide) rfl
  have htrue := ne_of_startsNumber (d := 't') hc (by decide) rfl
  have hfalse := ne_of_startsNumber (d := 'f') hc (by decide) rfl
  rw [readValue_scalar (ne_of_startsNumber hc (by decide) rfl)
    (ne_of_startsNumber hc (by decide) rfl)]
  have hscalar : readScalar (c :: cs) = .ok (.ofNumber n, left) := by
    unfold readScalar
    split
    · simp_all
    · simp_all
    · simp only [dropWord?, htrue.symm, hfalse.symm, ↓reduceIte, hdate, h]
      rfl
  rw [hscalar]
  rfl

theorem readsAs_int {n : Int} (hn : -int64Bound ≤ n ∧ n < int64Bound) :
    ReadsAs (readValue size depth) (.int n) := by
  have htext : writeValue (.int n) = withSign (decide (n < 0)) (Nat.toDigits 10 n.natAbs) := by
    rw [writeValue, toList_toString_int]
  have happend (rest : List Char) : writeValue (.int n) ++ rest =
      withSign (decide (n < 0)) (Nat.toDigits 10 n.natAbs ++ rest) := by
    rw [htext]
    unfold withSign
    split <;> rfl
  refine ⟨?_, fun rest hrest => ?_⟩
  · have hstart := startsValue_withSign (decide (n < 0)) (isWhole_toDigits n.natAbs) []
    rwa [List.append_nil, ← htext] at hstart
  · have hnumber := readNumber_int hn hrest
    have hrest' : ∀ c ∈ rest.head?, c.isDigit = false ∧ c ≠ '-' ∧ c ≠ ':' := by
      intro c hc
      rcases hrest c hc with rfl | rfl | rfl | rfl <;> decide
    rw [← writeValue, happend] at hnumber
    refine ⟨.scalar (writeValue (.int n) ++ rest) (.int n), ?_, ?_⟩
    · rw [happend]
      exact readValue_withSign _ (isWhole_toDigits _) hrest' hnumber
    · rw [Datum.ofNode, Json.shows_located, Json.Shows]
      rfl

theorem readsAs_float (x : Binary64) : ReadsAs (readValue size depth) (.float x) := by
  obtain ⟨whole, fraction, htext, hwhole, hne, hdigits, hreal⟩ := toPositional_eq x
  have htext' : writeValue (.float x) = withSign x.negative (whole ++ '.' :: fraction) := by
    rw [writeValue, htext]
  have happend (rest : List Char) : writeValue (.float x) ++ rest =
      withSign x.negative (whole ++ '.' :: (fraction ++ rest)) := by
    rw [htext']
    unfold withSign
    split <;> simp
  refine ⟨?_, fun rest hrest => ?_⟩
  · rw [htext']
    exact startsValue_withSign _ hwhole _
  · have hnumber := readNumber_fraction x.negative hwhole hne hdigits hrest hreal
    have hrest' : ∀ c ∈ ('.' :: (fraction ++ rest)).head?,
        c.isDigit = false ∧ c ≠ '-' ∧ c ≠ ':' := by
      intro c hc
      cases hc
      decide
    refine ⟨.scalar (writeValue (.float x) ++ rest) (.real (.finite x)), ?_, ?_⟩
    · rw [happend]
      exact readValue_withSign _ hwhole hrest' hnumber
    · rw [Datum.ofNode, Json.shows_located, Json.Shows]
      rfl

theorem readsAs_str (s : String) : ReadsAs (readValue size depth) (.str s) := by
  obtain ⟨q, cs, hquote, hq⟩ := quote_starts s
  refine ⟨?_, fun rest hrest => ?_⟩
  · rw [writeValue, hquote]
    rcases hq with rfl | rfl <;> exact startsValue_cons cs (by decide)
  · have hnoQuote : NoQuote rest := ⟨hrest.head_ne (by decide), hrest.head_ne (by decide)⟩
    have hread := readQuoted_quote s hnoQuote
    refine ⟨.scalar (writeValue (.str s) ++ rest) (.str s), ?_, ?_⟩
    · rw [writeValue]
      rw [hquote, List.cons_append] at hread ⊢
      rcases hq with rfl | rfl <;>
        rw [readValue_scalar (by decide) (by decide), readScalar, hread] <;> rfl
    · rw [Datum.ofNode, Json.shows_located, Json.Shows]
      rfl

theorem readsAs_bool (b : Bool) : ReadsAs (readValue size depth) (.bool b) := by
  refine ⟨?_, fun rest _ => ⟨.scalar (writeValue (.bool b) ++ rest) (.bool b), ?_, ?_⟩⟩
  · cases b <;> exact startsValue_cons _ (by decide)
  · have hscalar : readScalar (writeValue (.bool b) ++ rest) = .ok (.bool b, rest) := by
      cases b <;> rfl
    have hvalue : readValue size depth (writeValue (.bool b) ++ rest) =
        (readScalar (writeValue (.bool b) ++ rest)).map fun (value, left) =>
          (.scalar (writeValue (.bool b) ++ rest) value, left) := by
      cases b <;> exact readValue_scalar (by decide) (by decide)
    rw [hvalue, hscalar]
    rfl
  · rw [Datum.ofNode, Json.shows_located, Json.Shows]
    rfl

theorem length_joinTexts (between : List Char) {text : List Char} {texts : List (List Char)}
    (h : text ∈ texts) :
    text.length ≤ (joinTexts between texts).length := by
  induction texts with
  | nil => cases h
  | cons head texts ih =>
    cases texts with
    | nil =>
      rw [List.mem_singleton] at h
      exact h ▸ Nat.le_refl _
    | cons head' texts =>
      rw [joinTexts_cons_cons, List.length_append, List.length_append]
      rcases List.mem_cons.mp h with rfl | h
      · omega
      · have := ih h
        omega

theorem count_joinTexts (between : List Char) {texts : List (List Char)}
    (h : ∀ text ∈ texts, text ≠ []) : texts.length ≤ (joinTexts between texts).length := by
  induction texts with
  | nil => exact Nat.zero_le _
  | cons head texts ih =>
    have hhead := List.length_pos_iff.mpr (h head List.mem_cons_self)
    cases texts with
    | nil => exact hhead
    | cons head' texts =>
      have := ih fun text htext => h text (List.mem_cons_of_mem _ htext)
      rw [joinTexts_cons_cons, List.length_append, List.length_append, List.length_cons]
      omega

theorem length_lines (texts : List (List Char)) :
    texts.length ≤ (texts.flatMap fun text => ['\n', ' ', ' ', ' ', ' '] ++ text ++ [',']).length ∧
      ∀ text ∈ texts, text.length ≤
        (texts.flatMap fun text => ['\n', ' ', ' ', ' ', ' '] ++ text ++ [',']).length := by
  induction texts with
  | nil => simp
  | cons head texts ih =>
    obtain ⟨hcount, hlength⟩ := ih
    rw [List.flatMap_cons, List.length_append]
    simp only [List.length_cons, List.length_append]
    refine ⟨by omega, fun text htext => ?_⟩
    rcases List.mem_cons.mp htext with rfl | htext
    · omega
    · have := hlength text htext
      omega

theorem length_bracketItems (texts : List (List Char)) :
    texts.length ≤ (bracketItems texts).length ∧
      ∀ text ∈ texts, text.length ≤ (bracketItems texts).length := by
  match texts with
  | [] => simp [bracketItems]
  | [item] => simp [bracketItems, Nat.le_add_right_of_le]
  | item :: item' :: texts =>
    obtain ⟨hcount, hlength⟩ := length_lines (item :: item' :: texts)
    simp only [bracketItems, List.length_cons, List.length_append] at hcount hlength ⊢
    refine ⟨by omega, fun text htext => ?_⟩
    have := hlength text htext
    omega

theorem length_bracePairs {texts : List (List Char)} (h : ∀ text ∈ texts, text ≠ []) :
    texts.length ≤ (bracePairs texts).length ∧
      ∀ text ∈ texts, text.length ≤ (bracePairs texts).length := by
  match texts with
  | [] => simp [bracePairs]
  | item :: texts =>
    have hcount := count_joinTexts [',', ' '] h
    simp only [bracePairs, List.length_append, List.length_cons] at hcount ⊢
    refine ⟨by omega, fun text htext => ?_⟩
    have := length_joinTexts [',', ' '] htext
    omega

theorem mem_writeFields {fields : List (String × Json)} {text : List Char} :
    text ∈ writeFields fields ↔ ∃ f ∈ fields, writePair f.1 (writeValue f.2) = text := by
  induction fields with
  | nil => simp [writeFields]
  | cons f fields ih =>
    rw [writeFields, List.mem_cons, ih]
    simp [eq_comm]

theorem ne_nil_of_mem_writeFields {fields : List (String × Json)} {text : List Char}
    (h : text ∈ writeFields fields) : text ≠ [] := by
  rintro rfl
  obtain ⟨f, -, hf⟩ := mem_writeFields.mp h
  simp [writePair] at hf

theorem length_writeFields (fields : List (String × Json)) :
    (writeFields fields).length = fields.length := by
  induction fields with
  | nil => rfl
  | cons f fields ih => rw [writeFields, List.length_cons, ih, List.length_cons]

theorem readsAs_arr {items : List Json}
    (h : ∀ v ∈ items, ReadsAs (readValue size depth) v)
    (hsize : (writeValue (.arr items)).length ≤ size) :
    ReadsAs (readValue size (depth + 1)) (.arr items) := by
  have hcount := (length_bracketItems (writeValues items)).1
  rw [writeValue] at hsize
  rw [writeValues_eq_map, List.length_map, ← writeValues_eq_map] at hcount
  refine ⟨?_, fun rest _ => ?_⟩
  · obtain ⟨s, -, heq, -⟩ := readItems_bracketItems h [] (Nat.lt_succ_of_le hcount)
    rw [List.append_nil] at heq
    rw [writeValue, heq]
    exact startsValue_cons s (by decide)
  · obtain ⟨s, nodes, heq, hread, hshows⟩ :=
      readItems_bracketItems h rest (show items.length < size + 1 by omega)
    refine ⟨.array ('[' :: s) nodes, ?_, ?_⟩
    · rw [writeValue, heq, readValue, hread]
      rfl
    · rw [Datum.ofNode, Json.shows_located, Json.Shows]
      exact ⟨_, .inl rfl, hshows⟩

theorem readsAs_obj {fields : List (String × Json)}
    (h : ∀ f ∈ fields, ReadsAs (readValue size depth) f.2)
    (hnames : (fields.map Prod.fst).Nodup) (hsize : (writeValue (.obj fields)).length ≤ size) :
    ReadsAs (readValue size (depth + 1)) (.obj fields) := by
  have hcount := (length_bracePairs fun text (h : text ∈ writeFields fields) =>
    ne_nil_of_mem_writeFields h).1
  rw [writeValue] at hsize
  rw [length_writeFields] at hcount
  cases fields with
  | nil =>
    refine ⟨startsValue_cons _ (by decide), fun rest _ => ⟨.table (.inline _) [], rfl, ?_⟩⟩
    rw [Datum.ofNode, Json.shows_located]
    exact Json.shows_obj_of_perm rfl (.refl _) .nil showsFields_ofEntries_nil
  | cons f fields =>
    obtain ⟨key, v⟩ := f
    have htext (rest : List Char) : writeValue (.obj ((key, v) :: fields)) ++ rest =
        '\x7b' :: ' ' :: (joinTexts [',', ' '] (writeFields ((key, v) :: fields)) ++
          ' ' :: '\x7d' :: rest) := by
      have hbraces (text : List Char) (texts : List (List Char)) : bracePairs (text :: texts) =
        ['\x7b', ' '] ++ joinTexts [',', ' '] (text :: texts) ++ [' ', '\x7d'] := rfl
      rw [writeValue, writeFields, hbraces]
      simp
    refine ⟨?_, fun rest _ => ?_⟩
    · have := htext []
      rw [List.append_nil] at this
      rw [this]
      exact startsValue_cons _ (by decide)
    · have hstart : startsKey (joinTexts [',', ' '] (writeFields ((key, v) :: fields)) ++
        ' ' :: '\x7d' :: rest) = true := startsKey_writeFields fields _
      obtain ⟨s, hs, hblanks⟩ : ∃ s, writeValue (.obj ((key, v) :: fields)) ++ rest = '\x7b' :: s ∧
          skipBlanks s = joinTexts [',', ' '] (writeFields ((key, v) :: fields)) ++
            ' ' :: '\x7d' :: rest := ⟨_, htext rest, skipBlanks_of_startsKey hstart⟩
      obtain ⟨pairs, hread, hpaths, hshows⟩ := readPairs_writeFields h (by simp) rest hblanks
        (show ((key, v) :: fields).length ≤ size + 1 by omega)
      have hnames' := names_of_showsFields hshows
      have hentries := inlineEntries?_eq ('\x7b' :: s) hpaths (by rwa [hnames'])
      rw [hs]
      refine ⟨.table (.inline ('\x7b' :: s)) (pairs.map Pair.entry), ?_, ?_⟩
      · simp only [readValue, hblanks, hstart, hread, hentries, expect, bind, Except.bind, pure,
          Except.pure, ↓reduceIte]
      · rw [Datum.ofNode, Json.shows_located]
        exact Json.shows_obj_of_perm rfl (.refl _) hnames hshows

mutual

/-- A value that TOML has a form for is read back, if it does not nest too deep. -/
theorem readsAs_value : ∀ (v : Json), v.Every Json.HasToml → v.Every Json.DistinctNames →
    ∀ {size depth : Nat}, v.nesting ≤ depth → (writeValue v).length ≤ size →
      ReadsAs (readValue size depth) v
  | .null, hform, _, _, _, _, _ => hform.elim
  | .bool b, _, _, _, _, _, _ => readsAs_bool b
  | .int _, hform, _, _, _, _, _ => readsAs_int hform
  | .float x, _, _, _, _, _, _ => readsAs_float x
  | .str s, _, _, _, _, _, _ => readsAs_str s
  | .arr items, hform, hnames, _, 0, hdepth, _ => by
    rw [Json.nesting] at hdepth
    omega
  | .arr items, hform, hnames, _, depth + 1, hdepth, hsize => by
    rw [Json.Every] at hform hnames
    rw [Json.nesting] at hdepth
    refine readsAs_arr (readsAs_items items hform.2 hnames.2 (by omega) fun v hv => ?_) hsize
    rw [writeValue] at hsize
    have hlength := (length_bracketItems (writeValues items)).2 (writeValue v)
      (by rw [writeValues_eq_map]; exact List.mem_map_of_mem hv)
    omega
  | .obj fields, hform, hnames, _, 0, hdepth, _ => by
    rw [Json.nesting] at hdepth
    omega
  | .obj fields, hform, hnames, _, depth + 1, hdepth, hsize => by
    rw [Json.Every] at hform hnames
    rw [Json.nesting] at hdepth
    refine readsAs_obj (readsAs_fields fields hform.2 hnames.2 (by omega) fun f hf => ?_) hnames.1
      hsize
    rw [writeValue] at hsize
    have hlength := (length_bracePairs fun _ => ne_nil_of_mem_writeFields).2 _
      (mem_writeFields.mpr ⟨f, hf, rfl⟩)
    simp only [writePair, List.length_append] at hlength
    omega

theorem readsAs_items : ∀ (items : List Json), Json.EveryItem Json.HasToml items →
    Json.EveryItem Json.DistinctNames items → ∀ {size depth : Nat},
      Json.nestingItems items ≤ depth → (∀ v ∈ items, (writeValue v).length ≤ size) →
        ∀ v ∈ items, ReadsAs (readValue size depth) v
  | [], _, _, _, _, _, _ => fun _ hv => nomatch hv
  | v :: items, hform, hnames, _, _, hdepth, hsize => by
    rw [Json.EveryItem] at hform hnames
    rw [Json.nestingItems] at hdepth
    exact List.forall_mem_cons.mpr
      ⟨readsAs_value v hform.1 hnames.1 (by omega) (hsize _ List.mem_cons_self),
        readsAs_items items hform.2 hnames.2 (by omega)
          fun v hv => hsize v (List.mem_cons_of_mem _ hv)⟩

theorem readsAs_fields : ∀ (fields : List (String × Json)), Json.EveryField Json.HasToml fields →
    Json.EveryField Json.DistinctNames fields → ∀ {size depth : Nat},
      Json.nestingFields fields ≤ depth → (∀ f ∈ fields, (writeValue f.2).length ≤ size) →
        ∀ f ∈ fields, ReadsAs (readValue size depth) f.2
  | [], _, _, _, _, _, _ => fun _ hf => nomatch hf
  | (name, v) :: fields, hform, hnames, _, _, hdepth, hsize => by
    rw [Json.EveryField] at hform hnames
    rw [Json.nestingFields] at hdepth
    exact List.forall_mem_cons.mpr
      ⟨readsAs_value v hform.1 hnames.1 (by omega) (hsize _ List.mem_cons_self),
        readsAs_fields fields hform.2 hnames.2 (by omega)
          fun f hf => hsize f (List.mem_cons_of_mem _ hf)⟩

end

end Values

end Toml

end Ferry
