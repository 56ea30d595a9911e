import Ferry.Proofs.Digits
import Ferry.Toml.Complaint

/-!
# Lines of a complaint

A complaint counts the newlines before a place and shows the lines around it. The
two ways to count lines differ at the end of a text only: after a last newline
there is no further line, so the line that a complaint names can be one more than
there are. All that is shown follows from this bound. The lines are read one
after another, and a text is divided accordingly: it is empty, or one line without
an end, or a line with its end and a text after it.
-/
namespace Ferry.Toml

variable {text line rest before after : List Char} {n : Nat}

/-! ### The lines of a text -/

theorem linesFrom_append (hline : '\n' ∉ line) (reversed : List Char) :
    linesFrom reversed (line ++ rest) = linesFrom (line.reverse ++ reversed) rest := by
  induction line generalizing reversed with
  | nil => rfl
  | cons c line ih =>
    obtain ⟨hc, hline⟩ := not_or.mp (mt List.mem_cons.mpr hline)
    have hstep : linesFrom reversed (c :: (line ++ rest)) =
        linesFrom (c :: reversed) (line ++ rest) := by
      rw [linesFrom]
      rintro rfl
      exact hc rfl
    rw [List.cons_append, hstep, ih hline, List.reverse_cons, List.append_assoc,
      List.singleton_append]

@[simp]
theorem linesOf_nil : linesOf [] = [] := rfl

theorem linesOf_eq_singleton (hline : '\n' ∉ line) (hne : line ≠ []) : linesOf line = [line] := by
  have hall : linesFrom [] (line ++ []) = linesFrom (line.reverse ++ []) [] :=
    linesFrom_append hline []
  rw [List.append_nil, List.append_nil] at hall
  rw [linesOf, hall, linesFrom, List.reverse_reverse]
  simpa using hne

theorem linesOf_append_newline (hline : '\n' ∉ line) :
    linesOf (line ++ '\n' :: rest) = dropReturn line :: linesOf rest := by
  rw [linesOf, linesFrom_append hline, List.append_nil, linesFrom, List.reverse_reverse, linesOf]

theorem lines_induction {P : List Char → Prop} (nil : P [])
    (last : ∀ line, '\n' ∉ line → line ≠ [] → P line)
    (newline : ∀ line rest, '\n' ∉ line → P rest → P (line ++ '\n' :: rest))
    (text : List Char) : P text := by
  induction hlength : text.length using Nat.strongRecOn generalizing text with
  | _ length ih =>
    by_cases hmem : '\n' ∈ text
    · obtain ⟨line, rest, rfl, hline⟩ := List.eq_append_cons_of_mem hmem
      refine newline line rest hline (ih rest.length ?_ rest rfl)
      rw [← hlength, List.length_append, List.length_cons]
      omega
    · by_cases hne : text = []
      · rw [hne]
        exact nil
      · exact last text hmem hne

/-- Whether a text ends within a line, so that more of the line could follow. -/
def isOpen (text : List Char) : Bool := text.getLast?.any (· ≠ '\n')

theorem isOpen_of_not_mem (hline : '\n' ∉ line) (hne : line ≠ []) : isOpen line = true := by
  rw [isOpen, List.getLast?_eq_some_getLast hne, Option.any_some, decide_eq_true_eq]
  intro hlast
  exact hline (hlast ▸ List.getLast_mem hne)

theorem isOpen_append (hafter : after ≠ []) : isOpen (before ++ after) = isOpen after := by
  rw [isOpen, isOpen, List.getLast?_append, List.getLast?_eq_some_getLast hafter, Option.some_or]

theorem isOpen_append_newline (line rest : List Char) :
    isOpen (line ++ '\n' :: rest) = isOpen rest := by
  by_cases hrest : rest = []
  · subst hrest
    simp [isOpen]
  · rw [List.append_cons, isOpen_append hrest]

/-- Each newline ends a line, and what stands after the last one is a line unless it is empty. -/
theorem length_linesOf (text : List Char) :
    (linesOf text).length = text.count '\n' + (isOpen text).toNat := by
  induction text using lines_induction with
  | nil => rfl
  | last line hline hne =>
    rw [linesOf_eq_singleton hline hne, List.count_eq_zero_of_not_mem hline,
      isOpen_of_not_mem hline hne, List.length_singleton]
    rfl
  | newline line rest hline ih =>
    rw [linesOf_append_newline hline, List.length_cons, ih, List.count_append,
      List.count_eq_zero_of_not_mem hline, List.count_cons_self, isOpen_append_newline]
    omega

/-- A line ends at a newline, with the carriage return before it if there is one, or at the end of
the text, which is no end of an empty line. -/
def Ends (line ending after : List Char) : Prop :=
  (ending = ['\n'] ∧ line.getLast? ≠ some '\r') ∨ ending = ['\r', '\n'] ∨
    (ending = [] ∧ after = [] ∧ line ≠ [])

/-- A line of a text has as many newlines before it as there are lines before it. -/
def IsLine (text : List Char) (number : Nat) (line : List Char) : Prop :=
  ∃ before ending after, text = before ++ line ++ ending ++ after ∧
    isOpen before = false ∧ number = before.count '\n' + 1 ∧ '\n' ∉ line ∧ Ends line ending after

theorem IsLine.newline_not_mem (h : IsLine text n line) : '\n' ∉ line := by
  obtain ⟨-, -, -, -, -, -, hline, -⟩ := h
  exact hline

theorem ends_of_dropReturn (line after : List Char) :
    ∃ ending, line ++ ['\n'] = dropReturn line ++ ending ∧ Ends (dropReturn line) ending after := by
  unfold dropReturn
  split
  next hreturn =>
    obtain ⟨start, rfl⟩ := List.getLast?_eq_some_iff.mp hreturn
    exact ⟨['\r', '\n'], by simp, .inr (.inl rfl)⟩
  next hreturn => exact ⟨['\n'], rfl, .inl ⟨rfl, hreturn⟩⟩

theorem not_mem_dropReturn {c : Char} (h : c ∉ line) : c ∉ dropReturn line := by
  unfold dropReturn
  split
  · exact fun hmem => h (List.dropLast_subset _ hmem)
  · exact h

theorem isLine_first (hline : '\n' ∉ line) : IsLine (line ++ '\n' :: rest) 1 (dropReturn line) := by
  obtain ⟨ending, htext, hends⟩ := ends_of_dropReturn line rest
  refine ⟨[], ending, rest, ?_, rfl, rfl, not_mem_dropReturn hline, hends⟩
  rw [List.nil_append, ← htext, List.append_assoc, List.singleton_append]

theorem IsLine.after_newline {later : List Char} (h : IsLine rest n later) (hline : '\n' ∉ line) :
    IsLine (line ++ '\n' :: rest) (n + 1) later := by
  obtain ⟨before, ending, after, rfl, hbefore, rfl, hlater, hends⟩ := h
  refine ⟨line ++ '\n' :: before, ending, after, by simp, ?_, ?_, hlater, hends⟩
  · rw [isOpen_append_newline, hbefore]
  · rw [List.count_append, List.count_eq_zero_of_not_mem hline, List.count_cons_self]
    omega

theorem isLine_of_getElem? {i : Nat} (h : (linesOf text)[i]? = some line) :
    IsLine text (i + 1) line := by
  induction text using lines_induction generalizing i with
  | nil => simp at h
  | last whole hwhole hne =>
    rw [linesOf_eq_singleton hwhole hne, List.getElem?_singleton] at h
    split at h
    next hi =>
      cases h
      subst hi
      exact ⟨[], [], [], by simp, rfl, rfl, hwhole, .inr (.inr ⟨rfl, rfl, hne⟩)⟩
    next => cases h
  | newline first rest hfirst ih =>
    rw [linesOf_append_newline hfirst] at h
    cases i with
    | zero =>
      cases h
      exact isLine_first hfirst
    | succ i => exact (ih h).after_newline hfirst

/-! ### The line of a place -/

theorem lineOf_append (before after : List Char) :
    lineOf (before ++ after) after = before.count '\n' + 1 := by
  rw [lineOf, List.length_append, Nat.add_sub_cancel, List.take_left' rfl, Nat.add_comm,
    List.count_eq_length_filter]
  congr 3

/-- A place is on a line of the text or on the one after the last. -/
theorem count_le_length_linesOf (before after : List Char) :
    before.count '\n' ≤ (linesOf (before ++ after)).length := by
  rw [length_linesOf, List.count_append]
  omega

/-- A place is past the lines exactly if it is the end of a text that no line is left open by. -/
theorem length_linesOf_lt_iff :
    (linesOf (before ++ after)).length < before.count '\n' + 1 ↔
      after = [] ∧ isOpen before = false := by
  rw [length_linesOf, List.count_append]
  by_cases hafter : after = []
  · subst hafter
    rw [List.append_nil, List.count_nil, and_iff_right rfl]
    cases isOpen before <;> simp
  · have hmore : 0 < after.count '\n' + (isOpen after).toNat := by
      by_cases hmem : '\n' ∈ after
      · exact Nat.add_pos_left (List.count_pos_iff.mpr hmem) _
      · rw [isOpen_of_not_mem hmem hafter]
        exact Nat.succ_pos _
    rw [isOpen_append hafter]
    constructor
    · intro hlt
      omega
    · exact fun h => absurd h.1 hafter

/-! ### The lines shown -/

/-- The lines around a line of a text with their numbers, from the one before it to the second after
it, as far as the text has them. -/
def window (text : List Char) (n : Nat) : List (List Char × Nat) :=
  ((linesOf text).zipIdx 1).filter fun (_, i) =>
    max 1 (n - 1) ≤ i ∧ i ≤ min (n + 2) (linesOf text).length

/-- The part of a list from one place up to another, which has to be in range. -/
def slice? {α : Type} (l : List α) (first last : Nat) : Option (List α) :=
  if first ≤ last ∧ last ≤ l.length then some ((l.take last).drop first) else none

theorem isLine_of_mem_window {i : Nat} (h : (line, i) ∈ window text n) : IsLine text i line := by
  obtain ⟨hpos, hline⟩ := List.mk_mem_zipIdx_iff_le_and_getElem?_sub.mp (List.mem_filter.mp h).1
  have htrue := isLine_of_getElem? hline
  rwa [Nat.sub_add_cancel hpos] at htrue

theorem filter_zipIdx {α : Type} (l : List α) (k first last : Nat) :
    (l.zipIdx k).filter (fun (_, i) => first ≤ i ∧ i < last) =
      ((l.take (last - k)).drop (first - k)).zipIdx (max k first) := by
  induction l generalizing k with
  | nil => simp
  | cons x l ih =>
    rw [List.zipIdx_cons, List.filter_cons, ih (k + 1)]
    by_cases hlast : k < last
    · have htake : last - k = last - (k + 1) + 1 := by omega
      rw [htake, List.take_succ_cons]
      by_cases hfirst : first ≤ k
      · have hdrop : first - k = 0 ∧ first - (k + 1) = 0 := by omega
        have hmax : max k first = k ∧ max (k + 1) first = k + 1 := by omega
        simp [hdrop, hmax, hfirst, hlast]
      · have hdrop : first - k = first - (k + 1) + 1 := by omega
        have hmax : max (k + 1) first = max k first := by omega
        rw [hdrop, List.drop_succ_cons, hmax, if_neg (by simp [hfirst])]
    · have htake : last - k = 0 ∧ last - (k + 1) = 0 := by omega
      simp [htake, hlast]

theorem slice?_eq (lines : List (List Char)) (n : Nat) :
    slice? lines (min (n - 2) (min (n + 2) lines.length)) (min (n + 2) lines.length) =
      some ((lines.take (n + 2)).drop (n - 2)) := by
  have hrange : min (n - 2) (min (n + 2) lines.length) ≤ min (n + 2) lines.length ∧
      min (n + 2) lines.length ≤ lines.length := by omega
  have hdrop : (lines.take (n + 2)).drop (n - 2) = _ := List.drop_eq_drop_min
  rw [slice?, if_pos hrange, ← List.take_eq_take_min, hdrop, List.length_take]

theorem window_eq (text : List Char) (n : Nat) :
    window text n = (((linesOf text).take (n + 2)).drop (n - 2)).zipIdx (n - 2 + 1) := by
  have hbounds : window text n =
      ((linesOf text).zipIdx 1).filter fun (_, i) => n - 1 ≤ i ∧ i < n + 3 := by
    refine List.filter_congr fun (line, i) hmem => ?_
    obtain ⟨hpos, hline⟩ := List.mk_mem_zipIdx_iff_le_and_getElem?_sub.mp hmem
    have hlt := (List.getElem?_eq_some_iff.mp hline).1
    rw [decide_eq_decide]
    omega
  have hfirst : n - 1 - 1 = n - 2 ∧ max 1 (n - 1) = n - 2 + 1 := by omega
  rw [hbounds, filter_zipIdx, hfirst.1, hfirst.2]
  rfl

theorem window_numbers (text : List Char) (n : Nat) :
    (window text n).map Prod.snd =
      List.range' (max 1 (n - 1)) (min (n + 2) (linesOf text).length + 1 - max 1 (n - 1)) := by
  rw [window_eq, List.zipIdx_map_snd, List.length_drop, List.length_take]
  congr 1 <;> omega

/-! ### The rows of a context -/

/-- A row: a mark or three spaces, a number at the right of four columns, a bar, and the text of a
line. -/
def rowOf (mark : String) (number : Nat) (line : List Char) : List Char :=
  let digits := Nat.toDigits 10 number
  mark.toList ++ [' '] ++ List.replicate (4 - digits.length) ' ' ++ digits ++ [' ', '|', ' '] ++
    line

def markOf (n number : Nat) : String := if number = n then ">>>" else "   "

theorem showLine_eq (n i : Nat) (line : List Char) :
    showLine n i line = String.ofList (rowOf (markOf n i) i line) := by
  apply String.toList_injective
  simp [showLine, padLeft, rowOf, markOf, Nat.toString_eq_repr, Nat.repr_eq_ofList_toDigits]

theorem lineContext_eq (text : List Char) (n : Nat) :
    lineContext text n = "\n".intercalate
      ((window text n).map fun (line, i) => String.ofList (rowOf (markOf n i) i line)) := by
  have hnumber (i : Nat) : n - 2 + 1 + i = n - 2 + i + 1 := by omega
  rw [window_eq, lineContext, List.mapIdx_eq_zipIdx_map,
    List.zipIdx_eq_map_add (i := n - 2 + 1), List.map_map]
  refine congrArg _ (List.map_congr_left fun (line, i) _ => ?_)
  simp only [Function.comp_apply, hnumber, showLine_eq]

def IsMarked (row : List Char) : Prop := ">>>".toList <+: row

instance (row : List Char) : Decidable (IsMarked row) := inferInstanceAs (Decidable (_ <+: _))

def rows (context : String) : List (List Char) := context.toList.splitOn '\n'

theorem isMarked_rowOf (n i : Nat) (line : List Char) :
    IsMarked (rowOf (markOf n i) i line) ↔ i = n := by
  unfold IsMarked rowOf markOf
  split <;> simp_all

theorem newline_not_mem_rowOf (n i : Nat) (hline : '\n' ∉ line) :
    '\n' ∉ rowOf (markOf n i) i line := by
  have hnumber : '\n' ∉ Nat.toDigits 10 i := by
    intro hmem
    exact ne_of_isDigit (Nat.isDigit_of_mem_toDigits (by omega) (by omega) hmem) (by rfl) rfl
  unfold rowOf markOf
  split <;> simp_all

theorem rows_intercalate {texts : List String} (h : ∀ row ∈ texts, '\n' ∉ row.toList)
    (hne : texts ≠ []) : rows ("\n".intercalate texts) = texts.map String.toList := by
  rw [rows, String.toList_intercalate]
  refine List.splitOn_intercalate _ ?_ (by simpa using hne)
  simpa using h

theorem filter_window (text : List Char) (hn : 0 < n) :
    (window text n).filter (fun (_, i) => i = n) =
      ((linesOf text)[n - 1]?).toList.map fun line => (line, n) := by
  have hone : (window text n).filter (fun (_, i) => i = n) =
      ((linesOf text).zipIdx 1).filter fun (_, i) => n ≤ i ∧ i < n + 1 := by
    rw [window, List.filter_filter]
    refine List.filter_congr fun (line, i) hmem => ?_
    obtain ⟨hpos, hline⟩ := List.mk_mem_zipIdx_iff_le_and_getElem?_sub.mp hmem
    have hlt := (List.getElem?_eq_some_iff.mp hline).1
    rw [← Bool.decide_and, decide_eq_decide]
    omega
  have hplace : n + 1 - 1 - (n - 1) = 1 ∧ max 1 n = n := by omega
  rw [hone, filter_zipIdx, List.drop_take, hplace.1, hplace.2, List.take_one, List.head?_drop]
  cases (linesOf text)[n - 1]? <;> rfl

/-- A row is the text of one line shown, as no line has a newline in it. -/
theorem rows_lineContext (hne : window text n ≠ []) :
    rows (lineContext text n) =
      (window text n).map fun (line, i) => rowOf (markOf n i) i line := by
  rw [lineContext_eq, rows_intercalate _ (by simpa using hne), List.map_map]
  · simp [Function.comp_def]
  · intro row hrow
    obtain ⟨⟨line, i⟩, hmem, rfl⟩ := List.mem_map.mp hrow
    rw [String.toList_ofList]
    exact newline_not_mem_rowOf n i (isLine_of_mem_window hmem).newline_not_mem

theorem filter_rows_lineContext (text : List Char) (hn : 0 < n) :
    (rows (lineContext text n)).filter (IsMarked ·) =
      ((linesOf text)[n - 1]?).toList.map fun line => rowOf ">>>" n line := by
  have hshown := filter_window text hn
  by_cases hne : window text n = []
  · have hempty : rows (lineContext text n) = [[]] := by
      rw [lineContext_eq, hne]
      rfl
    rw [hne, List.filter_nil, eq_comm, List.map_eq_nil_iff] at hshown
    rw [hempty, hshown]
    rfl
  · have hmarked : ((IsMarked ·) : List Char → Bool) ∘
        (fun (line, i) => rowOf (markOf n i) i line) = fun (_, i) => decide (i = n) := by
      funext (line, i)
      exact decide_eq_decide.mpr (isMarked_rowOf n i line)
    have hmark : markOf n n = ">>>" := if_pos rfl
    rw [rows_lineContext hne, List.filter_map, hmarked, hshown, List.map_map]
    simp only [Function.comp_def, hmark]

theorem complaint_some (text : List Char) (mark : Mark) (reason : String) :
    complaint text (some mark) reason =
      "TOML parsing error at line " ++ toString (lineOf text mark) ++ ":\n" ++
        lineContext text (lineOf text mark) ++ "\n\nError: " ++ reason := rfl

/-- What the context of a line is: the lines around it, and a mark where the text has the line. -/
structure ContextAt (text : List Char) (n : Nat) (context : String) : Prop where
  counted : (linesOf text).length = text.count '\n' + (isOpen text).toNat
  bounded : n ≤ (linesOf text).length + 1
  inRange : ∃ shown,
    slice? (linesOf text) (min (n - 2) (min (n + 2) (linesOf text).length))
      (min (n + 2) (linesOf text).length) = some shown ∧
    window text n = shown.zipIdx (n - 2 + 1)
  numbers : (window text n).map Prod.snd =
    List.range' (max 1 (n - 1)) (min (n + 2) (linesOf text).length + 1 - max 1 (n - 1))
  lines : ∀ line i, (line, i) ∈ window text n → IsLine text i line
  shown : context = "\n".intercalate
    ((window text n).map fun (line, i) => String.ofList (rowOf (markOf n i) i line))
  marked : n ≤ (linesOf text).length → ∃ line, (linesOf text)[n - 1]? = some line ∧
    (rows context).filter (IsMarked ·) = [rowOf ">>>" n line]
  unmarked : (linesOf text).length < n → (rows context).filter (IsMarked ·) = []

theorem contextAt_append (before after : List Char) :
    ContextAt (before ++ after) (before.count '\n' + 1)
      (lineContext (before ++ after) (before.count '\n' + 1)) where
  counted := length_linesOf _
  bounded := Nat.succ_le_succ (count_le_length_linesOf before after)
  inRange := ⟨_, slice?_eq _ _, window_eq _ _⟩
  numbers := window_numbers _ _
  lines := fun _ _ => isLine_of_mem_window
  shown := lineContext_eq _ _
  marked := by
    intro hle
    have hline := List.getElem?_eq_getElem (show before.count '\n' + 1 - 1 < _ from hle)
    refine ⟨_, hline, ?_⟩
    rw [filter_rows_lineContext _ (Nat.succ_pos _), hline]
    rfl
  unmarked := by
    intro hlt
    have hnone := List.getElem?_eq_none
      (show _ ≤ before.count '\n' + 1 - 1 from Nat.lt_succ_iff.mp hlt)
    rw [filter_rows_lineContext _ (Nat.succ_pos _), hnone]
    rfl

/-- A complaint about any place of a text, its end included, names the line that the newlines before
the place tell, and shows that line and those around it as far as there are any. The text lacks the
line only if the place is its end and follows a newline or nothing. -/
theorem complaint_at_offset {text : String} {offset : String.Pos.Raw} (h : offset.IsValid text) :
    ∃ before after : String, text = before ++ after ∧ offset = before.rawEndPos ∧
      ∃ n context, n = before.toList.count '\n' + 1 ∧ ContextAt text.toList n context ∧
        ((linesOf text.toList).length < n ↔ after.toList = [] ∧ isOpen before.toList = false) ∧
        ∀ reason, complaint text.toList (some after.toList) reason =
          "TOML parsing error at line " ++ toString n ++ ":\n" ++ context ++ "\n\nError: " ++
            reason := by
  obtain ⟨before, after, rfl, rfl⟩ := String.Pos.Raw.isValid_iff_exists_append.mp h
  have hcontext := contextAt_append before.toList after.toList
  rw [← String.toList_append] at hcontext
  refine ⟨before, after, rfl, rfl, _, _, rfl, hcontext, ?_, ?_⟩
  · rw [String.toList_append]
    exact length_linesOf_lt_iff
  · intro reason
    rw [complaint_some, String.toList_append, lineOf_append]

/-- At the end of a text that a newline ends, the line complained of is one that the text lacks. -/
theorem past_the_newline_unmarked :
    String.Pos.Raw.IsValid "é = 1\r\n" ⟨8⟩ ∧ ContextAt "é = 1\r\n".toList 2 "       1 | é = 1" ∧
      (rows "       1 | é = 1").filter (IsMarked ·) = [] := by
  have hvalid : String.Pos.Raw.IsValid "é = 1\r\n" ⟨8⟩ :=
    String.Pos.Raw.isValid_iff_exists_append.mpr ⟨"é = 1\r\n", "", by simp, by decide⟩
  obtain ⟨before, after, htext, hoffset, n, context, hn, hat, -, -⟩ :=
    complaint_at_offset hvalid
  have hafter : after.utf8ByteSize = 0 := by
    have hwhole := congrArg String.utf8ByteSize htext
    have hbefore : 8 = before.utf8ByteSize := congrArg String.Pos.Raw.byteIdx hoffset
    rw [String.utf8ByteSize_append, ← hbefore] at hwhole
    exact Nat.add_left_cancel hwhole.symm
  rw [String.utf8ByteSize_eq_zero_iff.mp hafter, String.append_empty] at htext
  rw [← htext, show "é = 1\r\n".toList.count '\n' + 1 = 2 by decide +kernel] at hn
  have hshown : "\n".intercalate ((window "é = 1\r\n".toList 2).map fun (line, i) =>
      String.ofList (rowOf (markOf 2 i) i line)) = "       1 | é = 1" := by decide +kernel
  subst hn
  have hcontext := hat.shown
  rw [hshown] at hcontext
  rw [hcontext] at hat
  exact ⟨hvalid, hat, hat.unmarked (by decide +kernel)⟩

end Ferry.Toml
