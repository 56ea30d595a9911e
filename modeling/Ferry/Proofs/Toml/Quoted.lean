import Ferry.Toml.Reader

/-!
# Quoted text reads back

Every way of quoting a text is undone by the reader, whatever follows the
closing quotes, as long as that is no further quote. The reader's loop is taken
apart into pieces: one lemma for a piece that stands for characters of the value,
one for quotes that belong to the value, and one for the end.
-/
namespace Ferry.Toml

section Scan

variable {step : List Char → Move} {value rest : List Char}

theorem scan_skip (step : List Char → Move) (value piece rest : List Char) :
    scan step piece.length value (piece ++ rest) = scan step 0 value rest := by
  induction piece with
  | nil => rfl
  | cons c piece ih => exact ih

theorem scan_emit {c : Char} (piece : List Char) {cs : List Char}
    (h : step (c :: (piece ++ rest)) = .emit cs piece.length) :
    scan step 0 value (c :: (piece ++ rest)) = scan step 0 (cs.reverse ++ value) rest := by
  rw [scan, h]
  exact scan_skip step _ piece rest

theorem scan_emit_one {c : Char} {cs : List Char} (h : step (c :: rest) = .emit cs 0) :
    scan step 0 value (c :: rest) = scan step 0 (cs.reverse ++ value) rest :=
  scan_emit [] h

theorem scan_close {s cs : List Char} (h : step s = .close cs rest) :
    scan step 0 value s = .ok (value.reverse ++ cs, rest) := by
  cases s <;> simp [scan, h]

theorem scan_flatMap {write : Char → List Char} (cs : List Char)
    (h : ∀ c ∈ cs, ∃ d piece, write c = d :: piece ∧
      ∀ rest, step (d :: (piece ++ rest)) = .emit [c] piece.length) :
    scan step 0 value (cs.flatMap write ++ rest) = scan step 0 (cs.reverse ++ value) rest := by
  induction cs generalizing value with
  | nil => rfl
  | cons c cs ih =>
    obtain ⟨d, piece, hwrite, hstep⟩ := h c List.mem_cons_self
    rw [List.flatMap_cons, List.append_assoc, hwrite, List.cons_append, scan_emit piece (hstep _),
      ih fun c hc => h c (List.mem_cons_of_mem _ hc)]
    simp

/-! ### Runs of quotes inside three quotes -/

variable {q : Char}

theorem takeWhile_replicate (q : Char) (n : Nat) {w : List Char} (hw : w.head? ≠ some q) :
    (List.replicate n q ++ w).takeWhile (· = q) = List.replicate n q := by
  induction n with
  | zero => cases w <;> simp_all
  | succ n ih => simp [List.replicate_succ, ih]

theorem quoteRun_replicate (n : Nat) {w : List Char} (hw : w.head? ≠ some q) :
    quoteRun q (List.replicate n q ++ w) =
      if 3 ≤ min 5 n then
        .close (List.replicate (min 5 n - 3) q) ((List.replicate n q ++ w).drop (min 5 n))
      else .emit [q] 0 := by
  rw [quoteRun, takeWhile_replicate q n hw]
  simp

/-- One or two quotes before something else belong to the value. -/
theorem scan_quotes (hstep : ∀ s, step (q :: s) = quoteRun q (q :: s)) {n : Nat} (hn : n ≤ 2)
    {w : List Char} (hw : w.head? ≠ some q) :
    scan step 0 value (List.replicate n q ++ w) =
      scan step 0 (List.replicate n q ++ value) w := by
  induction n generalizing value with
  | zero => rfl
  | succ n ih =>
    have hemit : step (q :: (List.replicate n q ++ w)) = .emit [q] 0 := by
      have hrun := quoteRun_replicate (n + 1) hw
      rw [if_neg (by omega), List.replicate_succ, List.cons_append] at hrun
      exact (hstep _).trans hrun
    rw [List.replicate_succ, List.cons_append, scan_emit_one hemit, ih (by omega),
      ← List.replicate_succ, List.replicate_succ', List.append_assoc]
    rfl

/-- Up to two quotes before the closing ones belong to the value. -/
theorem scan_closing (hstep : ∀ s, step (q :: s) = quoteRun q (q :: s)) {n : Nat} (hn : n ≤ 2)
    (value : List Char) (hrest : rest.head? ≠ some q) :
    scan step 0 value (List.replicate n q ++ [q, q, q] ++ rest) =
      .ok (value.reverse ++ List.replicate n q, rest) := by
  have hall : List.replicate n q ++ [q, q, q] = List.replicate (n + 3) q :=
    List.replicate_append_replicate (m := 3)
  have hrun := quoteRun_replicate (n + 3) hrest
  rw [if_pos (by omega), show min 5 (n + 3) = n + 3 by omega, List.drop_left' (by simp)] at hrun
  rw [hall]
  refine scan_close (Eq.trans ?_ hrun)
  rw [List.replicate_succ, List.cons_append, hstep]

end Scan

/-! ### Escapes -/

theorem ofHexDigits_fourHexDigits :
    ∀ n < 128, (fourHexDigits n).length = 4 ∧ (fourHexDigits n).all isHexDigit = true ∧
      ofHexDigits (fourHexDigits n) = n := by
  decide +kernel

theorem toNat_lt_of_isControl {c : Char} (h : isControl c = true) : c.toNat < 128 := by
  simp only [isControl, Bool.or_eq_true, Bool.and_eq_true, decide_eq_true_eq] at h
  rcases h with ⟨h, -⟩ | rfl
  · exact Nat.lt_trans h (by decide)
  · decide

theorem codePoint_fourHexDigits {c : Char} (h : isControl c = true) (rest : List Char) :
    codePoint 4 (fourHexDigits c.toNat ++ rest) = .emit [c] 5 := by
  obtain ⟨hlen, hall, hvalue⟩ := ofHexDigits_fourHexDigits c.toNat (toNat_lt_of_isControl h)
  have hvalid : c.toNat.isValidChar := c.valid
  rw [codePoint, List.take_left' hlen, hvalue]
  simp only [hlen, hall, hvalid, and_self, if_true, Char.ofNat_toNat]

/-- What is written for a character between double quotes is an escape of it, or the character
itself, which is then no quote, backslash or control character. -/
theorem escapeChar_cases (c : Char) :
    (∃ d piece, escapeChar c = '\\' :: d :: piece ∧ d ≠ '\n' ∧ d ≠ '\r' ∧ isBlank d = false ∧
        ∀ rest, escape (d :: (piece ++ rest)) = .emit [c] (d :: piece).length) ∨
      (escapeChar c = [c] ∧ c ≠ '"' ∧ c ≠ '\\' ∧ isControl c = false) := by
  by_cases hshort : c ∈ ['\x08', '\t', '\n', '\x0c', '\r', '"', '\\']
  · simp only [List.mem_cons, List.not_mem_nil, or_false] at hshort
    rcases hshort with rfl | rfl | rfl | rfl | rfl | rfl | rfl <;>
      exact .inl ⟨_, [], rfl, by decide, by decide, by decide, fun _ => rfl⟩
  · simp only [List.mem_cons, List.not_mem_nil, or_false, not_or] at hshort
    obtain ⟨hb, ht, hn, hf, hr, hquote, hslash⟩ := hshort
    by_cases hcontrol : isControl c = true
    · refine .inl ⟨'u', fourHexDigits c.toNat, ?_, by decide, by decide, by decide, fun rest => ?_⟩
      · simp [escapeChar, hb, ht, hn, hf, hr, hquote, hslash, hcontrol]
      · have hlen := (ofHexDigits_fourHexDigits c.toNat (toNat_lt_of_isControl hcontrol)).1
        rw [List.length_cons, hlen]
        exact codePoint_fourHexDigits hcontrol rest
    · refine .inr ⟨?_, hquote, hslash, by simpa using hcontrol⟩
      simp [escapeChar, hb, ht, hn, hf, hr, hquote, hslash, hcontrol]

/-! ### One line -/

theorem basicStep_self {c : Char} (hquote : c ≠ '"') (hslash : c ≠ '\\')
    (hcontrol : isControl c = false) (rest : List Char) : basicStep (c :: rest) = .emit [c] 0 := by
  unfold basicStep
  split
  · simp_all
  · simp_all
  · simp_all
  · simp_all

theorem basicStep_escapeChar (c : Char) : ∃ d piece, escapeChar c = d :: piece ∧
    ∀ rest, basicStep (d :: (piece ++ rest)) = .emit [c] piece.length := by
  rcases escapeChar_cases c with ⟨d, piece, hwrite, -, -, -, hescape⟩ | ⟨hwrite, hq, hs, hc⟩
  · exact ⟨'\\', d :: piece, hwrite, hescape⟩
  · exact ⟨c, [], hwrite, fun rest => basicStep_self hq hs hc rest⟩

theorem scan_basic (cs rest : List Char) :
    scan basicStep 0 [] (cs.flatMap escapeChar ++ ['"'] ++ rest) = .ok (cs, rest) := by
  have hclose : basicStep (['"'] ++ rest) = .close [] rest := rfl
  rw [List.append_assoc, scan_flatMap cs fun c _ => basicStep_escapeChar c, scan_close hclose]
  simp

theorem literalStep_self {c : Char} (hquote : c ≠ '\'') (hcontrol : isControl c = false)
    (rest : List Char) : literalStep (c :: rest) = .emit [c] 0 := by
  unfold literalStep
  split <;> simp_all

theorem scan_literal {cs : List Char} (hcs : ∀ c ∈ cs, c ≠ '\'' ∧ isControl c = false)
    (rest : List Char) : scan literalStep 0 [] (cs ++ ['\''] ++ rest) = .ok (cs, rest) := by
  have hscan : scan literalStep 0 [] ((cs.flatMap fun c => [c]) ++ (['\''] ++ rest)) =
      scan literalStep 0 (cs.reverse ++ []) (['\''] ++ rest) :=
    scan_flatMap cs fun c hc => ⟨c, [], rfl, literalStep_self (hcs c hc).1 (hcs c hc).2⟩
  have hclose : literalStep (['\''] ++ rest) = .close [] rest := rfl
  rw [scan_close hclose, List.flatMap_singleton'] at hscan
  simpa using hscan

/-! ### Several lines -/

theorem multilineBasicStep_self {c : Char} (hquote : c ≠ '"') (hslash : c ≠ '\\')
    (hcontrol : isControl c = false) (rest : List Char) :
    multilineBasicStep (c :: rest) = .emit [c] 0 := by
  have hreturn : c ≠ '\r' := by
    rintro rfl
    simp [isControl] at hcontrol
  have hnewline : c ≠ '\n' := by
    rintro rfl
    simp [isControl] at hcontrol
  unfold multilineBasicStep
  split <;> simp_all

theorem multilineBasicStep_escape {d : Char} (hnewline : d ≠ '\n') (hreturn : d ≠ '\r')
    (hblank : isBlank d = false) (rest : List Char) :
    multilineBasicStep ('\\' :: d :: rest) = escape (d :: rest) := by
  have hskip : skipBlanks (d :: rest) = d :: rest := by simp [skipBlanks, hblank]
  have hnone : newline? (d :: rest) = none := by
    unfold newline?
    split <;> simp_all
  simp [multilineBasicStep, hskip, hnone]

theorem multilineBasicStep_escapeChar (c : Char) : ∃ d piece, escapeChar c = d :: piece ∧
    d ≠ '"' ∧ ∀ rest, multilineBasicStep (d :: (piece ++ rest)) = .emit [c] piece.length := by
  rcases escapeChar_cases c with
    ⟨d, piece, hwrite, hnewline, hreturn, hblank, hescape⟩ | ⟨hwrite, hq, hs, hc⟩
  · refine ⟨'\\', d :: piece, hwrite, by decide, fun rest => ?_⟩
    exact (multilineBasicStep_escape hnewline hreturn hblank _).trans (hescape rest)
  · exact ⟨c, [], hwrite, hq, fun rest => multilineBasicStep_self hq hs hc rest⟩

theorem escapeMultiline_of_ne {c : Char} (hquote : c ≠ '"') (hnewline : c ≠ '\n') (n : Nat)
    (cs : List Char) :
    escapeMultiline n (c :: cs) = escapeChar c ++ escapeMultiline 0 cs := by
  rw [escapeMultiline]
  · exact hquote
  · exact hnewline

/-- Every third quote is escaped, so that quotes that stand for themselves never close. The reader
has not looked yet at the last `n` quotes. -/
theorem scan_multilineBasic (cs : List Char) {n : Nat} (hn : n ≤ 2) (value : List Char)
    {rest : List Char} (hrest : rest.head? ≠ some '"') :
    scan multilineBasicStep 0 value
        (List.replicate n '"' ++ (escapeMultiline n cs ++ (['"', '"', '"'] ++ rest))) =
      .ok (value.reverse ++ List.replicate n '"' ++ cs, rest) := by
  have hstep : ∀ s, multilineBasicStep ('"' :: s) = quoteRun '"' ('"' :: s) := fun _ => rfl
  induction cs generalizing n value with
  | nil => simpa [escapeMultiline] using scan_closing hstep hn value hrest
  | cons c cs ih =>
    -- A piece that begins with no quote first makes the quotes before it part of the value.
    have hpiece {d : Char} (piece : List Char) (hd : d ≠ '"')
        (hemit : ∀ rest, multilineBasicStep (d :: (piece ++ rest)) = .emit [c] piece.length) :
        scan multilineBasicStep 0 value (List.replicate n '"' ++
            (d :: piece ++ escapeMultiline 0 cs ++ (['"', '"', '"'] ++ rest))) =
          .ok (value.reverse ++ List.replicate n '"' ++ c :: cs, rest) := by
      rw [List.cons_append, List.cons_append, List.append_assoc,
        scan_quotes hstep hn (by simpa using hd), scan_emit piece (hemit _)]
      simpa using ih (n := 0) (by omega) ([c].reverse ++ (List.replicate n '"' ++ value))
    by_cases hquote : c = '"'
    · subst hquote
      by_cases hlast : n = 2
      · subst hlast
        exact hpiece ['"'] (by decide) fun _ => rfl
      · have := ih (n := n + 1) (by omega) value
        rw [List.replicate_succ', List.append_assoc, List.append_assoc] at this
        simpa [escapeMultiline, hlast] using this
    · by_cases hnewline : c = '\n'
      · subst hnewline
        exact hpiece [] (by decide) fun _ => rfl
      · obtain ⟨d, piece, hwrite, hd, hemit⟩ := multilineBasicStep_escapeChar c
        have hcons : escapeMultiline n (c :: cs) = d :: piece ++ escapeMultiline 0 cs := by
          rw [escapeMultiline_of_ne hquote hnewline, hwrite]
        rw [hcons]
        exact hpiece piece hd hemit

theorem multilineLiteralStep_self {c : Char} (hquote : c ≠ '\'')
    (hcontrol : c = '\n' ∨ isControl c = false) (rest : List Char) :
    multilineLiteralStep (c :: rest) = .emit [c] 0 := by
  have hreturn : c ≠ '\r' := by
    rintro rfl
    simp [isControl] at hcontrol
  unfold multilineLiteralStep
  split <;> simp_all

theorem hasLongRun_of_cons {q c : Char} {cs : List Char} (h : hasLongRun q (c :: cs) = false) :
    hasLongRun q cs = false := by
  match cs with
  | [] | [_] => rfl
  | _ :: _ :: _ => exact (Bool.or_eq_false_iff.mp h).2

theorem hasLongRun_of_replicate {q : Char} {n : Nat} {cs : List Char}
    (h : hasLongRun q (List.replicate n q ++ cs) = false) : hasLongRun q cs = false := by
  induction n with
  | zero => exact h
  | succ n ih => exact ih (hasLongRun_of_cons h)

/-- The reader has not looked yet at the last `n` quotes. -/
theorem scan_multilineLiteral (cs : List Char) {n : Nat} (hn : n ≤ 2) (value : List Char)
    (hcs : ∀ c ∈ cs, c = '\n' ∨ isControl c = false)
    (hrun : hasLongRun '\'' (List.replicate n '\'' ++ cs) = false)
    {rest : List Char} (hrest : rest.head? ≠ some '\'') :
    scan multilineLiteralStep 0 value
        (List.replicate n '\'' ++ (cs ++ (['\'', '\'', '\''] ++ rest))) =
      .ok (value.reverse ++ List.replicate n '\'' ++ cs, rest) := by
  have hstep : ∀ s, multilineLiteralStep ('\'' :: s) = quoteRun '\'' ('\'' :: s) := fun _ => rfl
  induction cs generalizing n value with
  | nil => simpa using scan_closing hstep hn value hrest
  | cons c cs ih =>
    have hcs' : ∀ c ∈ cs, c = '\n' ∨ isControl c = false := fun c hc =>
      hcs c (List.mem_cons_of_mem _ hc)
    by_cases hquote : c = '\''
    · subst hquote
      have hshort : n ≠ 2 := by
        rintro rfl
        simp [hasLongRun] at hrun
      have := ih (n := n + 1) (by omega) value hcs' (by simpa [List.replicate_succ'] using hrun)
      rw [List.replicate_succ', List.append_assoc, List.append_assoc] at this
      simpa using this
    · have hemit := multilineLiteralStep_self hquote (hcs c List.mem_cons_self)
        (cs ++ (['\'', '\'', '\''] ++ rest))
      rw [List.cons_append, scan_quotes hstep hn (by simpa using hquote),
        scan_emit_one hemit]
      simpa using ih (n := 0) (by omega) ([c].reverse ++ (List.replicate n '\'' ++ value)) hcs'
        (hasLongRun_of_cons (hasLongRun_of_replicate hrun))

/-! ### Quoted texts and keys -/

/-- What may follow a quoted text: anything but a quote. -/
def NoQuote (rest : List Char) : Prop := rest.head? ≠ some '"' ∧ rest.head? ≠ some '\''

theorem readQuotedLine_basic (cs rest : List Char) :
    readQuotedLine (Quotes.basic.write cs ++ rest) = .ok (String.ofList cs, rest) := by
  change (scan basicStep 0 [] (cs.flatMap escapeChar ++ ['"'] ++ rest)).map _ = _
  rw [scan_basic]
  rfl

theorem readQuotedLine_literal {cs : List Char} (hcs : ∀ c ∈ cs, c ≠ '\'' ∧ isControl c = false)
    (rest : List Char) :
    readQuotedLine (Quotes.literal.write cs ++ rest) = .ok (String.ofList cs, rest) := by
  change (scan literalStep 0 [] (cs ++ ['\''] ++ rest)).map _ = _
  rw [scan_literal hcs]
  rfl

theorem readQuoted_of_readQuotedLine {s : List Char} (hbasic : ∀ t, s ≠ '"' :: '"' :: '"' :: t)
    (hliteral : ∀ t, s ≠ '\'' :: '\'' :: '\'' :: t) : readQuoted s = readQuotedLine s := by
  unfold readQuoted
  split
  · exact absurd rfl (hbasic _)
  · exact absurd rfl (hliteral _)
  · rfl

theorem readQuoted_write_basic (cs : List Char) {rest : List Char} (hrest : NoQuote rest) :
    readQuoted (Quotes.basic.write cs ++ rest) = .ok (String.ofList cs, rest) := by
  rw [readQuoted_of_readQuotedLine, readQuotedLine_basic]
  · intro t h
    cases cs with
    | nil => exact hrest.1 (by simp_all [Quotes.write])
    | cons c cs =>
      obtain ⟨d, piece, hwrite, hd, -⟩ := multilineBasicStep_escapeChar c
      simp [Quotes.write, hwrite, hd] at h
  · intro t h
    simp [Quotes.write] at h

theorem readQuoted_write_literal {cs : List Char}
    (hcs : ∀ c ∈ cs, c ≠ '\'' ∧ isControl c = false) {rest : List Char} (hrest : NoQuote rest) :
    readQuoted (Quotes.literal.write cs ++ rest) = .ok (String.ofList cs, rest) := by
  rw [readQuoted_of_readQuotedLine, readQuotedLine_literal hcs]
  · intro t h
    simp [Quotes.write] at h
  · intro t h
    cases cs with
    | nil => exact hrest.2 (by simp_all [Quotes.write])
    | cons c cs => simp [Quotes.write, (hcs c List.mem_cons_self).1] at h

theorem newline?_of_head {s : List Char} (hnewline : s.head? ≠ some '\n')
    (hreturn : s.head? ≠ some '\r') : newline? s = none := by
  unfold newline?
  split <;> simp_all

/-- A line end that was put first is skipped, and no other one is. -/
theorem skipFirstNewline_write (cs : List Char) {s : List Char}
    (hs : '\n' ∉ cs → newline? s = none) :
    skipFirstNewline ((if cs.contains '\n' then ['\n'] else []) ++ s) = s := by
  by_cases h : '\n' ∈ cs
  · simp [h, skipFirstNewline, newline?]
  · simp [h, skipFirstNewline, hs h]

theorem newline?_escapeMultiline {cs : List Char} (hcs : '\n' ∉ cs) (rest : List Char) :
    newline? (escapeMultiline 0 cs ++ '"' :: rest) = none := by
  cases cs with
  | nil => rfl
  | cons c cs =>
    have hnewline : c ≠ '\n' := fun h => hcs (h ▸ List.mem_cons_self)
    by_cases hquote : c = '"'
    · subst hquote
      rfl
    · rw [escapeMultiline_of_ne hquote hnewline]
      rcases escapeChar_cases c with ⟨d, piece, hwrite, -⟩ | ⟨hwrite, -, -, hcontrol⟩
      · rw [hwrite]
        rfl
      · rw [hwrite]
        refine newline?_of_head ?_ ?_ <;> rintro ⟨⟩ <;> simp [isControl] at hcontrol

theorem readQuoted_write_multilineBasic (cs : List Char) {rest : List Char}
    (hrest : NoQuote rest) :
    readQuoted (Quotes.multilineBasic.write cs ++ rest) = .ok (String.ofList cs, rest) := by
  have hscan := scan_multilineBasic cs (Nat.zero_le 2) [] hrest.1
  have hskip := skipFirstNewline_write cs fun h =>
    newline?_escapeMultiline h ('"' :: '"' :: rest)
  have hwrite : Quotes.multilineBasic.write cs ++ rest =
      '"' :: '"' :: '"' :: ((if cs.contains '\n' then ['\n'] else []) ++
        (escapeMultiline 0 cs ++ ('"' :: '"' :: '"' :: rest))) := by
    simp [Quotes.write]
  rw [hwrite, readQuoted, hskip]
  simp only [List.replicate_zero, List.nil_append, List.reverse_nil] at hscan
  exact congrArg (Except.map _) hscan

theorem readQuoted_write_multilineLiteral {cs : List Char}
    (hcs : ∀ c ∈ cs, c = '\n' ∨ isControl c = false) (hrun : hasLongRun '\'' cs = false)
    {rest : List Char} (hrest : NoQuote rest) :
    readQuoted (Quotes.multilineLiteral.write cs ++ rest) = .ok (String.ofList cs, rest) := by
  have hscan := scan_multilineLiteral cs (Nat.zero_le 2) [] hcs (by simpa using hrun) hrest.2
  have hskip : skipFirstNewline ((if cs.contains '\n' then ['\n'] else []) ++
      (cs ++ ('\'' :: '\'' :: '\'' :: rest))) = cs ++ ('\'' :: '\'' :: '\'' :: rest) := by
    refine skipFirstNewline_write cs fun h => ?_
    cases cs with
    | nil => rfl
    | cons c cs =>
      have hcontrol := hcs c List.mem_cons_self
      refine newline?_of_head ?_ ?_ <;> rintro ⟨⟩ <;> simp [isControl] at h hcontrol
  have hwrite : Quotes.multilineLiteral.write cs ++ rest =
      '\'' :: '\'' :: '\'' :: ((if cs.contains '\n' then ['\n'] else []) ++
        (cs ++ ('\'' :: '\'' :: '\'' :: rest))) := by
    simp [Quotes.write]
  rw [hwrite, readQuoted, hskip]
  simp only [List.replicate_zero, List.nil_append, List.reverse_nil] at hscan
  exact congrArg (Except.map _) hscan

theorem readQuoted_quote (s : String) {rest : List Char} (hrest : NoQuote rest) :
    readQuoted (quote s ++ rest) = .ok (s, rest) := by
  have hresult : (s, rest) = (String.ofList s.toList, rest) := by rw [String.ofList_toList]
  rw [hresult, quote, quotesFor]
  split
  · exact readQuoted_write_basic _ hrest
  split
  next h =>
    simp only [Bool.and_eq_true, Bool.not_eq_true', List.any_eq_false, List.contains_eq_mem,
      decide_eq_false_iff_not, decide_eq_true_eq, not_and, Decidable.not_not] at h
    obtain ⟨⟨hcontrol, hnewline⟩, hquote⟩ := h
    refine readQuoted_write_literal (fun c hc => ⟨?_, ?_⟩) hrest
    · rintro rfl
      exact hquote hc
    · refine Bool.eq_false_iff.mpr fun hc' => hnewline ?_
      rwa [← hcontrol c hc hc']
  split
  · exact readQuoted_write_multilineBasic _ hrest
  split
  next h =>
    simp only [Bool.and_eq_true, Bool.not_eq_true', List.any_eq_false, decide_eq_true_eq, not_and,
      Decidable.not_not] at h
    refine readQuoted_write_multilineLiteral (fun c hc => ?_) h.2 hrest
    cases hc' : isControl c with
    | false => exact .inr rfl
    | true => exact .inl (h.1 c hc hc')
  split
  · exact readQuoted_write_multilineBasic _ hrest
  · exact readQuoted_write_basic _ hrest

theorem readKeyPart_quoted {key : String} {q : Char} {s rest : List Char}
    (hq : q = '"' ∨ q = '\'') (h : readQuotedLine (q :: s) = .ok (key, rest)) :
    readKeyPart (q :: s) = .ok (⟨key, q :: s⟩, rest) := by
  rcases hq with rfl | rfl <;> exact congrArg (Except.map _) h

theorem readKeyPart_bare {cs rest : List Char} (hcs : cs ≠ []) (hbare : cs.all isBareKeyChar = true)
    (hrest : ∀ c ∈ rest.head?, isBareKeyChar c = false) :
    readKeyPart (cs ++ rest) = .ok (⟨String.ofList cs, cs ++ rest⟩, rest) := by
  have htake : (cs ++ rest).takeWhile isBareKeyChar = cs := by
    rw [List.takeWhile_append_of_pos (by simpa using hbare)]
    cases rest with
    | nil => simp
    | cons c rest => simp [hrest c (by simp)]
  cases cs with
  | nil => exact absurd rfl hcs
  | cons c cs =>
    have hc : isBareKeyChar c = true := (by simpa using hbare : _ ∧ _).1
    have hdouble : c ≠ '"' := by
      rintro rfl
      exact absurd hc (by decide)
    have hsingle : c ≠ '\'' := by
      rintro rfl
      exact absurd hc (by decide)
    unfold readKeyPart
    split
    · simp_all
    · simp_all
    · rw [htake]
      simp

/-- A key reads back, whatever follows it that is no part of a bare key. -/
theorem readKeyPart_writeKey (key : String) {rest : List Char}
    (hrest : ∀ c ∈ rest.head?, isBareKeyChar c = false) :
    readKeyPart (writeKey key ++ rest) = .ok (⟨key, writeKey key ++ rest⟩, rest) := by
  have hkey : String.ofList key.toList = key := String.ofList_toList
  have hbasic : readKeyPart (Quotes.basic.write key.toList ++ rest) =
      .ok (⟨key, Quotes.basic.write key.toList ++ rest⟩, rest) := by
    have := readQuotedLine_basic key.toList rest
    rw [hkey] at this
    exact readKeyPart_quoted (.inl rfl) this
  unfold writeKey
  dsimp only
  split
  next h =>
    simp only [Bool.and_eq_true, Bool.not_eq_true', List.isEmpty_eq_false_iff] at h
    have := readKeyPart_bare h.1 h.2 hrest
    rwa [hkey] at this
  split
  · exact hbasic
  split
  next h =>
    have hcs : ∀ c ∈ key.toList, c ≠ '\'' ∧ isControl c = false := by
      simp only [Bool.and_eq_true, Bool.not_eq_true', List.any_eq_false, List.contains_eq_mem,
        decide_eq_false_iff_not] at h
      intro c hc
      refine ⟨?_, by simpa using h.1 c hc⟩
      rintro rfl
      exact h.2 hc
    have := readQuotedLine_literal hcs rest
    rw [hkey] at this
    exact readKeyPart_quoted (.inr rfl) this
  · exact hbasic

end Ferry.Toml
