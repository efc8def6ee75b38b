import McpControlPlane.PyJson

/-! # `int` of a text

`int(s)` strips white space, takes a sign, single underscores between digits and the decimal
digits of every script, and refuses more than 4300 digits. None of this lets a colon or a
surrogate through. -/
namespace PyInt

open PyText JsonText PyJson

/-- The white space of C, and beyond ASCII what `str.isspace` knows. -/
def isSpace (c : CodePoint) : Bool :=
  9 ≤ c.val && c.val ≤ 13 || c.val = 32 || 0x2000 ≤ c.val && c.val ≤ 0x200a ||
    [0x85, 0xa0, 0x1680, 0x2028, 0x2029, 0x202f, 0x205f, 0x3000].contains c.val

def strip (s : Str) : Str := ((s.dropWhile isSpace).reverse.dropWhile isSpace).reverse

/-- The zeros of the scripts beyond ASCII that have decimal digits. -/
def zeros : List ℕ :=
  [0x660, 0x6f0, 0x7c0, 0x966, 0x9e6, 0xa66, 0xae6, 0xb66, 0xbe6, 0xc66, 0xce6, 0xd66, 0xde6, 0xe50,
    0xed0, 0xf20, 0x1040, 0x1090, 0x17e0, 0x1810, 0x1946, 0x19d0, 0x1a80, 0x1a90, 0x1b50, 0x1bb0,
    0x1c40, 0x1c50, 0xa620, 0xa8d0, 0xa900, 0xa9d0, 0xa9f0, 0xaa50, 0xabf0, 0xff10, 0x104a0,
    0x10d30, 0x11066, 0x110f0, 0x11136, 0x111d0, 0x112f0, 0x11450, 0x114d0, 0x11650, 0x116c0,
    0x11730, 0x118e0, 0x11950, 0x11c50, 0x11d50, 0x11da0, 0x11f50, 0x16a60, 0x16ac0, 0x16b50,
    0x1d7ce, 0x1d7d8, 0x1d7e2, 0x1d7ec, 0x1d7f6, 0x1e140, 0x1e2f0, 0x1e4f0, 0x1e950, 0x1fbf0]

/-- The value of a decimal digit of any script. -/
def decimalValue (c : CodePoint) : Option ℕ :=
  if isDigit c then some (digitVal c)
  else (zeros.find? fun z => z ≤ c.val && c.val ≤ z + 9).map fun z => c.val - z

/-- Digits, single underscores between them. -/
def groupedDigits : Bool → Str → Option (List ℕ)
  | afterDigit, [] => if afterDigit then some [] else none
  | afterDigit, c :: s =>
    match decimalValue c with
    | some d => (groupedDigits true s).map (d :: ·)
    | none => if c = ch '_' ∧ afterDigit then groupedDigits false s else none

/-- `int(s)`; `none` is a `ValueError`. -/
def readInt (s : Str) : Option ℤ :=
  let (neg, ds) := match strip s with
    | c :: rest => if c = ch '-' then (true, rest) else if c = ch '+' then (false, rest)
        else (false, c :: rest)
    | [] => (false, [])
  match groupedDigits false ds with
  | none => none
  | some ds => if ds.length ≤ maxIntDigits then some (intOf neg (readDigits ds)) else none

/-! ## What such a text is made of -/

/-- A character that a text which `int` reads can have. -/
def intChar (c : CodePoint) : Bool :=
  isSpace c || (decimalValue c).isSome || [ch '-', ch '+', ch '_'].contains c

theorem groupedDigits_chars {s : Str} {afterDigit : Bool} {ds : List ℕ}
    (h : groupedDigits afterDigit s = some ds) : ∀ c ∈ s, intChar c = true := by
  induction s generalizing afterDigit ds with
  | nil => exact fun c hc => absurd hc List.not_mem_nil
  | cons c s ih =>
    rw [groupedDigits] at h
    intro c' hc'
    cases hd : decimalValue c with
    | some d =>
      simp only [hd] at h
      obtain ⟨ds', hds', -⟩ := Option.map_eq_some_iff.mp h
      rcases List.mem_cons.mp hc' with rfl | hc'
      · simp [intChar, hd]
      · exact ih hds' c' hc'
    | none =>
      simp only [hd, Option.ite_none_right_eq_some] at h
      obtain ⟨⟨hunder, -⟩, hrest⟩ := h
      rcases List.mem_cons.mp hc' with rfl | hc'
      · simp [intChar, hunder]
      · exact ih hrest c' hc'

/-- What is stripped is white space. -/
theorem mem_strip {s : Str} {c : CodePoint} (hc : c ∈ s) : isSpace c = true ∨ c ∈ strip s := by
  rw [← List.takeWhile_append_dropWhile (p := isSpace) (l := s)] at hc
  rcases List.mem_append.mp hc with hc | hc
  · exact Or.inl (List.mem_takeWhile_imp hc)
  · rw [← List.mem_reverse,
      ← List.takeWhile_append_dropWhile (p := isSpace) (l := (s.dropWhile isSpace).reverse)] at hc
    rcases List.mem_append.mp hc with hc | hc
    · exact Or.inl (List.mem_takeWhile_imp hc)
    · exact Or.inr (List.mem_reverse.mpr hc)

theorem readInt_chars {s : Str} {n : ℤ} (h : readInt s = some n) : ∀ c ∈ s, intChar c = true := by
  intro c hc
  rcases mem_strip hc with hspace | hc
  · simp [intChar, hspace]
  · rw [readInt] at h
    cases hs : strip s with
    | nil =>
      rw [hs] at hc
      exact absurd hc List.not_mem_nil
    | cons d rest =>
      simp only [hs] at h hc
      cases hg : groupedDigits false
          (if d = ch '-' then (true, rest) else if d = ch '+' then (false, rest)
            else (false, d :: rest)).2 with
      | none =>
        simp only [hg] at h
        cases h
      | some ds =>
        have hchars := groupedDigits_chars hg
        split_ifs at hchars with hminus hplus
        · rcases List.mem_cons.mp hc with rfl | hc
          · simp [intChar, hminus]
          · exact hchars c hc
        · rcases List.mem_cons.mp hc with rfl | hc
          · simp [intChar, hplus]
          · exact hchars c hc
        · exact hchars c hc

theorem intChar_colon : intChar (ch ':') = false := by decide +kernel

theorem zeros_scalar : zeros.all (fun z => decide (z + 9 < 0xd800) || decide (0xdfff < z)) = true := by
  decide +kernel

theorem intChar_surrogate {c : CodePoint} (h : intChar c = true) : c.isSurrogate = false := by
  by_contra hs
  simp only [CodePoint.isSurrogate, Bool.not_eq_false, Bool.and_eq_true, decide_eq_true_eq] at hs
  simp only [intChar, Bool.or_eq_true] at h
  rcases h with (hspace | hdigit) | hsign
  · simp only [isSpace, Bool.or_eq_true, Bool.and_eq_true, decide_eq_true_eq, List.contains_eq_mem,
      List.mem_cons, List.not_mem_nil, or_false] at hspace
    omega
  · rw [decimalValue, if_neg (by simp only [isDigit_iff]; omega), Option.isSome_map,
      List.find?_isSome] at hdigit
    obtain ⟨z, hz, hin⟩ := hdigit
    have hscalar := List.all_eq_true.mp zeros_scalar z hz
    simp only [Bool.or_eq_true, Bool.and_eq_true, decide_eq_true_eq] at hin hscalar
    omega
  · simp only [List.contains_eq_mem, List.mem_cons, List.not_mem_nil, or_false,
      decide_eq_true_eq] at hsign
    rcases hsign with rfl | rfl | rfl <;> revert hs <;> decide

/-- Strict UTF-8 encodes what `int` reads. -/
theorem readInt_scalar {s : Str} {n : ℤ} (h : readInt s = some n) : Scalar s = true := by
  rw [Scalar, List.all_eq_true]
  intro c hc
  rw [intChar_surrogate (readInt_chars h c hc)]
  rfl

theorem readInt_colon {s : Str} {n : ℤ} (h : readInt s = some n) : ch ':' ∉ s := by
  intro hc
  have := readInt_chars h _ hc
  rw [intChar_colon] at this
  cases this

end PyInt
