import McpControlPlane.PyJson

/-! # The text of a request body

`json.loads` of bytes: the encoding is guessed from the first bytes, and the bytes are decoded with
surrogates let through. -/
namespace RequestBody

open PyText

inductive Encoding where
  | utf8
  | utf16 (bigEndian : Bool)
  | utf32 (bigEndian : Bool)
  deriving DecidableEq

/-- The encoding of bytes without a byte order mark, by where NUL stands in the first ones. -/
def guessEncoding : Bytes → Encoding
  | b₀ :: b₁ :: b₂ :: b₃ :: _ =>
    if b₀ = 0 then (if b₁ = 0 then .utf32 true else .utf16 true)
    else if b₁ = 0 then (if b₂ = 0 ∧ b₃ = 0 then .utf32 false else .utf16 false)
    else .utf8
  | [b₀, b₁] => if b₀ = 0 then .utf16 true else if b₁ = 0 then .utf16 false else .utf8
  | _ => .utf8

/-- `json.detect_encoding`, with the bytes behind a byte order mark. -/
def detectEncoding (b : Bytes) : Encoding × Bytes :=
  if [0x00, 0x00, 0xfe, 0xff] <+: b then (.utf32 true, b.drop 4)
  else if [0xff, 0xfe, 0x00, 0x00] <+: b then (.utf32 false, b.drop 4)
  else if [0xfe, 0xff] <+: b then (.utf16 true, b.drop 2)
  else if [0xff, 0xfe] <+: b then (.utf16 false, b.drop 2)
  else if [0xef, 0xbb, 0xbf] <+: b then (.utf8, b.drop 3)
  else (guessEncoding b, b)

def continues (b : UInt8) : Bool := 0x80 ≤ b.toNat && b.toNat < 0xc0

def tail6 (b : UInt8) : ℕ := b.toNat % 0x40

/-- One character and the bytes behind it. Overlong forms are refused, surrogates are not. -/
def nextUtf8 : Bytes → Option (CodePoint × Bytes)
  | [] => none
  | a :: rest =>
    if a.toNat < 0x80 then some (Fin.ofNat _ a.toNat, rest)
    else if a.toNat < 0xc2 then none
    else if a.toNat < 0xe0 then
      match rest with
      | b :: rest =>
        if continues b then some (Fin.ofNat _ (a.toNat % 0x20 * 0x40 + tail6 b), rest) else none
      | _ => none
    else if a.toNat < 0xf0 then
      match rest with
      | b :: c :: rest =>
        let v := a.toNat % 0x10 * 0x1000 + tail6 b * 0x40 + tail6 c
        if continues b && continues c && 0x800 ≤ v then some (Fin.ofNat _ v, rest) else none
      | _ => none
    else if a.toNat < 0xf5 then
      match rest with
      | b :: c :: d :: rest =>
        let v := a.toNat % 8 * 0x40000 + tail6 b * 0x1000 + tail6 c * 0x40 + tail6 d
        if continues b && continues c && continues d && 0x10000 ≤ v && v < 0x110000 then
          some (Fin.ofNat _ v, rest)
        else none
      | _ => none
    else none

def unit16 (bigEndian : Bool) (a b : UInt8) : ℕ :=
  if bigEndian then a.toNat * 0x100 + b.toNat else b.toNat * 0x100 + a.toNat

/-- A surrogate without its other half stands for itself. -/
def nextUtf16 (bigEndian : Bool) : Bytes → Option (CodePoint × Bytes)
  | a :: b :: rest =>
    let c : CodePoint := Fin.ofNat _ (unit16 bigEndian a b)
    match rest with
    | a' :: b' :: rest' =>
      let c' : CodePoint := Fin.ofNat _ (unit16 bigEndian a' b')
      if c.isHigh && c'.isLow then
        some (Fin.ofNat _ (0x10000 + (c.val - 0xd800) * 0x400 + (c'.val - 0xdc00)), rest')
      else some (c, rest)
    | _ => some (c, rest)
  | _ => none

def nextUtf32 (bigEndian : Bool) : Bytes → Option (CodePoint × Bytes)
  | a :: b :: c :: d :: rest =>
    let v := if bigEndian then unit16 true a b * 0x10000 + unit16 true c d
      else unit16 false c d * 0x10000 + unit16 false a b
    if v < 0x110000 then some (Fin.ofNat _ v, rest) else none
  | _ => none

def nextChar : Encoding → Bytes → Option (CodePoint × Bytes)
  | .utf8 => nextUtf8
  | .utf16 bigEndian => nextUtf16 bigEndian
  | .utf32 bigEndian => nextUtf32 bigEndian

/-- Each character takes a byte at least. -/
def decodeWith (next : Bytes → Option (CodePoint × Bytes)) : ℕ → Bytes → Option Str
  | _, [] => some []
  | 0, _ => none
  | n + 1, b => do
    let (c, rest) ← next b
    let s ← decodeWith next n rest
    return c :: s

/-- `none` is a `UnicodeDecodeError`. -/
def decodeBody (b : Bytes) : Option Str :=
  let (encoding, b) := detectEncoding b
  decodeWith (nextChar encoding) b.length b

/-! ## Bodies in UTF-8 -/

theorem toNat_unit {n : ℕ} (h : n < 256) : (UInt8.ofNat n).toNat = n := by
  rw [UInt8.toNat_ofNat']
  exact Nat.mod_eq_of_lt h

theorem continues_unit {n : ℕ} (h : n < 64) : continues (UInt8.ofNat (0x80 + n)) = true := by
  rw [continues, toNat_unit (by omega), Bool.and_eq_true, decide_eq_true_eq, decide_eq_true_eq]
  omega

theorem tail6_unit {n : ℕ} (h : n < 64) : tail6 (UInt8.ofNat (0x80 + n)) = n := by
  rw [tail6, toNat_unit (by omega)]
  omega

/-- The bytes of a character are read back as it. -/
theorem nextUtf8_units (c : CodePoint) (rest : Bytes) :
    nextUtf8 ((utf8Units c).map UInt8.ofNat ++ rest) = some (c, rest) := by
  have hc := c.isLt
  have hval : ∀ v, v = c.val → (Fin.ofNat 0x110000 v : CodePoint) = c := by
    rintro v rfl
    exact Fin.ofNat_val_eq_self c
  have h₁ : c.val % 64 < 64 := Nat.mod_lt _ (by omega)
  have h₂ : c.val / 64 % 64 < 64 := Nat.mod_lt _ (by omega)
  have h₃ : c.val / 4096 % 64 < 64 := Nat.mod_lt _ (by omega)
  rw [utf8Units]
  split_ifs with hone htwo hthree
  · have ha := toNat_unit (show c.val < 256 by omega)
    simp only [List.map_cons, List.map_nil, List.cons_append, List.nil_append, nextUtf8, ha]
    rw [if_pos hone, hval _ rfl]
  · have ha := toNat_unit (show 0xc0 + c.val / 64 < 256 by omega)
    simp only [List.map_cons, List.map_nil, List.cons_append, List.nil_append, nextUtf8, ha]
    rw [if_neg (by omega), if_neg (by omega), if_pos (by omega), continues_unit h₁, tail6_unit h₁,
      if_pos rfl, hval _ (by omega)]
  · have ha := toNat_unit (show 0xe0 + c.val / 4096 < 256 by omega)
    simp only [List.map_cons, List.map_nil, List.cons_append, List.nil_append, nextUtf8, ha]
    rw [if_neg (by omega), if_neg (by omega), if_neg (by omega), if_pos (by omega),
      continues_unit h₁, continues_unit h₂, tail6_unit h₁, tail6_unit h₂, hval _ (by omega), if_pos]
    simp only [Bool.and_self, Bool.true_and, decide_eq_true_eq]
    omega
  · have ha := toNat_unit (show 0xf0 + c.val / 262144 < 256 by omega)
    simp only [List.map_cons, List.map_nil, List.cons_append, List.nil_append, nextUtf8, ha]
    rw [if_neg (by omega), if_neg (by omega), if_neg (by omega), if_neg (by omega),
      if_pos (by omega), continues_unit h₁, continues_unit h₂, continues_unit h₃, tail6_unit h₁,
      tail6_unit h₂, tail6_unit h₃, hval _ (by omega), if_pos]
    simp only [Bool.and_self, Bool.true_and, Bool.and_eq_true, decide_eq_true_eq]
    omega

theorem decodeWith_utf8 (s : Str) : ∀ n, s.length ≤ n →
    decodeWith nextUtf8 n ((s.flatMap utf8Units).map UInt8.ofNat) = some s := by
  induction s with
  | nil => intro n _; cases n <;> rfl
  | cons c s ih =>
    intro n hn
    cases n with
    | zero => simp at hn
    | succ n =>
      have hne : (utf8Units c).map UInt8.ofNat ++ (s.flatMap utf8Units).map UInt8.ofNat ≠ [] := by
        simp [utf8Units_ne_nil]
      have hs := ih n (by simpa using hn)
      rw [List.flatMap_cons, List.map_append, decodeWith, nextUtf8_units]
      · simp [hs]
      · exact hne

theorem length_le_units (s : Str) : s.length ≤ (s.flatMap utf8Units).length := by
  induction s with
  | nil => exact Nat.le_refl 0
  | cons c s ih =>
    have hpos := List.length_pos_of_ne_nil (utf8Units_ne_nil c)
    rw [List.flatMap_cons, List.length_append, List.length_cons]
    omega

theorem detectEncoding_ascii {x y : UInt8} {b : Bytes} (hx : 0 < x.toNat ∧ x.toNat < 0x80)
    (hy : 0 < y.toNat) : detectEncoding (x :: y :: b) = (.utf8, x :: y :: b) := by
  have hne : ∀ z : UInt8, (z.toNat = 0 ∨ 0x80 ≤ z.toNat) → z ≠ x := by
    rintro z hz rfl
    omega
  have hx₀ : x ≠ 0 := (hne 0 (Or.inl rfl)).symm
  have hy₀ : y ≠ 0 := by
    rintro rfl
    exact absurd hy (by decide)
  have h₀ := hne 0x00 (Or.inl rfl)
  have h₁ := hne 0xff (Or.inr (by decide))
  have h₂ := hne 0xfe (Or.inr (by decide))
  have h₃ := hne 0xef (Or.inr (by decide))
  have hguess : guessEncoding (x :: y :: b) = .utf8 := by
    unfold guessEncoding
    split
    · rename_i heq
      obtain ⟨rfl, rfl, -⟩ := by simpa using heq
      rw [if_neg hx₀, if_neg hy₀]
    · rename_i heq
      obtain ⟨rfl, rfl, -⟩ := by simpa using heq
      rw [if_neg hx₀, if_neg hy₀]
    · rfl
  rw [detectEncoding, if_neg, if_neg, if_neg, if_neg, if_neg, hguess]
  all_goals
    rw [List.cons_prefix_cons]
    exact fun h => absurd h.1 (by assumption)

/-- A text that opens with two characters of ASCII other than NUL is read from its UTF-8. -/
theorem decodeBody_utf8 {c d : CodePoint} {s : Str} {b : Bytes} (hc : 0 < c.val ∧ c.val < 0x80)
    (hd : 0 < d.val ∧ d.val < 0x80) (hb : utf8Encode (c :: d :: s) = some b) :
    decodeBody b = some (c :: d :: s) := by
  obtain ⟨-, hb⟩ := Option.ite_none_right_eq_some.mp hb
  obtain rfl := Option.some.inj hb
  have hunits : ((c :: d :: s).flatMap utf8Units).map UInt8.ofNat =
      UInt8.ofNat c.val :: UInt8.ofNat d.val :: (s.flatMap utf8Units).map UInt8.ofNat := by
    simp [utf8Units, hc.2, hd.2]
  have hdetect := detectEncoding_ascii (b := (s.flatMap utf8Units).map UInt8.ofNat)
    (x := UInt8.ofNat c.val) (y := UInt8.ofNat d.val)
    (by rw [toNat_unit (by omega)]; exact hc) (by rw [toNat_unit (by omega)]; exact hd.1)
  rw [← hunits] at hdetect
  rw [decodeBody, hdetect]
  refine decodeWith_utf8 _ _ ?_
  rw [List.length_map]
  exact length_le_units _

end RequestBody
