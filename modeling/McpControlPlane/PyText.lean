import Mathlib

/-! # Text as a Python `str` holds it

A string is a list of code points; lone surrogates are code points like any other,
which is why the `Char` of Lean is too small. Decimal and hexadecimal spellings and
the strict UTF-8 encoder are here too. -/
namespace PyText

abbrev CodePoint := Fin 0x110000
abbrev Str := List CodePoint

instance codePoint_neZero : NeZero (0x110000 : ℕ) := ⟨by decide⟩

instance str_lawfulBEq : @LawfulBEq Str List.instBEq := inferInstance
abbrev Bytes := List UInt8

theorem char_lt (c : Char) : c.toNat < 0x110000 := by
  rcases c.valid with h | h
  · have : c.val.toNat < 0xd800 := h
    show c.val.toNat < _
    omega
  · exact h.2

def ch (c : Char) : CodePoint := ⟨c.toNat, char_lt c⟩
def lit (s : String) : Str := s.toList.map ch

def CodePoint.isHigh (c : CodePoint) : Bool := 0xd800 ≤ c.val && c.val ≤ 0xdbff
def CodePoint.isLow (c : CodePoint) : Bool := 0xdc00 ≤ c.val && c.val ≤ 0xdfff
def CodePoint.isSurrogate (c : CodePoint) : Bool := 0xd800 ≤ c.val && c.val ≤ 0xdfff

/-- No surrogates: exactly the strings that strict UTF-8 can encode. -/
def Scalar (s : Str) : Bool := s.all fun c => !c.isSurrogate

theorem scalar_append (s t : Str) : Scalar (s ++ t) = (Scalar s && Scalar t) := List.all_append

theorem scalar_cons (c : CodePoint) (s : Str) : Scalar (c :: s) = (!c.isSurrogate && Scalar s) :=
  List.all_cons

/-! ## Decimal digits -/

def digitCp (d : ℕ) : CodePoint := Fin.ofNat _ (48 + d)
def isDigit (c : CodePoint) : Bool := 48 ≤ c.val && c.val ≤ 57
def digitVal (c : CodePoint) : ℕ := c.val - 48

theorem isDigit_iff (c : CodePoint) : isDigit c = true ↔ 48 ≤ c.val ∧ c.val ≤ 57 := by
  simp [isDigit]

@[simp] theorem digitCp_val {d : ℕ} (h : d < 10) : (digitCp d).val = 48 + d := by
  simp only [digitCp, Fin.ofNat]
  omega

theorem isDigit_digitCp {d : ℕ} (h : d < 10) : isDigit (digitCp d) = true := by
  simp only [isDigit_iff, digitCp_val h]
  omega

theorem digitVal_digitCp {d : ℕ} (h : d < 10) : digitVal (digitCp d) = d := by
  simp only [digitVal, digitCp_val h]
  omega

/-- Most significant digit first, zero being the single digit 0. -/
def natDigitsAux : ℕ → ℕ → List ℕ → List ℕ
  | 0, _, acc => acc
  | fuel + 1, n, acc => if n < 10 then n :: acc else natDigitsAux fuel (n / 10) (n % 10 :: acc)

def natDigits (n : ℕ) : List ℕ := natDigitsAux (n + 1) n []

/-- The value of a digit string, read from the left. -/
def readDigits (ds : List ℕ) : ℕ := ds.foldl (fun a d => 10 * a + d) 0

theorem natDigitsAux_eq (fuel n : ℕ) (acc : List ℕ) (h : n < fuel) (hn : 0 < n) :
    natDigitsAux fuel n acc = (Nat.digits 10 n).reverse ++ acc := by
  induction fuel generalizing n acc with
  | zero => omega
  | succ fuel ih =>
    rw [natDigitsAux, Nat.digits_def' (by omega) hn]
    split
    · rename_i hlt
      simp [Nat.div_eq_of_lt hlt, Nat.mod_eq_of_lt hlt]
    · rw [ih _ _ (by omega) (by omega)]
      simp

theorem natDigits_zero : natDigits 0 = [0] := rfl

theorem natDigits_pos {n : ℕ} (h : 0 < n) : natDigits n = (Nat.digits 10 n).reverse := by
  simp [natDigits, natDigitsAux_eq _ _ _ (Nat.lt_succ_self n) h]

theorem readDigits_eq (ds : List ℕ) : readDigits ds = Nat.ofDigits 10 ds.reverse := by
  have gen : ∀ (ds : List ℕ) (a : ℕ), ds.foldl (fun a d => 10 * a + d) a =
      Nat.ofDigits 10 (ds.reverse ++ [a]) := by
    intro ds
    induction ds with
    | nil => intro a; simp
    | cons d ds ih =>
      intro a
      rw [List.foldl_cons, ih, List.reverse_cons, List.append_assoc, Nat.ofDigits_append,
        Nat.ofDigits_append]
      simp only [List.length_reverse, Nat.ofDigits_cons, Nat.ofDigits_nil, List.nil_append,
        List.cons_append]
      ring
  rw [readDigits, gen]
  simp [Nat.ofDigits_append, Nat.ofDigits]

theorem natDigits_lt (n : ℕ) : ∀ d ∈ natDigits n, d < 10 := by
  rcases Nat.eq_zero_or_pos n with rfl | h
  · simp [natDigits_zero]
  · intro d hd
    rw [natDigits_pos h, List.mem_reverse] at hd
    exact Nat.digits_lt_base (by omega) hd

theorem natDigits_ne_nil (n : ℕ) : natDigits n ≠ [] := by
  rcases Nat.eq_zero_or_pos n with rfl | h
  · simp [natDigits_zero]
  · rw [natDigits_pos h]
    simpa using Nat.digits_ne_nil_iff_ne_zero.mpr (by omega)

theorem readDigits_natDigits (n : ℕ) : readDigits (natDigits n) = n := by
  rcases Nat.eq_zero_or_pos n with rfl | h
  · rfl
  · rw [readDigits_eq, natDigits_pos h, List.reverse_reverse, Nat.ofDigits_digits]

/-- A spelling has no leading zero, zero itself apart. -/
theorem natDigits_head {n : ℕ} (h : 0 < n) : (natDigits n).head? ≠ some 0 := by
  rw [natDigits_pos h, List.head?_reverse]
  intro hz
  have hne : Nat.digits 10 n ≠ [] := Nat.digits_ne_nil_iff_ne_zero.mpr (by omega)
  have hl := Nat.getLast_digit_ne_zero 10 (m := n) (by omega)
  rw [List.getLast?_eq_some_getLast hne] at hz
  exact hl (Option.some.inj hz)

theorem natDigits_length {n : ℕ} (h : 0 < n) : (natDigits n).length = Nat.log 10 n + 1 := by
  rw [natDigits_pos h, List.length_reverse, Nat.length_digits 10 n (by omega) (by omega)]

theorem natDigits_length_le {n k : ℕ} (hk : 0 < k) (h : n < 10 ^ k) :
    (natDigits n).length ≤ k := by
  rcases Nat.eq_zero_or_pos n with rfl | hn
  · rw [natDigits_zero]
    exact hk
  · rw [natDigits_length hn]
    exact Nat.log_lt_of_lt_pow (by omega) h

theorem readDigits_append (ds es : List ℕ) :
    readDigits (ds ++ es) = readDigits ds * 10 ^ es.length + readDigits es := by
  rw [readDigits_eq, readDigits_eq, readDigits_eq, List.reverse_append, Nat.ofDigits_append,
    List.length_reverse]
  ring

theorem readDigits_replicate (z : ℕ) : readDigits (List.replicate z 0) = 0 := by
  rw [readDigits_eq, List.reverse_replicate, Nat.ofDigits_replicate_zero]

theorem readDigits_lt {ds : List ℕ} (h : ∀ d ∈ ds, d < 10) : readDigits ds < 10 ^ ds.length := by
  rw [readDigits_eq, ← List.length_reverse]
  exact Nat.ofDigits_lt_base_pow_length (by omega) (by simpa using h)

/-- The usual decimal spelling of a natural number. -/
def natText (n : ℕ) : Str := (natDigits n).map digitCp

/-! ## Decimal literals -/

/-- A number as JSON and Python spell it; the exponent is a sign (minus) and digits. -/
structure Literal where
  neg : Bool
  int : List ℕ
  frac : Option (List ℕ)
  exp : Option (Bool × List ℕ)
  deriving DecidableEq

def Literal.mantissa (l : Literal) : ℕ := readDigits (l.int ++ l.frac.getD [])

def Literal.expValue (l : Literal) : ℤ :=
  match l.exp with
  | none => 0
  | some (neg, ds) => if neg then -(readDigits ds : ℤ) else readDigits ds

/-- The literal stands for `mantissa * 10^power`, up to its sign. -/
def Literal.power (l : Literal) : ℤ := l.expValue - (l.frac.getD []).length

/-- The grammar `-? (0 | [1-9][0-9]*) (. [0-9]+)? ([eE] [+-]? [0-9]+)?`. -/
structure Literal.WellFormed (l : Literal) : Prop where
  int_digit : ∀ d ∈ l.int, d < 10
  int_head : l.int = [0] ∨ ∃ d ds, l.int = d :: ds ∧ d ≠ 0
  frac_digit : ∀ ds ∈ l.frac, ds ≠ [] ∧ ∀ d ∈ ds, d < 10
  exp_digit : ∀ e ∈ l.exp, e.2 ≠ [] ∧ ∀ d ∈ e.2, d < 10

def minusText (neg : Bool) : Str := if neg then [ch '-'] else []

def fracText : Option (List ℕ) → Str
  | none => []
  | some ds => ch '.' :: ds.map digitCp

def expText : Option (Bool × List ℕ) → Str
  | none => []
  | some (neg, ds) => ch 'e' :: (if neg then ch '-' else ch '+') :: ds.map digitCp

def Literal.text (l : Literal) : Str :=
  minusText l.neg ++ (l.int.map digitCp ++ (fracText l.frac ++ expText l.exp))

/-! ## Digits in a fixed number of places -/

/-- The last `w` digits of `n` in base `b`, most significant first. -/
def fixedDigits (b : ℕ) : ℕ → ℕ → List ℕ
  | 0, _ => []
  | w + 1, n => fixedDigits b w (n / b) ++ [n % b]

@[simp] theorem fixedDigits_length (b w n : ℕ) : (fixedDigits b w n).length = w := by
  induction w generalizing n with
  | zero => rfl
  | succ w ih => simp [fixedDigits, ih]

theorem fixedDigits_lt {b : ℕ} (hb : 0 < b) (w n : ℕ) : ∀ d ∈ fixedDigits b w n, d < b := by
  induction w generalizing n with
  | zero => simp [fixedDigits]
  | succ w ih =>
    intro d hd
    rcases List.mem_append.mp hd with hd | hd
    · exact ih _ d hd
    · rw [List.mem_singleton.mp hd]
      exact Nat.mod_lt _ hb

/-- Read from the left in base `b`, they are the value of the last places. -/
theorem foldl_fixedDigits (b w n : ℕ) :
    (fixedDigits b w n).foldl (fun a d => b * a + d) 0 = n % b ^ w := by
  induction w generalizing n with
  | zero => simp [fixedDigits, Nat.mod_one]
  | succ w ih =>
    rw [fixedDigits, List.foldl_append, ih (n / b), Nat.pow_succ', Nat.mod_mul]
    simp only [List.foldl_cons, List.foldl_nil]
    omega

theorem readDigits_fixedDigits (w n : ℕ) : readDigits (fixedDigits 10 w n) = n % 10 ^ w :=
  foldl_fixedDigits 10 w n

theorem fixedDigits_injective {b w m n : ℕ} (hm : m < b ^ w) (hn : n < b ^ w)
    (h : fixedDigits b w m = fixedDigits b w n) : m = n := by
  induction w generalizing m n with
  | zero => simp only [Nat.pow_zero] at hm hn; omega
  | succ w ih =>
    obtain ⟨hq, hr⟩ := List.append_inj' h rfl
    have hr : m % b = n % b := by simpa using hr
    have hq := ih (Nat.div_lt_of_lt_mul (by rwa [Nat.pow_succ'] at hm))
      (Nat.div_lt_of_lt_mul (by rwa [Nat.pow_succ'] at hn)) hq
    rw [← Nat.div_add_mod m b, ← Nat.div_add_mod n b, hq, hr]

def hexDigit (d : ℕ) : CodePoint := if d < 10 then digitCp d else Fin.ofNat _ (87 + d)

/-- Both letter cases are read; spellings are lower case. -/
def hexVal (c : CodePoint) : Option ℕ :=
  if 48 ≤ c.val ∧ c.val ≤ 57 then some (c.val - 48)
  else if 97 ≤ c.val ∧ c.val ≤ 102 then some (c.val - 87)
  else if 65 ≤ c.val ∧ c.val ≤ 70 then some (c.val - 55)
  else none

theorem hexVal_hexDigit : ∀ d, d < 16 → hexVal (hexDigit d) = some d := by decide

theorem digitCp_injOn : ∀ {d e : ℕ}, d < 10 → e < 10 → digitCp d = digitCp e → d = e := by
  intro d e hd he h
  rw [← digitVal_digitCp hd, ← digitVal_digitCp he, h]

theorem map_injOn_eq {α β : Type*} {f : α → β} {P : α → Prop}
    (hf : ∀ a b, P a → P b → f a = f b → a = b) {xs ys : List α}
    (hx : ∀ a ∈ xs, P a) (hy : ∀ a ∈ ys, P a) (h : xs.map f = ys.map f) : xs = ys := by
  induction xs generalizing ys with
  | nil => cases ys <;> simp_all
  | cons x xs ih =>
    cases ys with
    | nil => simp at h
    | cons y ys =>
      simp only [List.map_cons, List.cons.injEq] at h
      rw [hf x y (hx x (by simp)) (hy y (by simp)) h.1,
        ih (fun a ha => hx a (by simp [ha])) (fun a ha => hy a (by simp [ha])) h.2]

/-- Zero-padded decimal, `w` places. -/
def padDec (w n : ℕ) : Str := (fixedDigits 10 w n).map digitCp

/-- Zero-padded hexadecimal, `w` places. -/
def padHex (w n : ℕ) : Str := (fixedDigits 16 w n).map hexDigit

@[simp] theorem padDec_length (w n : ℕ) : (padDec w n).length = w := by simp [padDec]
@[simp] theorem padHex_length (w n : ℕ) : (padHex w n).length = w := by simp [padHex]

theorem padDec_injective {w m n : ℕ} (hm : m < 10 ^ w) (hn : n < 10 ^ w)
    (h : padDec w m = padDec w n) : m = n :=
  fixedDigits_injective hm hn (map_injOn_eq (P := (· < 10)) (fun _ _ => digitCp_injOn)
    (fixedDigits_lt (by omega) w m) (fixedDigits_lt (by omega) w n) h)

/-! ## Strict UTF-8 -/

def utf8Units (c : CodePoint) : List ℕ :=
  if c.val < 0x80 then [c.val]
  else if c.val < 0x800 then [0xc0 + c.val / 64, 0x80 + c.val % 64]
  else if c.val < 0x10000 then
    [0xe0 + c.val / 4096, 0x80 + c.val / 64 % 64, 0x80 + c.val % 64]
  else
    [0xf0 + c.val / 262144, 0x80 + c.val / 4096 % 64, 0x80 + c.val / 64 % 64, 0x80 + c.val % 64]

/-- `str.encode()`: a surrogate raises `UnicodeEncodeError`. -/
def utf8Encode (s : Str) : Option Bytes :=
  if Scalar s then some ((s.flatMap utf8Units).map UInt8.ofNat) else none

theorem utf8Encode_isSome {s : Str} (h : Scalar s = true) : ∃ b, utf8Encode s = some b := by
  rw [utf8Encode, if_pos h]
  exact ⟨_, rfl⟩

theorem utf8Units_lt (c : CodePoint) : ∀ u ∈ utf8Units c, u < 256 := by
  have := c.isLt
  intro u hu
  simp only [utf8Units] at hu
  split_ifs at hu <;> simp only [List.mem_cons, List.not_mem_nil, or_false] at hu <;> omega

/-- The lead byte fixes the length, so the code is prefix-free. -/
theorem utf8Units_append_inj {c d : CodePoint} {x y : List ℕ}
    (h : utf8Units c ++ x = utf8Units d ++ y) : c = d ∧ x = y := by
  have hc := c.isLt
  have hd := d.isLt
  simp only [utf8Units] at h
  split_ifs at h <;>
    simp only [List.cons_append, List.nil_append, List.cons.injEq] at h <;>
    first
    | exact ⟨Fin.ext (by omega), by tauto⟩
    | omega

theorem utf8Units_ne_nil (c : CodePoint) : utf8Units c ≠ [] := by
  simp only [utf8Units]
  split_ifs <;> simp

theorem utf8_flatMap_injective {s t : Str} (h : s.flatMap utf8Units = t.flatMap utf8Units) :
    s = t := by
  induction s generalizing t with
  | nil =>
    cases t with
    | nil => rfl
    | cons d t =>
      rw [List.flatMap_nil, List.flatMap_cons] at h
      exact absurd (List.append_eq_nil_iff.mp h.symm).1 (utf8Units_ne_nil d)
  | cons c s ih =>
    cases t with
    | nil =>
      rw [List.flatMap_nil, List.flatMap_cons] at h
      exact absurd (List.append_eq_nil_iff.mp h).1 (utf8Units_ne_nil c)
    | cons d t =>
      rw [List.flatMap_cons, List.flatMap_cons] at h
      obtain ⟨rfl, htail⟩ := utf8Units_append_inj h
      rw [ih htail]

theorem utf8Encode_injective {s t : Str} {b : Bytes} (hs : utf8Encode s = some b)
    (ht : utf8Encode t = some b) : s = t := by
  simp only [utf8Encode, Option.ite_none_right_eq_some, Option.some.injEq] at hs ht
  have h := hs.2.trans ht.2.symm
  refine utf8_flatMap_injective (map_injOn_eq (P := (· < 256)) ?_ ?_ ?_ h)
  · intro a b ha hb hab
    have := congrArg UInt8.toNat hab
    simpa [UInt8.toNat_ofNat', Nat.mod_eq_of_lt ha, Nat.mod_eq_of_lt hb] using this
  · simp only [List.mem_flatMap]
    rintro u ⟨c, _, hu⟩
    exact utf8Units_lt c u hu
  · simp only [List.mem_flatMap]
    rintro u ⟨c, _, hu⟩
    exact utf8Units_lt c u hu

example : utf8Encode (lit "a") = some [97] := by decide

end PyText
