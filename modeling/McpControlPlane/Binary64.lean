import McpControlPlane.PyText

/-! # Double precision numbers and their shortest decimal spelling

A finite number is a whole multiple of 2^-1074. Rounding is to nearest, ties to even,
and `repr` searches for the fewest digits that read back as the same number. -/
namespace Binary64

open PyText

/-- Every finite number is a whole multiple of 2^-scale. -/
def scale : ℕ := 1074

theorem scale_pos : 0 < scale := by decide

/-- `mant * 2^shift` in units of 2^-scale; `normal` makes the representation unique. -/
structure Magnitude where
  mant : ℕ
  shift : ℕ
  mant_lt : mant < 2 ^ 53
  shift_le : shift ≤ 2045
  normal : shift = 0 ∨ 2 ^ 52 ≤ mant
  deriving DecidableEq

def Magnitude.units (x : Magnitude) : ℕ := x.mant * 2 ^ x.shift

inductive Float64 where
  | finite (neg : Bool) (mag : Magnitude)
  | inf (neg : Bool)
  | nan
  deriving DecidableEq

/-! ## Rounding -/

/-- The integer nearest to `n / d`, ties to even. -/
def roundDiv (n d : ℕ) : ℕ :=
  if 2 * (n % d) < d then n / d
  else if d < 2 * (n % d) then n / d + 1
  else n / d + n / d % 2

/-- How many low bits of a value of integer part `n` a 53 bit mantissa has to drop. -/
def dropped (n : ℕ) : ℕ := Nat.log2 n - 52

theorem floor_le_roundDiv (n d : ℕ) : n / d ≤ roundDiv n d := by
  unfold roundDiv
  split_ifs <;> omega

theorem roundDiv_le (n d : ℕ) : roundDiv n d ≤ n / d + 1 := by
  unfold roundDiv
  split_ifs <;> omega

theorem roundDiv_mul (a : ℕ) {d : ℕ} (h : 0 < d) : roundDiv (a * d) d = a := by
  simp [roundDiv, Nat.mul_mod_left, Nat.mul_div_cancel a h, h]

theorem roundDiv_scale (n d : ℕ) {c : ℕ} (h : 0 < c) : roundDiv (n * c) (d * c) = roundDiv n d := by
  have hm : 2 * (n % d * c) = 2 * (n % d) * c := by ring
  simp only [roundDiv, Nat.mul_mod_mul_right, Nat.mul_div_mul_right n d h, hm,
    Nat.mul_lt_mul_right h]

theorem floor_lt (num den : ℕ) : num / (den * 2 ^ dropped (num / den)) < 2 ^ 53 := by
  rw [← Nat.div_div_eq_div_mul, Nat.div_lt_iff_lt_mul (by positivity), ← Nat.pow_add]
  exact lt_of_lt_of_le Nat.lt_log2_self (Nat.pow_le_pow_right (by omega) (by
    unfold dropped; omega))

theorem floor_normal {num den : ℕ} (h : dropped (num / den) ≠ 0) :
    2 ^ 52 ≤ num / (den * 2 ^ dropped (num / den)) := by
  unfold dropped at h ⊢
  have hne : num / den ≠ 0 := by
    intro hz
    simp [hz] at h
  rw [← Nat.div_div_eq_div_mul, Nat.le_div_iff_mul_le (by positivity), ← Nat.pow_add]
  exact le_trans (Nat.pow_le_pow_right (by omega) (by omega)) (Nat.log2_self_le hne)

/-- The magnitude nearest to `num / den` units, `none` on overflow. -/
def roundMagnitude (num den : ℕ) : Option Magnitude :=
  let s := dropped (num / den)
  let m := roundDiv num (den * 2 ^ s)
  if hm : m < 2 ^ 53 then
    if hs : s ≤ 2045 then
      some ⟨m, s, hm, hs, by
        by_cases hz : s = 0
        · exact Or.inl hz
        · exact Or.inr ((floor_normal hz).trans (floor_le_roundDiv _ _))⟩
    else none
  else if hs : s + 1 ≤ 2045 then some ⟨2 ^ 52, s + 1, by norm_num, hs, Or.inr le_rfl⟩
  else none

theorem dropped_units (x : Magnitude) : dropped x.units = x.shift := by
  rcases x with ⟨m, s, hm, hs, hn⟩
  simp only [Magnitude.units, dropped]
  by_cases hz : m = 0
  · subst hz
    rcases hn with rfl | h
    · simp
    · norm_num at h
  · have hlog : Nat.log2 (m * 2 ^ s) = Nat.log2 m + s := by
      rw [Nat.log2_eq_iff (by positivity)]
      constructor
      · rw [Nat.pow_add]
        exact Nat.mul_le_mul_right _ (Nat.log2_self_le hz)
      · rw [show Nat.log2 m + s + 1 = (Nat.log2 m + 1) + s by omega, Nat.pow_add]
        exact Nat.mul_lt_mul_of_pos_right Nat.lt_log2_self (by positivity)
    have hlt : Nat.log2 m < 53 := (Nat.log2_lt hz).mpr hm
    rw [hlog]
    rcases hn with rfl | h
    · omega
    · have : 52 ≤ Nat.log2 m := (Nat.le_log2 hz).mpr h
      omega

/-- A representable value rounds to itself, in whatever fraction it is written. -/
theorem roundMagnitude_exact (x : Magnitude) {k : ℕ} (hk : 0 < k) :
    roundMagnitude (x.units * k) k = some x := by
  have hd : dropped (x.units * k / k) = x.shift := by
    rw [Nat.mul_div_cancel _ hk, dropped_units]
  have hm : roundDiv (x.units * k) (k * 2 ^ x.shift) = x.mant := by
    rw [show x.units * k = x.mant * (k * 2 ^ x.shift) by unfold Magnitude.units; ring]
    exact roundDiv_mul _ (by positivity)
  simp only [roundMagnitude, hd, hm, x.mant_lt, x.shift_le, dite_true]

theorem roundMagnitude_scale (a b : ℕ) {c : ℕ} (hc : 0 < c) :
    roundMagnitude (a * c) (b * c) = roundMagnitude a b := by
  have hm : roundDiv (a * c) (b * c * 2 ^ dropped (a / b)) =
      roundDiv a (b * 2 ^ dropped (a / b)) := by
    rw [show b * c * 2 ^ dropped (a / b) = b * 2 ^ dropped (a / b) * c by ring,
      roundDiv_scale a _ hc]
  simp only [roundMagnitude, Nat.mul_div_mul_right a b hc, hm]

/-- Rounding looks at the value of the fraction only. -/
theorem roundMagnitude_congr {a b a' b' : ℕ} (hb : 0 < b) (hb' : 0 < b')
    (h : a * b' = a' * b) : roundMagnitude a b = roundMagnitude a' b' := by
  rw [← roundMagnitude_scale a b hb', ← roundMagnitude_scale a' b' hb, h, Nat.mul_comm b b']

theorem roundDiv_le_of_le {n d k : ℕ} (hd : 0 < d) (h : n ≤ k * d) : roundDiv n d ≤ k := by
  have hn : n / d * d + n % d = n := Nat.div_add_mod' n d
  have hr := Nat.mod_lt n hd
  have hq : n / d ≤ k := Nat.div_le_of_le_mul (by rwa [Nat.mul_comm])
  rcases Nat.eq_or_lt_of_le hq with he | hlt
  · have hz : n % d = 0 := by
      rw [he] at hn
      omega
    simp only [roundDiv, hz, he]
    split_ifs <;> omega
  · exact (roundDiv_le n d).trans hlt

theorem le_roundDiv_of_le {n d k : ℕ} (hd : 0 < d) (h : k * d ≤ n) : k ≤ roundDiv n d :=
  ((Nat.le_div_iff_mul_le hd).mpr h).trans (floor_le_roundDiv n d)

/-- What the result of a rounding weighs, before its mantissa is renormalised. -/
theorem roundMagnitude_units {num den : ℕ} {x : Magnitude} (h : roundMagnitude num den = some x) :
    x.units = roundDiv num (den * 2 ^ dropped (num / den)) * 2 ^ dropped (num / den) := by
  simp only [roundMagnitude] at h
  split_ifs at h with hm hs hs
  · rw [← Option.some.inj h, Magnitude.units]
  · have hle := (roundDiv_le num (den * 2 ^ dropped (num / den))).trans
      (Nat.succ_le_of_lt (floor_lt num den))
    have he : roundDiv num (den * 2 ^ dropped (num / den)) = 2 ^ 53 := by omega
    rw [← Option.some.inj h, Magnitude.units, he, Nat.pow_succ 2 (dropped _)]
    ring

theorem Magnitude.units_lt (x : Magnitude) : x.units < 2 ^ (53 + x.shift) := by
  rw [Nat.pow_add]
  exact Nat.mul_lt_mul_of_pos_right x.mant_lt (by positivity)

/-- Either a multiple of `2^s`, or too small to reach the binade `s` above the subnormals. -/
theorem Magnitude.multiple_or_small (y : Magnitude) (s : ℕ) :
    (∃ k, y.units = k * 2 ^ s) ∨ (0 < s ∧ y.units < 2 ^ (52 + s)) := by
  rcases Nat.lt_or_ge y.shift s with h | h
  · refine Or.inr ⟨by omega, lt_of_lt_of_le y.units_lt (Nat.pow_le_pow_right (by omega) (by omega))⟩
  · refine Or.inl ⟨y.mant * 2 ^ (y.shift - s), ?_⟩
    rw [Nat.mul_assoc, ← Nat.pow_add, Nat.sub_add_cancel h, Magnitude.units]

theorem pow_le_floor {num den : ℕ} (h : 0 < dropped (num / den)) :
    2 ^ (52 + dropped (num / den)) ≤ num / den := by
  have hne : num / den ≠ 0 := by
    intro hz
    simp [dropped, hz] at h
  refine le_trans (Nat.pow_le_pow_right (by omega) ?_) (Nat.log2_self_le hne)
  unfold dropped at h ⊢
  omega

/-- Rounding does not pass a representable value from below. -/
theorem roundMagnitude_le {num den : ℕ} {x y : Magnitude} (hd : 0 < den)
    (h : roundMagnitude num den = some x) (hy : num ≤ y.units * den) : x.units ≤ y.units := by
  rw [roundMagnitude_units h]
  rcases y.multiple_or_small (dropped (num / den)) with ⟨k, hk⟩ | ⟨hs, hlt⟩
  · rw [hk]
    exact Nat.mul_le_mul_right _ (roundDiv_le_of_le (by positivity)
      (by rw [hk] at hy; calc num ≤ _ := hy
            _ = _ := by ring))
  · have h₁ := pow_le_floor hs
    have h₂ : num / den ≤ y.units := Nat.div_le_of_le_mul (by rwa [Nat.mul_comm])
    omega

/-- Rounding does not pass a representable value from above. -/
theorem le_roundMagnitude {num den : ℕ} {x y : Magnitude} (hd : 0 < den)
    (h : roundMagnitude num den = some x) (hy : y.units * den ≤ num) : y.units ≤ x.units := by
  rw [roundMagnitude_units h]
  rcases y.multiple_or_small (dropped (num / den)) with ⟨k, hk⟩ | ⟨hs, hlt⟩
  · rw [hk]
    exact Nat.mul_le_mul_right _ (le_roundDiv_of_le (by positivity)
      (by rw [hk] at hy; calc _ = k * 2 ^ dropped (num / den) * den := by ring
            _ ≤ num := hy))
  · have hf := floor_normal (Nat.pos_iff_ne_zero.mp hs)
    have hm : 2 ^ 52 ≤ roundDiv num (den * 2 ^ dropped (num / den)) :=
      hf.trans (floor_le_roundDiv _ _)
    rw [Nat.pow_add] at hlt
    exact le_trans (le_of_lt hlt) (Nat.mul_le_mul_right _ hm)

/-- What a magnitude weighs. -/
def Magnitude.value (x : Magnitude) : ℚ := x.units / 2 ^ scale

/-- The finite number nearest to `x`, and `x` itself past the largest one. -/
def nearest (x : ℚ) : ℚ :=
  (roundMagnitude (x.num.natAbs * 2 ^ scale) x.den).elim x fun m =>
    if x < 0 then -m.value else m.value

/-! ## Reading decimals -/

/-- The magnitude nearest to `d * 10^k`. -/
def decimalMagnitude (d : ℕ) (k : ℤ) : Option Magnitude :=
  roundMagnitude (d * 10 ^ k.toNat * 2 ^ scale) (10 ^ (-k).toNat)

/-- `float(text)` for a decimal literal of value `± d * 10^k`. -/
def ofDecimal (neg : Bool) (d : ℕ) (k : ℤ) : Float64 :=
  (decimalMagnitude d k).elim (.inf neg) (.finite neg)

theorem ofDecimal_finite {neg : Bool} {d : ℕ} {k : ℤ} {x : Magnitude}
    (h : decimalMagnitude d k = some x) : ofDecimal neg d k = .finite neg x := by
  rw [ofDecimal, h, Option.elim_some]

theorem decimalMagnitude_shift (d j : ℕ) (k : ℤ) :
    decimalMagnitude (d * 10 ^ j) k = decimalMagnitude d (k + j) := by
  unfold decimalMagnitude
  apply roundMagnitude_congr (by positivity) (by positivity)
  have h : j + k.toNat + (-(k + j)).toNat = (k + j).toNat + (-k).toNat := by omega
  calc d * 10 ^ j * 10 ^ k.toNat * 2 ^ scale * 10 ^ (-(k + j)).toNat
      = d * 10 ^ (j + k.toNat + (-(k + j)).toNat) * 2 ^ scale := by
        rw [Nat.pow_add, Nat.pow_add]; ring
    _ = d * 10 ^ ((k + j).toNat + (-k).toNat) * 2 ^ scale := by rw [h]
    _ = d * 10 ^ (k + j).toNat * 2 ^ scale * 10 ^ (-k).toNat := by rw [Nat.pow_add]; ring

/-! ## The shortest digits that read back -/

/-- All decimal digits of a magnitude, as a multiple of 10^-scale. -/
def exactDigits (x : Magnitude) : ℕ := x.units * 5 ^ scale

/-- The two neighbours of `M` with its last `p` digits zero, the closer one first. -/
def candidates (M p : ℕ) : List ℕ :=
  let lo := M / 10 ^ p
  let r := M % 10 ^ p
  if 2 * r < 10 ^ p ∨ (2 * r = 10 ^ p ∧ lo % 2 = 0) then [lo, lo + 1] else [lo + 1, lo]

def readsBack (x : Magnitude) (p d : ℕ) : Bool :=
  decimalMagnitude d ((p : ℤ) - scale) = some x

/-- Keeps the most zeros; with none kept the digits are exact, so the search ends. -/
def shortestAux (x : Magnitude) (M : ℕ) : ℕ → ℕ × ℕ
  | 0 => (M, 0)
  | p + 1 =>
    match (candidates M (p + 1)).find? (readsBack x (p + 1)) with
    | some d => (d, p + 1)
    | none => shortestAux x M p

/-- Digits `d` and a count `p`: the spelling stands for `d * 10^(p - scale)`. -/
def shortest (x : Magnitude) : ℕ × ℕ :=
  shortestAux x (exactDigits x) ((natDigits (exactDigits x)).length - 1)

theorem readsBack_exact (x : Magnitude) : readsBack x 0 (exactDigits x) = true := by
  have h₁ : (((0 : ℕ) : ℤ) - scale).toNat = 0 := by omega
  have h₂ : (-(((0 : ℕ) : ℤ) - scale)).toNat = scale := by omega
  have h : x.units * 5 ^ scale * 10 ^ 0 * 2 ^ scale = x.units * 10 ^ scale := by
    rw [Nat.pow_zero, Nat.mul_one, Nat.mul_assoc, ← Nat.mul_pow]
  simp only [readsBack, decide_eq_true_eq, decimalMagnitude, exactDigits, h₁, h₂, h]
  exact roundMagnitude_exact x (Nat.pow_pos (by omega))

theorem shortestAux_readsBack (x : Magnitude) (p : ℕ) :
    readsBack x (shortestAux x (exactDigits x) p).2 (shortestAux x (exactDigits x) p).1 := by
  induction p with
  | zero => exact readsBack_exact x
  | succ p ih =>
    rw [shortestAux]
    split
    · rename_i d hd
      exact List.find?_some hd
    · exact ih

theorem shortest_readsBack (x : Magnitude) :
    decimalMagnitude (shortest x).1 ((shortest x).2 - scale : ℤ) = some x := by
  have h := shortestAux_readsBack x ((natDigits (exactDigits x)).length - 1)
  simpa only [readsBack, decide_eq_true_eq, shortest] using h

theorem readsBack_whole (x : Magnitude) {X : ℕ} (hX : x.units = X * 2 ^ scale) :
    readsBack x scale X = true := by
  have h : ((scale : ℤ) - scale).toNat = 0 := by omega
  have h' : (-((scale : ℤ) - scale)).toNat = 0 := by omega
  simp only [readsBack, decide_eq_true_eq, decimalMagnitude, h, h', Nat.pow_zero, Nat.mul_one,
    ← hX]
  simpa using roundMagnitude_exact x (k := 1) (by omega)

/-- A magnitude that is a whole number is spelt without fraction digits. -/
theorem shortestAux_whole (x : Magnitude) {X : ℕ} (hX : x.units = X * 2 ^ scale) (p : ℕ)
    (hp : scale ≤ p) : scale ≤ (shortestAux x (exactDigits x) p).2 := by
  have hM : exactDigits x / 10 ^ scale = X := by
    rw [exactDigits, hX, Nat.mul_assoc, ← Nat.mul_pow, show 2 * 5 = 10 from rfl]
    exact Nat.mul_div_cancel _ (Nat.pow_pos (by omega))
  have hmem : X ∈ candidates (exactDigits x) scale := by
    simp only [candidates, hM]
    split_ifs <;> simp
  induction p, hp using Nat.le_induction with
  | base =>
    obtain ⟨q, hq⟩ := Nat.exists_eq_add_one.mpr scale_pos
    have hread := readsBack_whole x hX
    rw [hq] at hread hmem ⊢
    rw [shortestAux]
    split
    · exact le_rfl
    · rename_i hnone
      exact absurd hread (List.find?_eq_none.mp hnone X hmem)
  | succ p hp ih =>
    rw [shortestAux]
    split
    · simp only
      omega
    · exact ih

/-! ## `repr` -/

/-- The digits without the zeros that end them, one digit at least. -/
def stripZeros (ds : List ℕ) : List ℕ :=
  match ds.rdropWhile (· = 0) with
  | [] => [0]
  | d :: rest => d :: rest

/-- Significant digits of a spelling. -/
def digits (x : Magnitude) : List ℕ := stripZeros (natDigits (shortest x).1)

/-- Position of the decimal point: the value is 0.d₁d₂… times 10 to this power. -/
def pointAt (x : Magnitude) : ℤ :=
  if x.units = 0 then 1 else (natDigits (shortest x).1).length + ((shortest x).2 : ℤ) - scale

/-- An exponent is spelt with two digits at least. -/
def twoDigits (n : ℕ) : List ℕ := if n < 10 then [0, n] else natDigits n

/-- Outside 10^-4 ≤ |x| < 10^16 the spelling has an exponent. -/
def placeDigits (neg : Bool) (ds : List ℕ) (pt : ℤ) : Literal :=
  if pt ≤ -4 ∨ 16 < pt then
    { neg, int := ds.take 1, frac := if ds.length ≤ 1 then none else some (ds.drop 1)
      exp := some (decide (pt - 1 < 0), twoDigits (pt - 1).natAbs) }
  else if pt ≤ 0 then
    { neg, int := [0], frac := some (List.replicate (-pt).toNat 0 ++ ds), exp := none }
  else if ds.length ≤ pt.toNat then
    { neg, int := ds ++ List.replicate (pt.toNat - ds.length) 0, frac := some [0], exp := none }
  else { neg, int := ds.take pt.toNat, frac := some (ds.drop pt.toNat), exp := none }

/-- The literal that `repr` writes for a finite number. -/
def reprLiteral (neg : Bool) (x : Magnitude) : Literal := placeDigits neg (digits x) (pointAt x)

theorem stripZeros_spec {ds : List ℕ} (h : readDigits ds ≠ 0) :
    ∃ z, ds = stripZeros ds ++ List.replicate z 0 := by
  refine ⟨(ds.rtakeWhile (· = 0)).length, ?_⟩
  have hsplit : ds.rdropWhile (· = 0) ++ ds.rtakeWhile (· = 0) = ds :=
    List.rdropWhile_append_rtakeWhile
  have hz : ds.rtakeWhile (· = 0) = List.replicate (ds.rtakeWhile (· = 0)).length 0 :=
    List.eq_replicate_of_mem fun d hd => by
      simpa using List.mem_rtakeWhile_imp hd
  cases hr : ds.rdropWhile (· = 0) with
  | nil =>
    rw [hr, List.nil_append] at hsplit
    rw [← hsplit, hz, readDigits_replicate] at h
    exact absurd rfl h
  | cons d rest =>
    rw [stripZeros, hr]
    dsimp only
    rw [← hz, ← hr, hsplit]

theorem stripZeros_ne_nil (ds : List ℕ) : stripZeros ds ≠ [] := by
  unfold stripZeros
  split <;> simp

def zeroMagnitude : Magnitude := ⟨0, 0, by norm_num, by norm_num, Or.inl rfl⟩

theorem zeroMagnitude_units : zeroMagnitude.units = 0 := Nat.zero_mul _

theorem units_zero_of_decimal {x : Magnitude} {k : ℤ} (h : decimalMagnitude 0 k = some x) :
    x.units = 0 := by
  rw [decimalMagnitude, Nat.zero_mul, Nat.zero_mul] at h
  have hle := roundMagnitude_le (y := zeroMagnitude) (Nat.pow_pos (by omega)) h (Nat.zero_le _)
  rw [zeroMagnitude_units] at hle
  exact Nat.le_zero.mp hle

theorem units_zero_of_shortest {x : Magnitude} (h : (shortest x).1 = 0) : x.units = 0 := by
  have hx := shortest_readsBack x
  rw [h] at hx
  exact units_zero_of_decimal hx

theorem decimalMagnitude_zero {x : Magnitude} (h : x.units = 0) (k : ℤ) :
    decimalMagnitude 0 k = some x := by
  have := roundMagnitude_exact x (k := 10 ^ (-k).toNat) (Nat.pow_pos (by omega))
  simpa [decimalMagnitude, h] using this

theorem shortest_zero {x : Magnitude} (h : x.units = 0) : (shortest x).1 = 0 := by
  simp [shortest, exactDigits, h, natDigits_zero, shortestAux]

theorem digits_of_zero {x : Magnitude} (h : x.units = 0) : digits x = [0] := by
  rw [digits, shortest_zero h, natDigits_zero]
  rfl

/-- The significant digits, placed by the decimal point, read back as the number. -/
theorem digits_value (x : Magnitude) :
    decimalMagnitude (readDigits (digits x)) (pointAt x - (digits x).length) = some x := by
  by_cases h : x.units = 0
  · have hz : readDigits [0] = 0 := rfl
    rw [digits_of_zero h, hz]
    exact decimalMagnitude_zero h _
  · have hd : (shortest x).1 ≠ 0 := fun hz => h (units_zero_of_shortest hz)
    have hne : readDigits (natDigits (shortest x).1) ≠ 0 := by rwa [readDigits_natDigits]
    obtain ⟨z, hz⟩ := stripZeros_spec hne
    have hval : (shortest x).1 = readDigits (digits x) * 10 ^ z := by
      conv_lhs => rw [← readDigits_natDigits (shortest x).1, hz]
      rw [readDigits_append, readDigits_replicate, List.length_replicate, digits]
      omega
    have hlen : (natDigits (shortest x).1).length = (digits x).length + z := by
      conv_lhs => rw [hz]
      rw [List.length_append, List.length_replicate, digits]
    have hx := shortest_readsBack x
    rw [hval, decimalMagnitude_shift] at hx
    have hk : pointAt x - (digits x).length = (shortest x).2 - scale + z := by
      rw [pointAt, if_neg h, hlen]
      push_cast
      ring
    rw [hk]
    exact hx

theorem twoDigits_value (n : ℕ) : readDigits (twoDigits n) = n := by
  unfold twoDigits
  split_ifs with h
  · simp [readDigits]
  · exact readDigits_natDigits n

theorem exponent_value (k : ℤ) :
    (if decide (k < 0) = true then -(readDigits (twoDigits k.natAbs) : ℤ)
      else readDigits (twoDigits k.natAbs)) = k := by
  rw [twoDigits_value]
  split_ifs with hneg
  · have := of_decide_eq_true hneg
    omega
  · have : ¬ k < 0 := by simpa using hneg
    omega

theorem placeDigits_value (neg : Bool) {ds : List ℕ} (pt : ℤ) (hne : ds ≠ []) :
    ∃ j : ℕ, (placeDigits neg ds pt).mantissa = readDigits ds * 10 ^ j ∧
      (placeDigits neg ds pt).power + j = pt - ds.length := by
  have hlen : 1 ≤ ds.length := List.length_pos_iff.mpr hne
  have hz : readDigits [0] = 0 := rfl
  unfold placeDigits
  split_ifs with he h₁ h₂ h₃
  · have hone : ds.take 1 = ds := List.take_of_length_le h₁
    refine ⟨0, by simp [Literal.mantissa, hone], ?_⟩
    simp only [Literal.power, Literal.expValue, exponent_value, Option.getD_none, List.length_nil]
    omega
  · refine ⟨0, ?_, ?_⟩
    · simp only [Literal.mantissa, Option.getD_some, List.take_append_drop, Nat.pow_zero,
        Nat.mul_one]
    · simp only [Literal.power, Literal.expValue, exponent_value, Option.getD_some,
        List.length_drop]
      omega
  · refine ⟨0, ?_, ?_⟩
    · simp only [Literal.mantissa, Option.getD_some]
      rw [readDigits_append, readDigits_append, readDigits_replicate, hz]
      omega
    · simp only [Literal.power, Literal.expValue, Option.getD_some, List.length_append,
        List.length_replicate]
      omega
  · refine ⟨pt.toNat - ds.length + 1, ?_, ?_⟩
    · simp only [Literal.mantissa, Option.getD_some]
      rw [readDigits_append, readDigits_append, readDigits_replicate, hz, List.length_replicate,
        List.length_singleton, Nat.pow_succ, Nat.add_zero, Nat.add_zero]
      ring
    · simp only [Literal.power, Literal.expValue, Option.getD_some, List.length_singleton]
      omega
  · refine ⟨0, by simp [Literal.mantissa], ?_⟩
    simp only [Literal.power, Literal.expValue, Option.getD_some, List.length_drop]
    omega

/-- `float(repr(x))` is `x`. -/
theorem reprLiteral_value (neg : Bool) (x : Magnitude) :
    decimalMagnitude (reprLiteral neg x).mantissa (reprLiteral neg x).power = some x := by
  have hne : digits x ≠ [] := stripZeros_ne_nil _
  obtain ⟨j, hm, hp⟩ := placeDigits_value neg (pointAt x) hne
  rw [reprLiteral, hm, decimalMagnitude_shift, hp]
  exact digits_value x

/-! ## The shape of the spelling -/

theorem stripZeros_lt {ds : List ℕ} (h : ∀ d ∈ ds, d < 10) : ∀ d ∈ stripZeros ds, d < 10 := by
  by_cases hz : readDigits ds = 0
  · unfold stripZeros
    split
    · simp
    · rename_i d rest hr
      intro e he
      have hsub : ds.rdropWhile (· = 0) ⊆ ds := (List.rdropWhile_prefix _ ds).subset
      exact h e (hsub (by rwa [hr]))
  · obtain ⟨z, hz⟩ := stripZeros_spec hz
    intro d hd
    exact h d (by rw [hz]; exact List.mem_append_left _ hd)

theorem digits_lt (x : Magnitude) : ∀ d ∈ digits x, d < 10 := stripZeros_lt (natDigits_lt _)

theorem digits_head {x : Magnitude} (h : x.units ≠ 0) : (digits x).head? ≠ some 0 := by
  have hd : (shortest x).1 ≠ 0 := fun hz => h (units_zero_of_shortest hz)
  have hne : readDigits (natDigits (shortest x).1) ≠ 0 := by rwa [readDigits_natDigits]
  obtain ⟨z, hz⟩ := stripZeros_spec hne
  have hhead := natDigits_head (n := (shortest x).1) (by omega)
  rw [hz, List.head?_append_of_ne_nil _ (stripZeros_ne_nil _)] at hhead
  exact hhead

theorem twoDigits_lt (n : ℕ) : ∀ d ∈ twoDigits n, d < 10 := by
  unfold twoDigits
  split_ifs with h
  · simp [h]
  · exact natDigits_lt n

theorem twoDigits_ne_nil (n : ℕ) : twoDigits n ≠ [] := by
  unfold twoDigits
  split_ifs
  · simp
  · exact natDigits_ne_nil n

theorem placeDigits_wellFormed (neg : Bool) {ds : List ℕ} {pt : ℤ} (hlt : ∀ d ∈ ds, d < 10)
    (hne : ds ≠ []) (hhead : ds.head? ≠ some 0 ∨ (ds = [0] ∧ pt = 1)) :
    (placeDigits neg ds pt).WellFormed := by
  obtain ⟨d, rest, rfl⟩ := List.exists_cons_of_ne_nil hne
  have hd : d < 10 := hlt d (by simp)
  have hrest : ∀ e ∈ rest, e < 10 := fun e he => hlt e (by simp [he])
  have hrep : ∀ (k e : ℕ), e ∈ List.replicate k 0 → e < 10 := by
    intro k e he
    rw [List.eq_of_mem_replicate he]
    omega
  have hint : ∀ tl : List ℕ, ((d :: rest).head? ≠ some 0) → (d :: tl = [0] ∨
      ∃ d' ds', d :: tl = d' :: ds' ∧ d' ≠ 0) := fun tl h => Or.inr ⟨d, tl, rfl, by simpa using h⟩
  unfold placeDigits
  split_ifs with he h₁ h₂ h₃
  · refine ⟨by simpa using hd, ?_, by simp, ?_⟩
    · by_cases hz : d = 0
      · exact Or.inl (by simp [hz])
      · exact Or.inr ⟨d, [], by simp, hz⟩
    · rintro e he'
      rw [Option.mem_some_iff] at he'
      subst he'
      exact ⟨twoDigits_ne_nil _, twoDigits_lt _⟩
  · refine ⟨by simpa using hd, ?_, ?_, ?_⟩
    · by_cases hz : d = 0
      · exact Or.inl (by simp [hz])
      · exact Or.inr ⟨d, [], by simp, hz⟩
    · intro fs hf
      rw [Option.mem_some_iff] at hf
      subst hf
      refine ⟨?_, by simpa using hrest⟩
      intro hnil
      simp only [List.drop_succ_cons, List.drop_zero] at hnil
      simp [hnil] at h₁
    · rintro e he'
      rw [Option.mem_some_iff] at he'
      subst he'
      exact ⟨twoDigits_ne_nil _, twoDigits_lt _⟩
  · refine ⟨by simp, Or.inl rfl, ?_, by simp⟩
    intro fs hf
    rw [Option.mem_some_iff] at hf
    subst hf
    refine ⟨by simp, ?_⟩
    intro e he'
    rcases List.mem_append.mp he' with h | h
    · exact hrep _ e h
    · exact hlt e h
  · refine ⟨?_, ?_, by simp, by simp⟩
    · intro e he'
      rcases List.mem_append.mp he' with h | h
      · exact hlt e h
      · exact hrep _ e h
    · rcases hhead with h | ⟨h, hp⟩
      · exact hint _ h
      · rw [h, hp]
        exact Or.inl rfl
  · refine ⟨fun e he' => hlt e (List.mem_of_mem_take he'), ?_, ?_, by simp⟩
    · rcases hhead with h | ⟨h, hp⟩
      · obtain ⟨k, hk⟩ : ∃ k, pt.toNat = k + 1 := ⟨pt.toNat - 1, by omega⟩
        rw [hk, List.take_succ_cons]
        exact hint _ h
      · rw [h, hp] at h₃
        simp at h₃
    · intro fs hf
      rw [Option.mem_some_iff] at hf
      subst hf
      refine ⟨?_, fun e he' => hlt e (List.mem_of_mem_drop he')⟩
      simpa using h₃

theorem reprLiteral_wellFormed (neg : Bool) (x : Magnitude) : (reprLiteral neg x).WellFormed := by
  refine placeDigits_wellFormed neg (digits_lt x) (stripZeros_ne_nil _) ?_
  by_cases h : x.units = 0
  · exact Or.inr ⟨digits_of_zero h, by rw [pointAt, if_pos h]⟩
  · exact Or.inl (digits_head h)

/-- 10^16 is 5·10^15 times two. -/
def tenToSixteen : Magnitude :=
  ⟨5 * 10 ^ 15, scale + 1, by norm_num, by decide, Or.inr (by norm_num)⟩

theorem tenToSixteen_units : tenToSixteen.units = 10 ^ 16 * 2 ^ scale := by
  simp only [Magnitude.units, tenToSixteen, Nat.pow_succ 2 scale]
  ring

/-- The count of digits and of kept zeros bounds the number spelt. -/
theorem large_of_pointAt {x : Magnitude} (h : 16 < pointAt x) : 10 ^ 16 * 2 ^ scale ≤ x.units := by
  have hx0 : x.units ≠ 0 := by
    intro hz
    rw [pointAt, if_pos hz] at h
    omega
  rw [pointAt, if_neg hx0] at h
  have hd : (shortest x).1 ≠ 0 := fun hz => hx0 (units_zero_of_shortest hz)
  have hx := shortest_readsBack x
  have hlow : 10 ^ ((natDigits (shortest x).1).length - 1) ≤ (shortest x).1 := by
    rw [natDigits_length (by omega), Nat.add_sub_cancel]
    exact Nat.pow_log_le_self 10 hd
  have hlen : 1 ≤ (natDigits (shortest x).1).length :=
    List.length_pos_iff.mpr (natDigits_ne_nil _)
  generalize (shortest x).1 = d at *
  generalize (shortest x).2 = p at *
  generalize (natDigits d).length = len at *
  rw [← tenToSixteen_units]
  refine le_roundMagnitude (Nat.pow_pos (by omega)) hx ?_
  rw [tenToSixteen_units]
  have hexp : 16 + (-((p : ℤ) - scale)).toNat ≤ len - 1 + ((p : ℤ) - scale).toNat := by omega
  calc 10 ^ 16 * 2 ^ scale * 10 ^ (-((p : ℤ) - scale)).toNat
      = 10 ^ (16 + (-((p : ℤ) - scale)).toNat) * 2 ^ scale := by rw [Nat.pow_add]; ring
    _ ≤ 10 ^ (len - 1 + ((p : ℤ) - scale).toNat) * 2 ^ scale :=
        Nat.mul_le_mul_right _ (Nat.pow_le_pow_right (by omega) hexp)
    _ = 10 ^ (len - 1) * 10 ^ ((p : ℤ) - scale).toNat * 2 ^ scale := by rw [Nat.pow_add]
    _ ≤ d * 10 ^ ((p : ℤ) - scale).toNat * 2 ^ scale :=
        Nat.mul_le_mul_right _ (Nat.mul_le_mul_right _ hlow)

theorem exactDigits_tenToSixteen {x : Magnitude} (h : x.units = 10 ^ 16 * 2 ^ scale) :
    exactDigits x = 10 ^ (16 + scale) := by
  rw [exactDigits, h, Nat.mul_assoc, ← Nat.mul_pow, Nat.pow_add]

theorem shortest_tenToSixteen {x : Magnitude} (h : x.units = 10 ^ 16 * 2 ^ scale) :
    shortest x = (1, 16 + scale) := by
  have hM := exactDigits_tenToSixteen h
  have hlen : (natDigits (exactDigits x)).length - 1 = 15 + scale + 1 := by
    rw [natDigits_length (by rw [hM]; exact Nat.pow_pos (by omega)), hM,
      Nat.log_pow (by omega)]
    omega
  have hread : readsBack x (15 + scale + 1) 1 = true := by
    have h₁ : (((15 + scale + 1 : ℕ) : ℤ) - scale).toNat = 16 := by omega
    have h₂ : (-(((15 + scale + 1 : ℕ) : ℤ) - scale)).toNat = 0 := by omega
    simp only [readsBack, decide_eq_true_eq, decimalMagnitude, h₁, h₂, Nat.pow_zero, Nat.one_mul,
      ← h]
    simpa using roundMagnitude_exact x (k := 1) (by omega)
  have hcand : candidates (exactDigits x) (15 + scale + 1) = [1, 2] := by
    have hp : 0 < 10 ^ (15 + scale + 1) := Nat.pow_pos (by omega)
    rw [candidates, hM, show 16 + scale = 15 + scale + 1 by omega, Nat.div_self hp, Nat.mod_self]
    simp [hp]
  rw [shortest, hlen, shortestAux, hcand, List.find?_cons, hread]
  simp only [Prod.mk.injEq, true_and]
  omega

theorem pointAt_of_large {x : Magnitude} (h : 10 ^ 16 * 2 ^ scale ≤ x.units) : 16 < pointAt x := by
  by_contra hsmall
  have hx0 : x.units ≠ 0 := by
    have : 0 < 10 ^ 16 * 2 ^ scale := Nat.mul_pos (by norm_num) (Nat.pow_pos (by omega))
    omega
  have hx := shortest_readsBack x
  have hle : x.units ≤ tenToSixteen.units := by
    have hpt := hsmall
    rw [pointAt, if_neg hx0] at hpt
    have hd : (shortest x).1 ≠ 0 := fun hz => hx0 (units_zero_of_shortest hz)
    have hup : (shortest x).1 < 10 ^ (natDigits (shortest x).1).length := by
      rw [natDigits_length (by omega)]
      exact Nat.lt_pow_succ_log_self (by omega) _
    refine roundMagnitude_le (Nat.pow_pos (by omega)) hx ?_
    rw [tenToSixteen_units]
    generalize (shortest x).1 = d at *
    generalize (shortest x).2 = p at *
    generalize (natDigits d).length = len at *
    have hexp : len + ((p : ℤ) - scale).toNat ≤ 16 + (-((p : ℤ) - scale)).toNat := by omega
    calc d * 10 ^ ((p : ℤ) - scale).toNat * 2 ^ scale
        ≤ 10 ^ len * 10 ^ ((p : ℤ) - scale).toNat * 2 ^ scale :=
          Nat.mul_le_mul_right _ (Nat.mul_le_mul_right _ (le_of_lt hup))
      _ = 10 ^ (len + ((p : ℤ) - scale).toNat) * 2 ^ scale := by rw [Nat.pow_add]
      _ ≤ 10 ^ (16 + (-((p : ℤ) - scale)).toNat) * 2 ^ scale :=
          Nat.mul_le_mul_right _ (Nat.pow_le_pow_right (by omega) hexp)
      _ = 10 ^ 16 * 2 ^ scale * 10 ^ (-((p : ℤ) - scale)).toNat := by rw [Nat.pow_add]; ring
  rw [tenToSixteen_units] at hle
  -- exactly 10^16 remains, and its one digit is spelt with an exponent
  have hs := shortest_tenToSixteen (le_antisymm hle h)
  rw [pointAt, if_neg hx0, hs] at hsmall
  have hone : (natDigits 1).length = 1 := rfl
  simp only [hone] at hsmall
  omega

/-- A number from 10^16 on is whole, and all its significant digits precede the point. -/
theorem digits_length_le_pointAt {x : Magnitude} (h : 16 < pointAt x) :
    ((digits x).length : ℤ) ≤ pointAt x := by
  have hbig := large_of_pointAt h
  have hx0 : x.units ≠ 0 := by
    have : 0 < 10 ^ 16 * 2 ^ scale := Nat.mul_pos (by norm_num) (Nat.pow_pos (by omega))
    omega
  have hshift : scale ≤ x.shift := by
    by_contra hlt
    have h₁ := x.units_lt
    have h₂ : 2 ^ (53 + x.shift) ≤ 10 ^ 16 * 2 ^ scale := by
      calc 2 ^ (53 + x.shift) = 2 ^ 53 * 2 ^ x.shift := Nat.pow_add _ _ _
        _ ≤ 10 ^ 16 * 2 ^ scale :=
          Nat.mul_le_mul (by norm_num) (Nat.pow_le_pow_right (by omega) (by omega))
    omega
  have hwhole : x.units = x.mant * 2 ^ (x.shift - scale) * 2 ^ scale := by
    rw [Nat.mul_assoc, ← Nat.pow_add, Nat.sub_add_cancel hshift, Magnitude.units]
  have hlen : scale ≤ (natDigits (exactDigits x)).length - 1 := by
    have hpos : 0 < exactDigits x := Nat.mul_pos (by omega) (Nat.pow_pos (by omega))
    rw [natDigits_length hpos, Nat.add_sub_cancel]
    refine Nat.le_log_of_pow_le (by omega) ?_
    calc 10 ^ scale = 2 ^ scale * 5 ^ scale := by rw [← Nat.mul_pow]
      _ ≤ x.units * 5 ^ scale := by
        refine Nat.mul_le_mul_right _ (le_trans ?_ hbig)
        exact Nat.le_mul_of_pos_left _ (by norm_num)
  have hp : scale ≤ (shortest x).2 := shortestAux_whole x hwhole _ hlen
  have hd : (shortest x).1 ≠ 0 := fun hz => hx0 (units_zero_of_shortest hz)
  have hne : readDigits (natDigits (shortest x).1) ≠ 0 := by rwa [readDigits_natDigits]
  obtain ⟨z, hz⟩ := stripZeros_spec hne
  have hdl : (natDigits (shortest x).1).length = (digits x).length + z := by
    conv_lhs => rw [hz]
    rw [List.length_append, List.length_replicate, digits]
  rw [pointAt, if_neg hx0]
  omega

/-! ## Where the spelling ends -/

theorem shortestAux_le (x : Magnitude) (M p : ℕ) :
    (shortestAux x M p).1 ≤ M + 1 ∧ (shortestAux x M p).2 ≤ p := by
  induction p with
  | zero => exact ⟨Nat.le_succ M, le_rfl⟩
  | succ p ih =>
    rw [shortestAux]
    split
    · rename_i d hd
      refine ⟨?_, le_rfl⟩
      have hmem := List.mem_of_find?_eq_some hd
      have hdiv : M / 10 ^ (p + 1) ≤ M := Nat.div_le_self ..
      simp only [candidates] at hmem
      split_ifs at hmem <;> simp only [List.mem_cons, List.not_mem_nil, or_false] at hmem <;> omega
    · exact ⟨ih.1, ih.2.trans (Nat.le_succ p)⟩

theorem pow_two_five_le (s : ℕ) : 2 ^ (s + 3 * s) * 5 ^ s ≤ 10 ^ (s + s) := by
  have height : 2 ^ (3 * s) ≤ 10 ^ s := by
    rw [Nat.pow_mul]
    exact Nat.pow_le_pow_left (by omega) s
  calc 2 ^ (s + 3 * s) * 5 ^ s = 2 ^ (3 * s) * (2 * 5) ^ s := by
        rw [Nat.pow_add, Nat.mul_pow]
        ring
    _ ≤ 10 ^ s * 10 ^ s := Nat.mul_le_mul_right _ height
    _ = 10 ^ (s + s) := (Nat.pow_add ..).symm

theorem exactDigits_lt (x : Magnitude) : exactDigits x < 10 ^ (scale + scale) := by
  have hshift : 53 + x.shift ≤ scale + 3 * scale := by
    have := x.shift_le
    rw [scale]
    omega
  calc exactDigits x
      < 2 ^ (53 + x.shift) * 5 ^ scale :=
        Nat.mul_lt_mul_of_pos_right x.units_lt (Nat.pow_pos (by omega))
    _ ≤ 2 ^ (scale + 3 * scale) * 5 ^ scale :=
        Nat.mul_le_mul_right _ (Nat.pow_le_pow_right (by omega) hshift)
    _ ≤ 10 ^ (scale + scale) := pow_two_five_le scale

theorem pointAt_le (x : Magnitude) : pointAt x ≤ 4 * scale := by
  have hM := exactDigits_lt x
  have hpos := scale_pos
  have hlen : (natDigits (exactDigits x)).length ≤ scale + scale :=
    natDigits_length_le (by omega) hM
  obtain ⟨hd, hp⟩ := shortestAux_le x (exactDigits x) ((natDigits (exactDigits x)).length - 1)
  have hdl : (natDigits (shortest x).1).length ≤ scale + scale + 1 := by
    refine natDigits_length_le (by omega) (lt_of_le_of_lt (hd.trans hM) ?_)
    exact Nat.pow_lt_pow_right (by omega) (by omega)
  have hp' : (shortest x).2 ≤ scale + scale := by
    rw [shortest]
    omega
  rw [pointAt]
  split_ifs
  · omega
  · omega

/-- With an exponent of 16 or more no digit comes after the point. -/
theorem placeDigits_large (neg : Bool) {ds : List ℕ} {pt : ℤ} (hpt : 16 < pt) (hne : ds ≠ []) :
    (placeDigits neg ds pt).mantissa = readDigits ds ∧
      (placeDigits neg ds pt).power = pt - ds.length := by
  have hlen : 1 ≤ ds.length := List.length_pos_iff.mpr hne
  rw [placeDigits, if_pos (Or.inr hpt)]
  split_ifs with h
  · have hone : ds.take 1 = ds := List.take_of_length_le h
    refine ⟨by simp [Literal.mantissa, hone], ?_⟩
    simp only [Literal.power, Literal.expValue, exponent_value, Option.getD_none, List.length_nil]
    omega
  · refine ⟨by simp only [Literal.mantissa, Option.getD_some, List.take_append_drop], ?_⟩
    simp only [Literal.power, Literal.expValue, exponent_value, Option.getD_some, List.length_drop]
    omega

theorem placeDigits_small (neg : Bool) {ds : List ℕ} {pt : ℤ} (hpt : ¬ 16 < pt) (hne : ds ≠ []) :
    (placeDigits neg ds pt).power < 0 := by
  have hlen : 1 ≤ ds.length := List.length_pos_iff.mpr hne
  unfold placeDigits
  split_ifs with he h₁ h₂ h₃
  · simp only [Literal.power, Literal.expValue, exponent_value, Option.getD_none, List.length_nil]
    omega
  · simp only [Literal.power, Literal.expValue, exponent_value, Option.getD_some, List.length_drop]
    omega
  · simp only [Literal.power, Literal.expValue, Option.getD_some, List.length_append,
      List.length_replicate]
    omega
  · simp only [Literal.power, Literal.expValue, Option.getD_some, List.length_singleton]
    omega
  · simp only [Literal.power, Literal.expValue, Option.getD_some, List.length_drop]
    omega

/-- The spelling of a number is a whole one exactly from 10^16 on. -/
theorem reprLiteral_power_nonneg (neg : Bool) (x : Magnitude) :
    0 ≤ (reprLiteral neg x).power ↔ 10 ^ 16 * 2 ^ scale ≤ x.units := by
  constructor
  · intro h
    refine large_of_pointAt ?_
    by_contra hpt
    have := placeDigits_small neg hpt (stripZeros_ne_nil (natDigits (shortest x).1))
    exact absurd h (not_le_of_gt this)
  · intro h
    have hpt := pointAt_of_large h
    have hlen := digits_length_le_pointAt hpt
    have hp : (placeDigits neg (digits x) (pointAt x)).power = pointAt x - (digits x).length :=
      (placeDigits_large neg hpt (stripZeros_ne_nil _)).2
    rw [reprLiteral, hp]
    omega

theorem reprLiteral_whole_lt {neg : Bool} {x : Magnitude} (h : 0 ≤ (reprLiteral neg x).power) :
    (reprLiteral neg x).mantissa * 10 ^ (reprLiteral neg x).power.toNat <
      10 ^ (4 * scale) := by
  have hpt := pointAt_of_large ((reprLiteral_power_nonneg neg x).mp h)
  have hlen := digits_length_le_pointAt hpt
  have hmax := pointAt_le x
  obtain ⟨hm, hp⟩ := placeDigits_large neg hpt (stripZeros_ne_nil (natDigits (shortest x).1))
  change (reprLiteral neg x).mantissa = readDigits (digits x) at hm
  change (reprLiteral neg x).power = pointAt x - (digits x).length at hp
  rw [hm, hp]
  calc readDigits (digits x) * 10 ^ (pointAt x - (digits x).length).toNat
      < 10 ^ (digits x).length * 10 ^ (pointAt x - (digits x).length).toNat :=
        Nat.mul_lt_mul_of_pos_right (readDigits_lt (digits_lt x)) (Nat.pow_pos (by omega))
    _ = 10 ^ ((digits x).length + (pointAt x - (digits x).length).toNat) := by rw [Nat.pow_add]
    _ ≤ 10 ^ (4 * scale) := Nat.pow_le_pow_right (by omega) (by omega)

theorem reprLiteral_mantissa_zero (neg : Bool) (x : Magnitude) :
    (reprLiteral neg x).mantissa = 0 ↔ x.units = 0 := by
  constructor
  · intro h
    have hx := reprLiteral_value neg x
    rw [h] at hx
    exact units_zero_of_decimal hx
  · intro h
    obtain ⟨j, hm, -⟩ := placeDigits_value neg (pointAt x)
      (stripZeros_ne_nil (natDigits (shortest x).1))
    change (reprLiteral neg x).mantissa = readDigits (digits x) * 10 ^ j at hm
    rw [hm, digits_of_zero h]
    exact Nat.zero_mul _

end Binary64
