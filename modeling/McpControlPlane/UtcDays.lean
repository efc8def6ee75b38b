import McpControlPlane.UuidTime

/-! # Days in UTC

Every point in time lies in one day, the one of its date; days are numbered as `date.toordinal`
numbers them. -/
namespace UtcDays

open PyText UuidTime

def isLeap (year : ℕ) : Bool := year % 4 = 0 && (year % 100 ≠ 0 || year % 400 = 0)

def monthLengths (leap : Bool) : List ℕ :=
  [31, if leap then 29 else 28, 31, 30, 31, 30, 31, 31, 30, 31, 30, 31]

def daysBeforeYear (year : ℕ) : ℕ :=
  (year - 1) * 365 + (year - 1) / 4 - (year - 1) / 100 + (year - 1) / 400

def daysBeforeMonth (year month : ℕ) : ℕ := ((monthLengths (isLeap year)).take (month - 1)).sum

def daysInMonth (year month : ℕ) : ℕ := (monthLengths (isLeap year)).getD (month - 1) 0

/-- `t.toordinal()`: 0001-01-01 is day 1. -/
def toOrdinal (t : Datetime) : ℕ := daysBeforeYear t.year + daysBeforeMonth t.year t.month + t.day

/-- What the constructor of `datetime` checks. -/
structure Real (t : Datetime) : Prop where
  year : 1 ≤ t.year
  month : 1 ≤ t.month ∧ t.month ≤ 12
  day : 1 ≤ t.day ∧ t.day ≤ daysInMonth t.year t.month
  hour : t.hour < 24
  minute : t.minute < 60
  second : t.second < 60

/-- Microseconds in a day. -/
def dayLength : ℕ := 86400000000

def timeOfDay (t : Datetime) : ℕ :=
  ((t.hour * 60 + t.minute) * 60 + t.second) * 1000000 + t.microsecond

/-- Microseconds, counted through all days. -/
def instant (t : Datetime) : ℕ := toOrdinal t * dayLength + timeOfDay t

/-- The first instant of a day. -/
def midnight (ordinal : ℕ) : ℕ := ordinal * dayLength

theorem timeOfDay_lt {t : Datetime} (h : Real t) : timeOfDay t < dayLength := by
  have hh := h.hour
  have hm := h.minute
  have hs := h.second
  have hus := t.valid.2.2.2.2.2.2
  unfold timeOfDay dayLength
  omega

/-- The days tile time. -/
theorem in_day_iff {t : Datetime} (h : Real t) (d : ℕ) :
    midnight d ≤ instant t ∧ instant t < midnight (d + 1) ↔ toOrdinal t = d := by
  have hlt := timeOfDay_lt h
  unfold midnight instant
  unfold dayLength at *
  omega

/-! ## The date of a day -/

/-- The year, the month and the day of `date.fromordinal`. -/
def dateText (ordinal : ℕ) : Str :=
  let date := dateOfOrdinal ordinal
  padDec 4 date.1 ++ ch '-' :: (padDec 2 date.2.1 ++ ch '-' :: padDec 2 date.2.2)

/-- `t.date().isoformat()`. -/
def dateOf (t : Datetime) : Str :=
  padDec 4 t.year ++ ch '-' :: (padDec 2 t.month ++ ch '-' :: padDec 2 t.day)

theorem monthOf_spec (year n month k : ℕ) (lengths : List ℕ) (hk : k < lengths.length)
    (hge : (lengths.take k).sum ≤ n) (hlt : n < (lengths.take k).sum + lengths.getD k 0) :
    dateOfOrdinal.monthOf year n month lengths =
      (year, month + k, n - (lengths.take k).sum + 1) := by
  induction k generalizing n month lengths with
  | zero =>
    cases lengths with
    | nil => simp at hk
    | cons len rest =>
      simp only [List.take_zero, List.sum_nil, List.getD_cons_zero, Nat.zero_add] at hlt
      simp [dateOfOrdinal.monthOf, hlt]
  | succ k ih =>
    cases lengths with
    | nil => simp at hk
    | cons len rest =>
      simp only [List.take_succ_cons, List.sum_cons, List.getD_cons_succ, List.length_cons,
        Nat.add_lt_add_iff_right] at hk hge hlt ⊢
      have hnot : ¬ n < len := by omega
      rw [dateOfOrdinal.monthOf, if_neg hnot, ih (n - len) (month + 1) rest hk (by omega) (by omega)]
      simp only [Prod.mk.injEq, true_and]
      omega

theorem daysBeforeMonth_add_le (year : ℕ) {month : ℕ} (hm : 1 ≤ month ∧ month ≤ 12) :
    daysBeforeMonth year month + daysInMonth year month ≤ 365 + (isLeap year).toNat := by
  obtain ⟨h₁, h₂⟩ := hm
  unfold daysBeforeMonth daysInMonth
  cases isLeap year <;> interval_cases month <;> decide

theorem isLeap_iff {a b c e : ℕ} (hb : b < 4) (hc : c < 25) (he : e < 4) :
    isLeap (400 * a + 100 * b + 4 * c + e + 1) = true ↔ e = 3 ∧ (c ≠ 24 ∨ b = 3) := by
  simp only [isLeap, Bool.and_eq_true, Bool.or_eq_true, decide_eq_true_eq]
  omega

/-- The first 365 days of a year. -/
theorem dateOfOrdinal_common {a b c e k : ℕ} (hb : b < 4) (hc : c < 25) (he : e < 4)
    (hk : k < 365) : dateOfOrdinal (146097 * a + 36524 * b + 1461 * c + 365 * e + k + 1) =
      dateOfOrdinal.monthOf (400 * a + 100 * b + 4 * c + e + 1) k 1
        (monthLengths (isLeap (400 * a + 100 * b + 4 * c + e + 1))) := by
  have h400 : (146097 * a + 36524 * b + 1461 * c + 365 * e + k) / 146097 = a := by omega
  have r400 : (146097 * a + 36524 * b + 1461 * c + 365 * e + k) % 146097 =
      36524 * b + (1461 * c + 365 * e + k) := by omega
  have h100 : (36524 * b + (1461 * c + 365 * e + k)) / 36524 = b := by omega
  have r100 : (36524 * b + (1461 * c + 365 * e + k)) % 36524 = 1461 * c + (365 * e + k) := by omega
  have h4 : (1461 * c + (365 * e + k)) / 1461 = c := by omega
  have r4 : (1461 * c + (365 * e + k)) % 1461 = 365 * e + k := by omega
  have h1 : (365 * e + k) / 365 = e := by omega
  have r1 : (365 * e + k) % 365 = k := by omega
  have hleap := isLeap_iff (a := a) hb hc he
  have hyear : a * 400 + b * 100 + c * 4 + e + 1 = 400 * a + 100 * b + 4 * c + e + 1 := by omega
  have hne : ¬ (e = 4 ∨ b = 4) := by omega
  simp only [dateOfOrdinal, Nat.add_sub_cancel, h400, r400, h100, r100, h4, r4, h1, r1, hyear, hne,
    if_false]
  by_cases hl : e = 3 ∧ (c ≠ 24 ∨ b = 3)
  · rw [hleap.mpr hl]
    simp only [hl, monthLengths, if_true]
    simp
  · have hfalse : isLeap (400 * a + 100 * b + 4 * c + e + 1) = false := by
      rw [← Bool.not_eq_true, hleap]
      exact hl
    rw [hfalse]
    simp only [hl, monthLengths, if_false, Bool.false_eq_true]

/-- The last day of a leap year. -/
theorem dateOfOrdinal_leapDay {a b c r : ℕ} (hb : b < 4) (hc : c < 25) (hl : c ≠ 24 ∨ b = 3)
    (hr : r = 1460) : dateOfOrdinal (146097 * a + 36524 * b + 1461 * c + r + 1) =
      (400 * a + 100 * b + 4 * c + 3 + 1, 12, 31) := by
  have h400 : (146097 * a + 36524 * b + 1461 * c + r) / 146097 = a := by omega
  by_cases hlast : c = 24
  · obtain rfl : b = 3 := hl.resolve_left (by simpa using hlast)
    have r400 : (146097 * a + 36524 * 3 + 1461 * c + r) % 146097 = 36524 * 4 := by omega
    simp only [dateOfOrdinal, Nat.add_sub_cancel, h400, r400]
    simp
    omega
  · have r400 : (146097 * a + 36524 * b + 1461 * c + r) % 146097 =
        36524 * b + (1461 * c + r) := by omega
    have h100 : (36524 * b + (1461 * c + r)) / 36524 = b := by omega
    have r100 : (36524 * b + (1461 * c + r)) % 36524 = 1461 * c + r := by omega
    have h4 : (1461 * c + r) / 1461 = c := by omega
    have r4 : (1461 * c + r) % 1461 = r := by omega
    have h1 : r / 365 = 4 := by omega
    simp only [dateOfOrdinal, Nat.add_sub_cancel, h400, r400, h100, r100, h4, r4, h1, true_or,
      if_true, Prod.mk.injEq, and_true]
    omega

/-- A real date is the date of its ordinal. -/
theorem dateOfOrdinal_toOrdinal {t : Datetime} (h : Real t) :
    dateOfOrdinal (toOrdinal t) = (t.year, t.month, t.day) := by
  obtain ⟨hy, hm, hd, -, -, -⟩ := h
  have hsum := daysBeforeMonth_add_le t.year hm
  -- the year within its cycle of 400, its century and its four years
  obtain ⟨a, b, c, e, hb, hc, he, hyear⟩ : ∃ a b c e, b < 4 ∧ c < 25 ∧ e < 4 ∧
      t.year = 400 * a + 100 * b + 4 * c + e + 1 :=
    ⟨(t.year - 1) / 400, (t.year - 1) % 400 / 100, (t.year - 1) % 100 / 4, (t.year - 1) % 4,
      by omega, by omega, by omega, by omega⟩
  have hbefore : daysBeforeYear t.year = 146097 * a + 36524 * b + 1461 * c + 365 * e := by
    unfold daysBeforeYear
    omega
  obtain ⟨k, hk⟩ : ∃ k, daysBeforeMonth t.year t.month + t.day = k + 1 :=
    ⟨daysBeforeMonth t.year t.month + t.day - 1, by omega⟩
  have hord : toOrdinal t = 146097 * a + 36524 * b + 1461 * c + 365 * e + k + 1 := by
    unfold toOrdinal
    omega
  have hleap := isLeap_iff (a := a) hb hc he
  rw [← hyear] at hleap
  rw [hord]
  by_cases hlast : k < 365
  · have hlen : (monthLengths (isLeap t.year)).length = 12 := rfl
    have hspec := monthOf_spec t.year k 1 (t.month - 1) (monthLengths (isLeap t.year))
      (by omega) (by unfold daysBeforeMonth at hk; omega)
      (by unfold daysBeforeMonth at hk; unfold daysInMonth at hd; omega)
    rw [dateOfOrdinal_common hb hc he hlast, ← hyear, hspec]
    unfold daysBeforeMonth at hk
    simp only [Prod.mk.injEq, true_and]
    omega
  · cases hl : isLeap t.year with
    | false =>
      rw [hl] at hsum
      simp only [Bool.toNat_false] at hsum
      omega
    | true =>
      rw [hl] at hsum
      simp only [Bool.toNat_true] at hsum
      obtain ⟨rfl, hcb⟩ := hleap.mp hl
      obtain rfl : k = 365 := by omega
      have hdec : t.month = 12 ∧ t.day = 31 := by
        have hbm : ∀ m, 1 ≤ m → m ≤ 12 → daysBeforeMonth t.year m + daysInMonth t.year m = 366 →
            m = 12 ∧ daysInMonth t.year m = 31 := by
          intro m h₁ h₂
          unfold daysBeforeMonth daysInMonth
          rw [hl]
          interval_cases m <;> decide
        obtain ⟨hmonth, hdays⟩ := hbm t.month hm.1 hm.2 (by omega)
        omega
      rw [Nat.add_assoc _ (365 * 3) 365, dateOfOrdinal_leapDay hb hc hcb rfl, hdec.1, hdec.2, hyear]

theorem dateText_toOrdinal {t : Datetime} (h : Real t) : dateText (toOrdinal t) = dateOf t := by
  rw [dateText, dateOfOrdinal_toOrdinal h, dateOf]

end UtcDays
