import McpControlPlane.Binary64

/-! # Identifiers and points in time, as text

`str(uuid)` and `datetime.isoformat()` are injective: their fields have fixed widths. -/
namespace UuidTime

open PyText Binary64

/-! ## UUIDs -/

abbrev Uuid := Fin (2 ^ 128)

instance uuid_neZero : NeZero (2 ^ 128 : ℕ) := ⟨by decide⟩

/-- Eight, four, four, four and twelve digits. -/
def dashed (h : Str) : Str :=
  h.take 8 ++ ch '-' :: ((h.drop 8).take 4 ++ ch '-' :: ((h.drop 12).take 4 ++
    ch '-' :: ((h.drop 16).take 4 ++ ch '-' :: h.drop 20)))

def Uuid.text (u : Uuid) : Str := dashed (padHex 32 u.val)

def undashed (s : Str) : Str := s.filter (· ≠ ch '-')

def readHex (ds : List ℕ) : ℕ := ds.foldl (fun a d => 16 * a + d) 0

/-- How a text is read as a uuid: the dashes are ignored, 32 digits have to remain. -/
def Uuid.ofText (s : Str) : Option Uuid :=
  match (undashed s).mapM hexVal with
  | some ds => if ds.length = 32 ∧ s.length ≤ 36 then some (Fin.ofNat _ (readHex ds)) else none
  | none => none

theorem padHex_ne_dash {w n : ℕ} : ∀ c ∈ padHex w n, c ≠ ch '-' := by
  intro c hc
  obtain ⟨d, hd, rfl⟩ := List.mem_map.mp hc
  have hlt := fixedDigits_lt (b := 16) (by omega) w n d hd
  intro h
  have hv := hexVal_hexDigit d hlt
  rw [h] at hv
  revert hv
  have : hexVal (ch '-') = none := by decide
  simp [this]

theorem undashed_dashed {h : Str} (hh : ∀ c ∈ h, c ≠ ch '-') : undashed (dashed h) = h := by
  have hf : ∀ s : Str, s ⊆ h → s.filter (· ≠ ch '-') = s := by
    intro s hs
    exact List.filter_eq_self.mpr fun c hc => by simpa using hh c (hs hc)
  have htd : ∀ n m : ℕ, ((h.drop n).take m) ⊆ h := fun n m c hc =>
    List.drop_subset n h (List.take_subset m _ hc)
  simp only [undashed, dashed, List.filter_append, List.filter_cons, ne_eq, not_true_eq_false,
    decide_false, Bool.false_eq_true, if_false]
  have h₀ := hf (h.take 8) (List.take_subset 8 h)
  have h₁ := hf ((h.drop 8).take 4) (htd 8 4)
  have h₂ := hf ((h.drop 12).take 4) (htd 12 4)
  have h₃ := hf ((h.drop 16).take 4) (htd 16 4)
  have h₄ := hf (h.drop 20) (List.drop_subset 20 h)
  simp only [ne_eq] at h₀ h₁ h₂ h₃ h₄
  rw [h₀, h₁, h₂, h₃, h₄]
  have e₃ : (h.drop 16).take 4 ++ h.drop 20 = h.drop 16 := by
    have := List.take_append_drop 4 (h.drop 16)
    rwa [List.drop_drop] at this
  have e₂ : (h.drop 12).take 4 ++ h.drop 16 = h.drop 12 := by
    have := List.take_append_drop 4 (h.drop 12)
    rwa [List.drop_drop] at this
  have e₁ : (h.drop 8).take 4 ++ h.drop 12 = h.drop 8 := by
    have := List.take_append_drop 4 (h.drop 8)
    rwa [List.drop_drop] at this
  rw [e₃, e₂, e₁, List.take_append_drop]

theorem readHex_fixedDigits (w n : ℕ) : readHex (fixedDigits 16 w n) = n % 16 ^ w :=
  foldl_fixedDigits 16 w n

theorem mapM_hexVal_padHex (w n : ℕ) : (padHex w n).mapM hexVal = some (fixedDigits 16 w n) := by
  have gen : ∀ ds : List ℕ, (∀ d ∈ ds, d < 16) → (ds.map hexDigit).mapM hexVal = some ds := by
    intro ds
    induction ds with
    | nil => intro _; rfl
    | cons d ds ih =>
      intro h
      rw [List.map_cons, List.mapM_cons, hexVal_hexDigit d (h d (by simp)),
        ih fun e he => h e (by simp [he])]
      rfl
  exact gen _ (fixedDigits_lt (by omega) w n)

theorem text_length (u : Uuid) : (Uuid.text u).length = 36 := by
  simp [Uuid.text, dashed]

/-- A uuid reads back from its text. -/
theorem ofText_text (u : Uuid) : Uuid.ofText (Uuid.text u) = some u := by
  have hund : undashed (Uuid.text u) = padHex 32 u.val := undashed_dashed padHex_ne_dash
  have hlt := u.isLt
  have hval : u.val % 16 ^ 32 = u.val := Nat.mod_eq_of_lt (by omega)
  rw [Uuid.ofText, hund, mapM_hexVal_padHex]
  simp only [fixedDigits_length, text_length, readHex_fixedDigits, hval]
  simp

theorem uuid_text_injective {u v : Uuid} (h : Uuid.text u = Uuid.text v) : u = v := by
  have hu := ofText_text u
  rw [h, ofText_text v] at hu
  exact (Option.some.inj hu).symm

theorem mem_uuid_text {u : Uuid} {c : CodePoint} (hc : c ∈ u.text) :
    c = ch '-' ∨ ∃ d, d < 16 ∧ hexDigit d = c := by
  have hmem : c = ch '-' ∨ c ∈ padHex 32 u.val := by
    simp only [Uuid.text, dashed, List.mem_append, List.mem_cons] at hc
    rcases hc with h | h | h | h | h | h | h | h | h
    · exact Or.inr (List.mem_of_mem_take h)
    · exact Or.inl h
    · exact Or.inr (List.mem_of_mem_drop (List.mem_of_mem_take h))
    · exact Or.inl h
    · exact Or.inr (List.mem_of_mem_drop (List.mem_of_mem_take h))
    · exact Or.inl h
    · exact Or.inr (List.mem_of_mem_drop (List.mem_of_mem_take h))
    · exact Or.inl h
    · exact Or.inr (List.mem_of_mem_drop h)
  rcases hmem with h | h
  · exact Or.inl h
  · obtain ⟨d, hd, rfl⟩ := List.mem_map.mp h
    exact Or.inr ⟨d, fixedDigits_lt (by omega) 32 _ d hd, rfl⟩

theorem uuid_text_scalar (u : Uuid) : Scalar u.text = true := by
  have hhex : ∀ d, d < 16 → (hexDigit d).isSurrogate = false := by decide
  refine List.all_eq_true.mpr fun c hc => ?_
  rcases mem_uuid_text hc with rfl | ⟨d, hd, rfl⟩
  · decide
  · simp [hhex d hd]

/-! ## Timestamps -/

/-- A `datetime` in UTC. -/
structure Datetime where
  year : ℕ
  month : ℕ
  day : ℕ
  hour : ℕ
  minute : ℕ
  second : ℕ
  microsecond : ℕ
  valid : year < 10000 ∧ month < 100 ∧ day < 100 ∧ hour < 100 ∧ minute < 100 ∧ second < 100 ∧
    microsecond < 1000000
  deriving DecidableEq

/-- The microseconds are left out when they are zero. -/
def fractionText (us : ℕ) : Str := if us = 0 then [] else ch '.' :: padDec 6 us

def Datetime.isoformat (t : Datetime) : Str :=
  padDec 4 t.year ++ ch '-' :: (padDec 2 t.month ++ ch '-' :: (padDec 2 t.day ++ ch 'T' ::
    (padDec 2 t.hour ++ ch ':' :: (padDec 2 t.minute ++ ch ':' :: (padDec 2 t.second ++
      (fractionText t.microsecond ++ lit "+00:00"))))))

theorem padDec_append_inj {w m n : ℕ} {s t : Str} (hm : m < 10 ^ w) (hn : n < 10 ^ w)
    (h : padDec w m ++ s = padDec w n ++ t) : m = n ∧ s = t := by
  obtain ⟨h₁, h₂⟩ := List.append_inj h (by simp)
  exact ⟨padDec_injective hm hn h₁, h₂⟩

theorem padDec_sep_inj {w m n : ℕ} {c : CodePoint} {s t : Str} (hm : m < 10 ^ w) (hn : n < 10 ^ w)
    (h : padDec w m ++ c :: s = padDec w n ++ c :: t) : m = n ∧ s = t := by
  obtain ⟨h₁, h₂⟩ := padDec_append_inj hm hn h
  exact ⟨h₁, (List.cons.inj h₂).2⟩

theorem fractionText_inj {m n : ℕ} (hm : m < 10 ^ 6) (hn : n < 10 ^ 6)
    (h : fractionText m ++ lit "+00:00" = fractionText n ++ lit "+00:00") : m = n := by
  have h := List.append_cancel_right h
  simp only [fractionText] at h
  split_ifs at h with h₁ h₂ h₂
  · omega
  · exact padDec_injective hm hn (List.cons.inj h).2

theorem isoformat_injective {s t : Datetime} (h : s.isoformat = t.isoformat) : s = t := by
  obtain ⟨y, mo, d, ho, mi, se, us, hs⟩ := s
  obtain ⟨y', mo', d', ho', mi', se', us', ht⟩ := t
  obtain ⟨hy, hmo, hd, hho, hmi, hse, hus⟩ := hs
  obtain ⟨hy', hmo', hd', hho', hmi', hse', hus'⟩ := ht
  simp only [Datetime.isoformat] at h
  obtain ⟨ey, h₁⟩ := padDec_sep_inj hy hy' h
  obtain ⟨emo, h₂⟩ := padDec_sep_inj hmo hmo' h₁
  obtain ⟨ed, h₃⟩ := padDec_sep_inj hd hd' h₂
  obtain ⟨eho, h₄⟩ := padDec_sep_inj hho hho' h₃
  obtain ⟨emi, h₅⟩ := padDec_sep_inj hmi hmi' h₄
  obtain ⟨ese, h₆⟩ := padDec_append_inj hse hse' h₅
  have eus := fractionText_inj hus hus' h₆
  subst ey emo ed eho emi ese eus
  rfl

theorem scalar_padDec (w n : ℕ) : Scalar (padDec w n) = true := by
  have hdig : ∀ d, d < 10 → (digitCp d).isSurrogate = false := by decide
  refine List.all_eq_true.mpr fun c hc => ?_
  obtain ⟨d, hd, rfl⟩ := List.mem_map.mp hc
  simp [hdig d (fixedDigits_lt (by omega) w _ d hd)]

theorem isoformat_scalar (t : Datetime) : Scalar t.isoformat = true := by
  have hfrac : Scalar (fractionText t.microsecond) = true := by
    rw [fractionText]
    split_ifs
    · rfl
    · rw [scalar_cons, scalar_padDec]
      rfl
  simp only [Datetime.isoformat, scalar_append, scalar_cons, scalar_padDec, hfrac]
  decide

/-! ## `datetime.fromtimestamp(x, tz=utc)` -/

/-- The proleptic Gregorian date of an ordinal; day 1 is 0001-01-01. -/
def dateOfOrdinal (ordinal : ℕ) : ℕ × ℕ × ℕ :=
  let n := ordinal - 1
  let n400 := n / 146097
  let n := n % 146097
  let n100 := n / 36524
  let n := n % 36524
  let n4 := n / 1461
  let n := n % 1461
  let n1 := n / 365
  let n := n % 365
  let year := n400 * 400 + n100 * 100 + n4 * 4 + n1 + 1
  if n1 = 4 ∨ n100 = 4 then (year - 1, 12, 31)
  else
    let leap := n1 = 3 ∧ (n4 ≠ 24 ∨ n100 = 3)
    let lengths := [31, if leap then 29 else 28, 31, 30, 31, 30, 31, 31, 30, 31, 30, 31]
    monthOf year n 1 lengths
where
  monthOf (year n month : ℕ) : List ℕ → ℕ × ℕ × ℕ
    | [] => (year, month, n + 1)
    | len :: rest => if n < len then (year, month, n + 1) else monthOf year (n - len) (month + 1) rest

/-- Microseconds since the epoch: the fraction is scaled in double precision, then rounded. -/
def toMicroseconds (neg : Bool) (x : Magnitude) : Option ℤ :=
  (roundMagnitude (x.units % 2 ^ scale * 1000000) 1).map fun f =>
    let us := x.units / 2 ^ scale * 1000000 + roundDiv f.units (2 ^ scale)
    if neg then -(us : ℤ) else us

/-- `none` is a `ValueError` or an `OverflowError`: the year has to be in 1..9999. -/
def fromTimestamp : Float64 → Option Datetime
  | .finite neg x =>
    match toMicroseconds neg x with
    | none => none
    | some us =>
      let seconds := us / 1000000
      let ordinal := seconds / 86400 + 719163
      if 1 ≤ ordinal then
        let date := dateOfOrdinal ordinal.toNat
        let rest := (seconds % 86400).toNat
        if h : date.1 < 10000 ∧ date.2.1 < 100 ∧ date.2.2 < 100 ∧ rest / 3600 < 100 ∧
            rest / 60 % 60 < 100 ∧ rest % 60 < 100 ∧ (us % 1000000).toNat < 1000000 then
          some ⟨date.1, date.2.1, date.2.2, rest / 3600, rest / 60 % 60, rest % 60,
            (us % 1000000).toNat, h⟩
        else none
      else none
  | _ => none

end UuidTime
