import McpControlPlane.SequentialGateway

/-! # What a Slack signature vouches for

The signed bytes determine the timestamp and the body, because no text that `int` reads has a
colon. The check raises for some texts that nobody signed. -/
namespace SignatureCheck

open PyText Binary64 JsonText PyInt GatewayOps SlackSignature ApprovalStore Gateway SequentialGateway
open Interleaving Sequential

variable {W : World} {S : Slack} {now : Magnitude} {timestamp signature : Option Str} {body : Bytes}

/-! ## The signed bytes -/

/-- Two lists that are cut at the first of some element are cut at the same place. -/
theorem cut_at_first {α : Type} {a : α} {x₁ x₂ z₁ z₂ : List α} (h₁ : a ∉ x₁) (h₂ : a ∉ x₂)
    (h : x₁ ++ a :: z₁ = x₂ ++ a :: z₂) : x₁ = x₂ ∧ z₁ = z₂ := by
  induction x₁ generalizing x₂ with
  | nil =>
    cases x₂ with
    | nil => exact ⟨rfl, (List.cons.inj h).2⟩
    | cons y x₂ =>
      obtain ⟨rfl, -⟩ := List.cons.inj h
      exact absurd List.mem_cons_self h₂
  | cons x x₁ ih =>
    cases x₂ with
    | nil =>
      obtain ⟨rfl, -⟩ := List.cons.inj h
      exact absurd List.mem_cons_self h₁
    | cons y x₂ =>
      obtain ⟨rfl, htail⟩ := List.cons.inj h
      obtain ⟨rfl, hz⟩ := ih (fun hin => h₁ (List.mem_cons_of_mem _ hin))
        (fun hin => h₂ (List.mem_cons_of_mem _ hin)) htail
      exact ⟨rfl, hz⟩

theorem utf8Units_colon {c : CodePoint} (h : 58 ∈ utf8Units c) : c = ch ':' := by
  have hval : c.val = 58 := by
    simp only [utf8Units] at h
    split_ifs at h <;> simp only [List.mem_cons, List.not_mem_nil, or_false] at h <;> omega
  exact Fin.ext hval

theorem colon_notMem_bytes {s : Str} (h : ch ':' ∉ s) :
    UInt8.ofNat 58 ∉ (s.flatMap utf8Units).map UInt8.ofNat := by
  intro hin
  obtain ⟨u, hu, heq⟩ := List.mem_map.mp hin
  obtain ⟨c, hc, hcu⟩ := List.mem_flatMap.mp hu
  have hlt := utf8Units_lt c u hcu
  have hval := congrArg UInt8.toNat heq
  simp only [UInt8.toNat_ofNat', Nat.mod_eq_of_lt hlt] at hval
  rw [show u = 58 by omega] at hcu
  exact h (utf8Units_colon hcu ▸ hc)

theorem signedBytes_eq {timestamp : Str} (h : Scalar timestamp = true) (body : Bytes) :
    signedBytes timestamp body = some (((lit "v0:").flatMap utf8Units).map UInt8.ofNat ++
      ((timestamp.flatMap utf8Units).map UInt8.ofNat ++ UInt8.ofNat 58 :: body)) := by
  have hscalar : Scalar (lit "v0:" ++ timestamp ++ lit ":") = true := by
    rw [scalar_append, scalar_append, h]
    decide
  rw [signedBytes, utf8Encode, if_pos hscalar]
  simp only [List.flatMap_append, List.map_append, Option.map_some, List.append_assoc]
  rfl

/-- The first colon after `v0:` ends the timestamp. -/
theorem signedBytes_injective {t₁ t₂ : Str} {b₁ b₂ : Bytes} (h₁ : readInt t₁ ≠ none)
    (h₂ : readInt t₂ ≠ none) (h : signedBytes t₁ b₁ = signedBytes t₂ b₂) : t₁ = t₂ ∧ b₁ = b₂ := by
  obtain ⟨n₁, hn₁⟩ := Option.ne_none_iff_exists'.mp h₁
  obtain ⟨n₂, hn₂⟩ := Option.ne_none_iff_exists'.mp h₂
  rw [signedBytes_eq (readInt_scalar hn₁), signedBytes_eq (readInt_scalar hn₂)] at h
  have htail := List.append_cancel_left (Option.some.inj h)
  obtain ⟨htimes, hbodies⟩ := cut_at_first (colon_notMem_bytes (readInt_colon hn₁))
    (colon_notMem_bytes (readInt_colon hn₂)) htail
  refine ⟨utf8Encode_injective (b := (t₁.flatMap utf8Units).map UInt8.ofNat) ?_ ?_, hbodies⟩
  · rw [utf8Encode, if_pos (readInt_scalar hn₁)]
  · rw [utf8Encode, if_pos (readInt_scalar hn₂), htimes]

/-! ## The age of a timestamp -/

/-- The timestamp is at most 300 seconds away from the clock. -/
def WithinTolerance (now : Magnitude) (requestTs : ℤ) : Prop :=
  |(now.units : ℤ) - requestTs * (2 : ℤ) ^ scale| ≤ replayToleranceSeconds * (2 : ℤ) ^ scale

/-- A whole number of seconds below 2^53. -/
theorem exists_seconds {n : ℕ} (h : n < 2 ^ 53) : ∃ x : Magnitude, x.units = n * 2 ^ scale := by
  rcases Nat.eq_zero_or_pos n with rfl | hpos
  · exact ⟨zeroMagnitude, by rw [zeroMagnitude_units, Nat.zero_mul]⟩
  · have hlog : Nat.log2 n ≤ 52 := by
      have := (Nat.log2_lt hpos.ne').mpr h
      omega
    have hself := Nat.log2_self_le hpos.ne'
    have hlt := Nat.lt_log2_self (n := n)
    refine ⟨⟨n * 2 ^ (52 - Nat.log2 n), scale - (52 - Nat.log2 n), ?_, ?_, Or.inr ?_⟩, ?_⟩
    · calc n * 2 ^ (52 - Nat.log2 n) < 2 ^ (Nat.log2 n + 1) * 2 ^ (52 - Nat.log2 n) :=
            Nat.mul_lt_mul_of_pos_right hlt (by positivity)
        _ = 2 ^ 53 := by rw [← Nat.pow_add]; congr 1; omega
    · unfold scale
      omega
    · calc 2 ^ 52 = 2 ^ Nat.log2 n * 2 ^ (52 - Nat.log2 n) := by rw [← Nat.pow_add]; congr 1; omega
        _ ≤ n * 2 ^ (52 - Nat.log2 n) := Nat.mul_le_mul_right _ hself
    · have hshift : 52 - Nat.log2 n + (scale - (52 - Nat.log2 n)) = scale := by
        unfold scale
        omega
      change n * 2 ^ (52 - Nat.log2 n) * 2 ^ (scale - (52 - Nat.log2 n)) = n * 2 ^ scale
      rw [Nat.mul_assoc, ← Nat.pow_add, hshift]

theorem roundMagnitude_isSome {num : ℕ} (h : num < 2 ^ 2000) : ∃ x, roundMagnitude num 1 = some x := by
  have hshift : dropped (num / 1) + 1 ≤ 2045 := by
    rw [dropped, Nat.div_one]
    rcases Nat.eq_zero_or_pos num with rfl | hpos
    · simp
    · have := (Nat.log2_lt hpos.ne').mpr h
      omega
  rw [roundMagnitude]
  split_ifs with hm hs
  · exact ⟨_, rfl⟩
  · omega
  · exact ⟨_, rfl⟩

/-- One step of a double past 300 seconds, in the binade of the clock. -/
theorem exists_pastTolerance : ∃ y : Magnitude, y.units = (300 * 2 ^ 43 + 1) * 2 ^ 1031 := by
  refine ⟨⟨(300 * 2 ^ 43 + 1) * 2, 1030, by norm_num, by norm_num, Or.inr (by norm_num)⟩, ?_⟩
  rw [Magnitude.units, Nat.mul_assoc, ← Nat.pow_succ']

/-- Whether the rounded age of a whole timestamp is past the tolerance. -/
theorem rounded_age_iff {age : Magnitude} {d k : ℕ} (hd : d = k * 2 ^ 1031)
    (hage : roundMagnitude d 1 = some age) :
    age.units ≤ replayToleranceSeconds * 2 ^ scale ↔ d ≤ replayToleranceSeconds * 2 ^ scale := by
  obtain ⟨y, hy⟩ := exists_seconds (n := replayToleranceSeconds) (by norm_num [replayToleranceSeconds])
  constructor
  · intro hle
    by_contra hgt
    have hscale : 2 ^ scale = 2 ^ 43 * 2 ^ 1031 := by rw [scale, ← Nat.pow_add]
    obtain ⟨past, hpast⟩ := exists_pastTolerance
    have hk : 300 * 2 ^ 43 + 1 ≤ k := by
      rw [not_le, hd, hscale, ← Nat.mul_assoc] at hgt
      have := Nat.lt_of_mul_lt_mul_right hgt
      rw [replayToleranceSeconds] at this
      omega
    have hround := le_roundMagnitude (y := past) Nat.one_pos hage (by
      rw [Nat.mul_one, hpast, hd]
      exact Nat.mul_le_mul_right _ hk)
    rw [hpast] at hround
    have hle' := hround.trans hle
    rw [hscale, ← Nat.mul_assoc] at hle'
    have := Nat.le_of_mul_le_mul_right hle' (by positivity)
    rw [replayToleranceSeconds] at this
    omega
  · intro hle
    rw [← hy] at hle ⊢
    exact roundMagnitude_le Nat.one_pos hage (by rwa [Nat.mul_one])

/-- The rounded age past the tolerance. -/
theorem stale_eq {requestTs : ℤ} {ts : Magnitude}
    (hts : roundMagnitude (requestTs.natAbs * 2 ^ scale) 1 = some ts) {d : ℕ}
    (hd : d = ((now.units : ℤ) - if requestTs < 0 then -(ts.units : ℤ) else ts.units).natAbs)
    {age : Magnitude} (hage : roundMagnitude d 1 = some age) :
    stale now requestTs = some (decide (replayToleranceSeconds * 2 ^ scale < age.units)) := by
  rw [stale, hts, Option.map_some]
  rw [hd] at hage
  simp only [hage]

theorem age_lt (hhigh : now.units < 2 ^ 52 * 2 ^ scale) {requestTs : ℤ}
    (hts : requestTs.natAbs < 2 ^ 53) :
    ((now.units : ℤ) - requestTs * (2 : ℤ) ^ scale).natAbs < 2 ^ 2000 := by
  have hle : ((now.units : ℤ) - requestTs * (2 : ℤ) ^ scale).natAbs ≤
      now.units + requestTs.natAbs * 2 ^ scale := by
    refine (Int.natAbs_sub_le _ _).trans ?_
    rw [Int.natAbs_natCast, Int.natAbs_mul, Int.natAbs_pow, show (2 : ℤ).natAbs = 2 from rfl]
  have hmul := Nat.mul_lt_mul_of_pos_right hts (show 0 < 2 ^ scale by positivity)
  have hpow : 2 ^ 54 * 2 ^ scale ≤ 2 ^ 2000 := by
    rw [← Nat.pow_add]
    apply Nat.pow_le_pow_right
    · norm_num
    · norm_num [scale]
  generalize 2 ^ scale = unit at *
  omega

/-- A timestamp out of the range of the exact integers is stale in any case. -/
theorem stale_of_big (hhigh : now.units < 2 ^ 52 * 2 ^ scale) {requestTs : ℤ}
    (hbig : 2 ^ 53 ≤ requestTs.natAbs) : stale now requestTs ≠ some false := by
  cases hts : roundMagnitude (requestTs.natAbs * 2 ^ scale) 1 with
  | none => simp [stale, hts]
  | some ts =>
    obtain ⟨y, hy⟩ := exists_seconds (n := 2 ^ 53 - 1) (by norm_num)
    have hle := le_roundMagnitude (y := y) Nat.one_pos hts (by
      rw [Nat.mul_one, hy]
      exact Nat.mul_le_mul_right _ (by omega))
    obtain ⟨z, hz⟩ := exists_seconds (n := 301) (by norm_num)
    have hfar : 301 * 2 ^ scale ≤
        ((now.units : ℤ) - if requestTs < 0 then -(ts.units : ℤ) else ts.units).natAbs := by
      rw [hy] at hle
      generalize 2 ^ scale = unit at *
      split_ifs <;> omega
    cases hage : roundMagnitude
        ((now.units : ℤ) - if requestTs < 0 then -(ts.units : ℤ) else ts.units).natAbs 1 with
    | none => simp [stale, hts, hage]
    | some age =>
      have hpast := le_roundMagnitude (y := z) Nat.one_pos hage (by rwa [Nat.mul_one, hz])
      have hpos : 0 < 2 ^ scale := by positivity
      rw [hz] at hpast
      rw [stale_eq hts rfl hage, replayToleranceSeconds, ne_eq, Option.some.injEq,
        decide_eq_false_iff_not, not_not]
      generalize 2 ^ scale = unit at *
      omega

/-- For a clock in this range the check of the age is exact. -/
theorem stale_iff (hlow : 2 ^ 9 * 2 ^ scale ≤ now.units) (hhigh : now.units < 2 ^ 52 * 2 ^ scale)
    (requestTs : ℤ) : stale now requestTs = some false ↔ WithinTolerance now requestTs := by
  have hscale : 2 ^ scale = 2 ^ 43 * 2 ^ 1031 := by rw [scale, ← Nat.pow_add]
  have hunits : ∃ k, now.units = k * 2 ^ 1031 := by
    rcases now.multiple_or_small 1031 with hk | ⟨-, hsmall⟩
    · exact hk
    · have hbinade : 2 ^ (52 + 1031) = 2 ^ 9 * 2 ^ scale := by rw [scale, ← Nat.pow_add]
      rw [hbinade] at hsmall
      exact absurd hlow (not_le.mpr hsmall)
  obtain ⟨k, hk⟩ := hunits
  by_cases hbig : requestTs.natAbs < 2 ^ 53
  · obtain ⟨ts, hts⟩ := exists_seconds hbig
    have hexact : roundMagnitude (requestTs.natAbs * 2 ^ scale) 1 = some ts := by
      have := roundMagnitude_exact ts Nat.one_pos
      rwa [Nat.mul_one, hts] at this
    have hsigned : (if requestTs < 0 then -(ts.units : ℤ) else ts.units) =
        requestTs * (2 : ℤ) ^ scale := by
      rw [hts]
      push_cast
      generalize (2 : ℤ) ^ scale = unit
      split_ifs with hneg
      · rw [abs_of_neg hneg]
        ring
      · rw [abs_of_nonneg (not_lt.mp hneg)]
    have hmultiple : ((now.units : ℤ) - requestTs * (2 : ℤ) ^ scale).natAbs =
        ((k : ℤ) - requestTs * 2 ^ 43).natAbs * 2 ^ 1031 := by
      have hcast : ((2 : ℤ) ^ scale) = 2 ^ 43 * 2 ^ 1031 := by exact_mod_cast hscale
      rw [hk, hcast]
      push_cast
      rw [← mul_assoc, ← sub_mul, Int.natAbs_mul, Int.natAbs_pow, show (2 : ℤ).natAbs = 2 from rfl]
    obtain ⟨age, hage⟩ := roundMagnitude_isSome (age_lt hhigh hbig)
    rw [stale_eq hexact (by rw [hsigned]) hage, Option.some.injEq, decide_eq_false_iff_not, not_lt,
      rounded_age_iff hmultiple hage, WithinTolerance, ← Int.natCast_natAbs]
    exact_mod_cast Iff.rfl
  · rw [not_lt] at hbig
    refine iff_of_false (stale_of_big hhigh hbig) ?_
    rw [WithinTolerance, replayToleranceSeconds]
    have hfar : 2 ^ 53 * (2 : ℤ) ^ scale ≤ |requestTs * (2 : ℤ) ^ scale| := by
      rw [abs_mul, abs_of_pos (show (0 : ℤ) < 2 ^ scale by positivity), ← Int.natCast_natAbs]
      exact mul_le_mul_of_nonneg_right (by exact_mod_cast hbig) (by positivity)
    have hhigh' : (now.units : ℤ) < 2 ^ 52 * (2 : ℤ) ^ scale := by exact_mod_cast hhigh
    have hpos : (0 : ℤ) < (2 : ℤ) ^ scale := by positivity
    generalize requestTs * (2 : ℤ) ^ scale = ts at *
    generalize (2 : ℤ) ^ scale = unit at *
    rw [abs_le]
    rcases le_abs.mp hfar with h | h <;> omega

/-! ## What is accepted -/

/-- The signature is the HMAC of a timestamp that is in time, and of the body. -/
def Vouched (S : Slack) (now : Magnitude) (timestamp : Option Str) (body : Bytes)
    (signature : Option Str) : Prop :=
  ∃ mac t n b, S.mac = some mac ∧ timestamp = some t ∧ readInt t = some n ∧
    stale now n = some false ∧ signedBytes t body = some b ∧ signature = some (lit "v0=" ++ mac b)

theorem readInt_nil : readInt [] = none := by decide

theorem missing_false {s : Option Str} (h : missing s = false) : ∃ t, s = some t ∧ t ≠ [] := by
  cases s with
  | none => simp [missing] at h
  | some t =>
    refine ⟨t, rfl, ?_⟩
    rintro rfl
    simp [missing] at h

theorem missing_of_readInt {t : Str} {n : ℤ} (h : readInt t = some n) : missing (some t) = false := by
  cases t with
  | nil =>
    rw [readInt_nil] at h
    cases h
  | cons c t => rfl

theorem vouched_of_verdict (h : verdictAt S now timestamp body signature = .ok true) :
    Vouched S now timestamp body signature := by
  cases hmac : S.mac with
  | none => simp [verdictAt, hmac] at h
  | some mac =>
    simp only [verdictAt, hmac] at h
    split_ifs at h with hmissing
    · cases h
    · obtain ⟨htime, hsig⟩ := Bool.or_eq_false_iff.mp (Bool.eq_false_iff.mpr hmissing)
      obtain ⟨t, rfl, -⟩ := missing_false htime
      obtain ⟨sig, rfl, -⟩ := missing_false hsig
      simp only [Option.getD_some] at h
      cases hn : readInt t with
      | none =>
        rw [hn] at h
        cases h
      | some n =>
        rw [hn] at h
        change ageVerdict (stale now n) _ = _ at h
        rcases hold : stale now n with _ | _ | _
        · rw [hold] at h
          cases h
        · rw [hold] at h
          have hb := signedBytes_eq (readInt_scalar hn) body
          simp only [ageVerdict, signatureMatches, hb] at h
          split_ifs at h with hascii
          simp only [Except.ok.injEq, decide_eq_true_eq] at h
          exact ⟨mac, t, n, _, hmac, rfl, hn, hold, hb, by rw [h]⟩
        · rw [hold] at h
          cases h

/-- A hexadecimal signature can be compared. -/
theorem verdict_of_vouched (hhex : ∀ mac, S.mac = some mac → ∀ b, (mac b).all ascii = true)
    (h : Vouched S now timestamp body signature) :
    verdictAt S now timestamp body signature = .ok true := by
  obtain ⟨mac, t, n, b, hmac, rfl, hn, hold, hb, rfl⟩ := h
  have hsig : missing (some (lit "v0=" ++ mac b)) = false := rfl
  have hascii : (lit "v0=" ++ mac b).all ascii = true := by
    rw [List.all_append, hhex mac hmac, Bool.and_true]
    decide
  simp only [verdictAt, hmac, missing_of_readInt hn, hsig, Option.getD_some, hn]
  change ageVerdict (stale now n) _ = _
  rw [hold, ageVerdict, signatureMatches, hb]
  simp [hascii]

/-- The signed bytes are those of one timestamp and one body; a check says yes exactly to what is
vouched for; and for clocks from 512 to 2^52 seconds the tolerance is exact. -/
theorem signed_is_acted_on (hhex : ∀ mac, S.mac = some mac → ∀ b, (mac b).all ascii = true) :
    (∀ t₁ t₂ b₁ b₂, readInt t₁ ≠ none → readInt t₂ ≠ none →
      signedBytes t₁ b₁ = signedBytes t₂ b₂ → t₁ = t₂ ∧ b₁ = b₂) ∧
    (∀ W now timestamp body signature s s',
      Ends (AtInstant W now) (verifySignature S timestamp body signature) s (.ok true) s' ↔
        Vouched S now timestamp body signature ∧ s' = s) ∧
    ∀ now requestTs, 2 ^ 9 * 2 ^ scale ≤ now.units → now.units < 2 ^ 52 * 2 ^ scale →
      (stale now requestTs = some false ↔ WithinTolerance now requestTs) := by
  refine ⟨fun t₁ t₂ b₁ b₂ => signedBytes_injective, ?_, fun now n hlow hhigh => stale_iff hlow hhigh n⟩
  intro W now timestamp body signature s s'
  rw [ends_verifySignature]
  apply and_congr_left
  intro _
  constructor
  · exact fun h => vouched_of_verdict h.symm
  · exact fun h => (verdict_of_vouched hhex h).symm

/-- The HMAC under `test-signing-secret` for one request. -/
def testSlack : Slack :=
  ⟨some fun _ => lit "e3e994da8ac7f6ebbd128470dd76100b0d77dd03c9fd2b2732965713e8576df2"⟩

/-- The signature of `{}` at the time 0. -/
theorem signed_is_acted_on_empty :
    Ends (AtInstant openWorld zeroMagnitude) (verifySignature testSlack (some (lit "0"))
      [UInt8.ofNat 123, UInt8.ofNat 125] (some (lit "v0=" ++
        lit "e3e994da8ac7f6ebbd128470dd76100b0d77dd03c9fd2b2732965713e8576df2")))
      (.initial 0) (.ok true) (.initial 0) := by
  have hhex : ∀ mac, testSlack.mac = some mac → ∀ b, (mac b).all ascii = true := by
    intro mac hmac b
    obtain rfl := Option.some.inj hmac
    change (lit "e3e994da8ac7f6ebbd128470dd76100b0d77dd03c9fd2b2732965713e8576df2").all ascii = true
    decide +kernel
  refine ((signed_is_acted_on hhex).2.1 _ _ _ _ _ _ _).mpr ⟨?_, rfl⟩
  refine ⟨_, lit "0", 0, _, rfl, rfl, by decide +kernel, by decide +kernel,
    signedBytes_eq (by decide) _, rfl⟩

/-! ## What raises -/

/-- The timestamp is past the range of a float, or it is in time and the signature has a
character outside of ASCII. -/
def Crashes (S : Slack) (now : Magnitude) (timestamp signature : Option Str) : Prop :=
  S.mac ≠ none ∧ ∃ t sig n, timestamp = some t ∧ signature = some sig ∧ sig ≠ [] ∧
    readInt t = some n ∧ (roundMagnitude (n.natAbs * 2 ^ scale) 1 = none ∨
      stale now n = some false ∧ sig.all ascii = false)

theorem stale_none {n : ℤ} : stale now n = none ↔ roundMagnitude (n.natAbs * 2 ^ scale) 1 = none := by
  rw [stale, Option.map_eq_none_iff]

theorem verdictAt_error :
    (∃ e, verdictAt S now timestamp body signature = .error e) ↔ Crashes S now timestamp signature := by
  cases hmac : S.mac with
  | none =>
    refine iff_of_false ?_ fun h => h.1 hmac
    simp [verdictAt, hmac]
  | some mac =>
    constructor
    · rintro ⟨e, h⟩
      simp only [verdictAt, hmac] at h
      split_ifs at h with hmissing
      · obtain ⟨htime, hsig⟩ := Bool.or_eq_false_iff.mp (Bool.eq_false_iff.mpr hmissing)
        obtain ⟨t, rfl, -⟩ := missing_false htime
        obtain ⟨sig, rfl, hne⟩ := missing_false hsig
        simp only [Option.getD_some] at h
        cases hn : readInt t with
        | none =>
          rw [hn] at h
          cases h
        | some n =>
          rw [hn] at h
          change ageVerdict (stale now n) _ = _ at h
          refine ⟨by simp [hmac], t, sig, n, rfl, rfl, hne, hn, ?_⟩
          rcases hold : stale now n with _ | _ | _
          · exact Or.inl (stale_none.mp hold)
          · rw [hold] at h
            simp only [ageVerdict, signatureMatches, signedBytes_eq (readInt_scalar hn)] at h
            split_ifs at h with hascii
            exact Or.inr ⟨rfl, Bool.eq_false_iff.mpr hascii⟩
          · rw [hold] at h
            cases h
    · rintro ⟨-, t, sig, n, rfl, rfl, hne, hn, hcase⟩
      have hsig : missing (some sig) = false := by simpa [missing] using hne
      simp only [verdictAt, hmac, missing_of_readInt hn, hsig, Option.getD_some, hn]
      change ∃ e, ageVerdict (stale now n) _ = _
      rcases hcase with hbig | ⟨hold, hascii⟩
      · rw [stale_none.mpr hbig]
        exact ⟨_, rfl⟩
      · rw [hold, ageVerdict, signatureMatches, signedBytes_eq (readInt_scalar hn)]
        simp only [hascii, Bool.false_eq_true, if_false]
        exact ⟨_, rfl⟩

/-- The check answers with a boolean, and a request that is not vouched for is answered 401. -/
def AnswersSafely (G : Config) (W : World) (now : Magnitude) (timestamp : Option Str) (body : Bytes)
    (signature : Option Str) : Prop :=
  (∀ s r s', Ends (AtInstant W now) (verifySignature G.slack timestamp body signature) s r s' →
    ∃ valid, r = .ok valid) ∧
  (¬ Vouched G.slack now timestamp body signature → ∀ approvalId s r s',
    Ends (AtInstant W now) (decideApproval G approvalId timestamp signature body) s r s' →
      ∃ answer, r = .ok ⟨401, answer⟩)

theorem not_safe_of_crashes {G : Config} (h : Crashes G.slack now timestamp signature) :
    ¬ AnswersSafely G W now timestamp body signature := by
  rintro ⟨hbool, -⟩
  obtain ⟨e, he⟩ := (verdictAt_error (S := G.slack)).mpr h
  obtain ⟨valid, hvalid⟩ := hbool (.initial 0) _ _ (ends_verifySignature.mpr ⟨rfl, rfl⟩)
  rw [he] at hvalid
  cases hvalid

/-- Nothing else goes wrong. -/
theorem signature_check_answers_iff {G : Config} :
    AnswersSafely G W now timestamp body signature ↔ ¬ Crashes G.slack now timestamp signature := by
  refine ⟨fun hsafe hcrash => not_safe_of_crashes hcrash hsafe, fun hsafe => ?_⟩
  obtain ⟨valid, hvalid⟩ : ∃ valid, verdictAt G.slack now timestamp body signature = .ok valid := by
    cases hv : verdictAt G.slack now timestamp body signature with
    | ok valid => exact ⟨valid, rfl⟩
    | error e => exact absurd (verdictAt_error.mp ⟨e, hv⟩) hsafe
  constructor
  · intro s r s' h
    exact ⟨valid, (ends_verifySignature.mp h).1.trans hvalid⟩
  · intro hnot approvalId s r s' h
    have hfalse : valid = false := by
      cases valid with
      | false => rfl
      | true => exact absurd (vouched_of_verdict hvalid) hnot
    rcases ends_bind.mp h with ⟨a, t, hverify, hrest⟩ | ⟨e, hverify, -⟩
    · obtain ⟨ha, rfl⟩ := ends_verifySignature.mp hverify
      rw [hvalid, hfalse] at ha
      obtain rfl := Except.ok.inj ha
      exact ⟨_, (ends_ret.mp hrest).1⟩
    · have he := (ends_verifySignature.mp hverify).1
      rw [hvalid] at he
      cases he

/-- The time 0, and a signature with an accent. -/
theorem crashes_accent : Crashes testSlack zeroMagnitude (some (lit "0")) (some [ch 'é']) := by
  refine ⟨by simp [testSlack], lit "0", [ch 'é'], 0, rfl, rfl, by simp, by decide +kernel, Or.inr ?_⟩
  exact ⟨by decide +kernel, by decide +kernel⟩

def manyDigits : Str := ch '1' :: List.replicate 400 (ch '0')

/-- A timestamp of 401 digits. -/
theorem crashes_manyDigits : Crashes testSlack zeroMagnitude (some manyDigits) (some (lit "v0=0")) := by
  have hread : (readInt manyDigits).map (fun n => (roundMagnitude (n.natAbs * 2 ^ scale) 1).isNone) =
      some true := by decide +kernel
  obtain ⟨n, hn, hbig⟩ := Option.map_eq_some_iff.mp hread
  exact ⟨by simp [testSlack], manyDigits, lit "v0=0", n, rfl, rfl, by decide, hn,
    Or.inl (Option.isNone_iff_eq_none.mp hbig)⟩

def testConfig : Config where
  slack := testSlack
  validate _ := .error (lit "Invalid JSON")
  str _ := lit "None"

theorem signature_check_crashes :
    ¬ AnswersSafely testConfig openWorld zeroMagnitude (some (lit "0")) [] (some [ch 'é']) ∧
    ¬ AnswersSafely testConfig openWorld zeroMagnitude (some manyDigits) [] (some (lit "v0=0")) :=
  ⟨not_safe_of_crashes crashes_accent, not_safe_of_crashes crashes_manyDigits⟩

end SignatureCheck
