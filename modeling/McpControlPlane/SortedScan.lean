import Mathlib

/-! # A scan in the order of keys that stops at the first bad item

`check` says of an item that it is good, that it is bad, or nothing where looking at it
raises. Scanning the items by their keys reports the least bad key, unless it raises first. -/
namespace SortedScan

variable {ρ : Type} (key : ρ → ℤ) (check : ρ → Option Bool)

/-- `none` where a check raises; otherwise the key of the first bad item, if there is one. -/
def scan : List ρ → Option (Option ℤ)
  | [] => some none
  | r :: rs =>
    match check r with
    | none => none
    | some false => some (some (key r))
    | some true => scan rs

def byKey (r r' : ρ) : Prop := key r ≤ key r'

instance (r r' : ρ) : Decidable (byKey key r r') := inferInstanceAs (Decidable (key r ≤ key r'))

instance : Std.Total (byKey key) := ⟨fun r r' => le_total (key r) (key r')⟩

instance : IsTrans ρ (byKey key) := ⟨fun _ _ _ h h' => le_trans h h'⟩

def scanSorted (rs : List ρ) : Option (Option ℤ) := scan key check (rs.insertionSort (byKey key))

variable {key check}

theorem scan_pass_iff {rs : List ρ} :
    scan key check rs = some none ↔ ∀ r ∈ rs, check r = some true := by
  induction rs with
  | nil => simp [scan]
  | cons r rs ih =>
    rw [scan]
    split
    · rename_i h
      simp [h]
    · rename_i h
      simp [h]
    · rename_i h
      simp [h, ih]

/-- Items before the first bad one are good. -/
theorem scan_fail {rs : List ρ} {k : ℤ} (h : scan key check rs = some (some k)) :
    ∃ as r bs, rs = as ++ r :: bs ∧ key r = k ∧ check r = some false ∧
      ∀ a ∈ as, check a = some true := by
  induction rs with
  | nil => simp [scan] at h
  | cons r rs ih =>
    rw [scan] at h
    split at h
    · cases h
    · rename_i hr
      exact ⟨[], r, rs, rfl, Option.some.inj (Option.some.inj h), hr, by simp⟩
    · rename_i hr
      obtain ⟨as, r', bs, rfl, hk, hbad, hgood⟩ := ih h
      refine ⟨r :: as, r', bs, rfl, hk, hbad, ?_⟩
      intro a ha
      rcases List.mem_cons.mp ha with rfl | ha
      · exact hr
      · exact hgood a ha

theorem scan_raise {rs : List ρ} (h : scan key check rs = none) :
    ∃ as r bs, rs = as ++ r :: bs ∧ check r = none ∧ ∀ a ∈ as, check a = some true := by
  induction rs with
  | nil => simp [scan] at h
  | cons r rs ih =>
    rw [scan] at h
    split at h
    · rename_i hr
      exact ⟨[], r, rs, rfl, hr, by simp⟩
    · cases h
    · rename_i hr
      obtain ⟨as, r', bs, rfl, hbad, hgood⟩ := ih h
      refine ⟨r :: as, r', bs, rfl, hbad, ?_⟩
      intro a ha
      rcases List.mem_cons.mp ha with rfl | ha
      · exact hr
      · exact hgood a ha

theorem mem_sorted (key : ρ → ℤ) {rs : List ρ} {r : ρ} : r ∈ rs.insertionSort (byKey key) ↔ r ∈ rs :=
  List.mem_insertionSort _

theorem scanSorted_pass_iff {rs : List ρ} :
    scanSorted key check rs = some none ↔ ∀ r ∈ rs, check r = some true := by
  simp only [scanSorted, scan_pass_iff, mem_sorted]

/-- In a sorted list the items of smaller keys come before. -/
theorem mem_before {rs as bs : List ρ} {r r' : ρ}
    (hs : rs.insertionSort (byKey key) = as ++ r :: bs) (hr' : r' ∈ rs) (hk : key r' < key r) :
    r' ∈ as := by
  have hmem : r' ∈ as ++ r :: bs := by rwa [← hs, mem_sorted]
  have hsorted : (as ++ r :: bs).Pairwise (byKey key) := by
    rw [← hs]
    exact List.pairwise_insertionSort _ rs
  rcases List.mem_append.mp hmem with h | h
  · exact h
  · have hle : ∀ b ∈ bs, key r ≤ key b := fun b hb =>
      List.rel_of_pairwise_cons (List.pairwise_append.mp hsorted).2.1 hb
    rcases List.mem_cons.mp h with rfl | h
    · omega
    · have := hle r' h
      omega

theorem scanSorted_fail {rs : List ρ} {k : ℤ} (h : scanSorted key check rs = some (some k)) :
    ∃ r ∈ rs, key r = k ∧ check r = some false ∧
      ∀ r' ∈ rs, key r' < k → check r' = some true := by
  obtain ⟨as, r, bs, hs, hk, hbad, hgood⟩ := scan_fail h
  refine ⟨r, ?_, hk, hbad, fun r' hr' hlt => hgood r' (mem_before hs hr' (hk ▸ hlt))⟩
  rw [← mem_sorted key, hs]
  simp

theorem scanSorted_raise {rs : List ρ} (h : scanSorted key check rs = none) :
    ∃ r ∈ rs, check r = none ∧ ∀ r' ∈ rs, key r' < key r → check r' = some true := by
  obtain ⟨as, r, bs, hs, hbad, hgood⟩ := scan_raise h
  refine ⟨r, ?_, hbad, fun r' hr' hlt => hgood r' (mem_before hs hr' hlt)⟩
  rw [← mem_sorted key, hs]
  simp

/-- The scan stops at an item that is not good and before which, by key, everything is. -/
theorem scanSorted_of_least {rs : List ρ} {r : ρ} (hr : r ∈ rs) (hbad : check r ≠ some true)
    (hgood : ∀ r' ∈ rs, r' ≠ r → key r' ≤ key r → check r' = some true) :
    scanSorted key check rs = (check r).map fun _ => some (key r) := by
  have hstop : ∀ r' ∈ rs, check r' ≠ some true →
      (∀ a ∈ rs, key a < key r' → check a = some true) → r' = r := by
    intro r' hr' hbad' hbefore
    by_contra hne
    have hlt : key r < key r' := by
      by_contra hle
      exact hbad' (hgood r' hr' hne (by omega))
    exact hbad (hbefore r hr hlt)
  rcases hscan : scanSorted key check rs with _ | _ | k
  · obtain ⟨r', hr', hraise, hbefore⟩ := scanSorted_raise hscan
    have := hstop r' hr' (by simp [hraise]) hbefore
    subst this
    simp [hraise]
  · exact absurd (scanSorted_pass_iff.mp hscan r hr) hbad
  · obtain ⟨r', hr', hk, hfalse, hbefore⟩ := scanSorted_fail hscan
    have := hstop r' hr' (by simp [hfalse]) (by rwa [hk])
    subst this
    simp [hfalse, hk]

end SortedScan
