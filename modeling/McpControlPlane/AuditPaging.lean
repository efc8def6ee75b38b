import McpControlPlane.AuditQuery

/-! # Walking through the pages

Pages are read newest first with a growing offset while rows are appended at the front. A row can
be pushed on from one page to the next, and then it is returned twice; it is never jumped over. -/
namespace AuditPaging

open AuditLog AuditWriters AuditChain AuditQuery Interleaving

/-! ## Pages of a list that grows at its front -/

section Pages

variable {α : Type} {L n : ℕ} {lists : ℕ → List α}

def pageAt (L : ℕ) (lists : ℕ → List α) (k : ℕ) : List α := ((lists k).drop (k * L)).take L

theorem mem_window {before rest : List α} {x : α} {m : ℕ} (hm : m ≤ before.length)
    (hlt : before.length < m + L) : x ∈ ((before ++ x :: rest).drop m).take L := by
  rw [List.drop_append_of_le_length hm, List.take_append, List.mem_append]
  right
  obtain ⟨d, hd⟩ : ∃ d, L - (before.drop m).length = d + 1 := by
    rw [List.length_drop]
    exact ⟨L - (before.length - m) - 1, by omega⟩
  rw [hd, List.take_succ_cons]
  exact List.mem_cons_self

/-- An element that no page had so far still lies behind all of the pages that were read. -/
theorem returned_or_behind (hgrow : ∀ k < n, lists k <:+ lists (k + 1)) {first rest : List α} {x : α}
    (hfirst : lists 0 = first ++ x :: rest) : ∀ k ≤ n, (∃ j ≤ k, x ∈ pageAt L lists j) ∨
      ∃ before, lists k = before ++ x :: rest ∧ (k + 1) * L ≤ before.length := by
  intro k
  induction k with
  | zero =>
    intro _
    by_cases hlt : first.length < L
    · refine Or.inl ⟨0, le_rfl, ?_⟩
      rw [pageAt, hfirst, Nat.zero_mul]
      apply mem_window (Nat.zero_le _)
      omega
    · exact Or.inr ⟨first, hfirst, by omega⟩
  | succ k ih =>
    intro hk
    rcases ih (by omega) with ⟨j, hj, hx⟩ | ⟨before, hbefore, hlen⟩
    · exact Or.inl ⟨j, by omega, hx⟩
    · obtain ⟨new, hnew⟩ := hgrow k (by omega)
      have hnext : lists (k + 1) = (new ++ before) ++ x :: rest := by
        rw [← hnew, hbefore, List.append_assoc]
      have hlonger : (k + 1) * L ≤ (new ++ before).length := by
        rw [List.length_append]
        omega
      by_cases hlt : (new ++ before).length < (k + 1) * L + L
      · refine Or.inl ⟨k + 1, le_rfl, ?_⟩
        rw [pageAt, hnext]
        exact mem_window hlonger hlt
      · refine Or.inr ⟨new ++ before, hnext, ?_⟩
        rw [Nat.succ_mul]
        omega

/-- When a page comes out short, all that was there at first has been returned. -/
theorem returned_of_short (hgrow : ∀ k < n, lists k <:+ lists (k + 1))
    (hshort : (pageAt L lists n).length < L) {x : α} (hx : x ∈ lists 0) :
    ∃ k ≤ n, x ∈ pageAt L lists k := by
  obtain ⟨first, rest, hfirst⟩ := List.append_of_mem hx
  rcases returned_or_behind (L := L) hgrow hfirst n le_rfl with hreturned | ⟨before, hlast, hlen⟩
  · exact hreturned
  · exfalso
    rw [pageAt, hlast, List.length_take, List.length_drop, List.length_append] at hshort
    rw [Nat.succ_mul] at hlen
    omega

end Pages

/-! ## Pages of the audit log -/

variable {J : Jsonb} {sha256 : Digest} {D : Driver}

/-- Any moves of any writers lie between the two. -/
def Later (p p' : AuditPool J sha256) : Prop :=
  Relation.ReflTransGen (fun p p' => ∃ m, Step p m p') p p'

abbrev AnyMove (_ : AuditPool J sha256) (_ : Move (auditSystem J sha256)) : Prop := True

theorem reachable_later {p p' : AuditPool J sha256} (hp : Reachable AnyMove p) (h : Later p p') :
    Reachable AnyMove p' := by
  induction h with
  | refl => exact hp
  | tail _ hstep ih =>
    obtain ⟨m, hm⟩ := hstep
    exact ih.step trivial hm

/-- Rows are committed in front of all rows that were committed before. -/
theorem table_suffix {p p' : AuditPool J sha256} (hp : Reachable AnyMove p) (h : Later p p') :
    p.shared.table <:+ p'.shared.table := by
  induction h with
  | refl => exact List.suffix_refl _
  | tail hlater hstep ih =>
    rename_i q q'
    obtain ⟨m, hm⟩ := hstep
    have hq := reachable_later hp hlater
    refine ih.trans ?_
    rcases step_rows (reachable_writersObey hq) (reachable_writersInv hq) hm with
      ⟨-, heq⟩ | ⟨t, row, -, -, heq⟩
    · rw [DbState.table, DbState.table, heq]
    · rw [DbState.table, DbState.table, heq, List.map_cons]
      exact List.suffix_cons _ _

theorem listing_table {p : AuditPool J sha256} (hp : Reachable AnyMove p) (f : Filters D) :
    Listing f p.shared.table (p.shared.table.filter (satisfies f)) where
  rows := List.Perm.refl _
  newestFirst := by
    have hsorted : p.shared.table.Pairwise fun r r' => r'.seq < r.seq :=
      List.pairwise_map.mpr (reachable_writersInv hp).sorted
    exact hsorted.filter _

/-- A client reads the pages at the offsets `0`, `L`, `2L` and so on; each call finds what was
committed by then, and the last page is short. -/
structure Walk (f : Filters D) (L n : ℕ) (pool : ℕ → AuditPool J sha256)
    (pages : ℕ → List (Row J)) : Prop where
  start : Reachable AnyMove (pool 0)
  later : ∀ k < n, Later (pool k) (pool (k + 1))
  read : ∀ k ≤ n, ∃ counted checked total verdict,
    queryAuditLog sha256 counted (pool k).shared.table checked f L (k * L : ℕ) =
      some (total, pages k, verdict)
  short : (pages n).length < L

theorem Walk.reachable {f : Filters D} {L n : ℕ} {pool : ℕ → AuditPool J sha256}
    {pages : ℕ → List (Row J)} (h : Walk f L n pool pages) {k : ℕ} (hk : k ≤ n) :
    Reachable AnyMove (pool k) := by
  induction k with
  | zero => exact h.start
  | succ k ih => exact reachable_later (ih (by omega)) (h.later k (by omega))

theorem Walk.page {f : Filters D} {L n : ℕ} {pool : ℕ → AuditPool J sha256}
    {pages : ℕ → List (Row J)} (h : Walk f L n pool pages) (hL : 1 ≤ L ∧ L ≤ 500) {k : ℕ}
    (hk : k ≤ n) :
    pages k = pageAt L (fun k => (pool k).shared.table.filter (satisfies f)) k := by
  obtain ⟨counted, checked, total, verdict, hread⟩ := h.read k hk
  by_cases hsend : Sendable f (k * L : ℕ)
  · rw [queryAuditLog_sendable hsend, pageRows_eq (listing_table (h.reachable hk) f)] at hread
    obtain ⟨v, -, heq⟩ := Option.map_eq_some_iff.mp hread
    have hpage := (Prod.mk.inj (Prod.mk.inj heq).2).1
    have hlimit : (max 1 (min (L : ℤ) 500)).toNat = L := by omega
    have hoffset : (max 0 ((k * L : ℕ) : ℤ)).toNat = k * L := by omega
    rw [← hpage, AuditQuery.page, hlimit, hoffset]
    rfl
  · rw [queryAuditLog_unsendable hsend] at hread
    cases hread

/-- Whatever is appended between the reads, every row that satisfied the filters at the first read
is on one of the pages. -/
theorem paging_loses_no_row {f : Filters D} {L n : ℕ} {pool : ℕ → AuditPool J sha256}
    {pages : ℕ → List (Row J)} (hL : 1 ≤ L ∧ L ≤ 500) (h : Walk f L n pool pages) {row : Row J}
    (hrow : row ∈ (pool 0).shared.table) (hf : satisfies f row = true) :
    ∃ k ≤ n, row ∈ pages k := by
  have hgrow : ∀ k < n, (pool k).shared.table.filter (satisfies f) <:+
      (pool (k + 1)).shared.table.filter (satisfies f) := by
    intro k hk
    exact (table_suffix (h.reachable (by omega)) (h.later k hk)).filter _
  have hshort := h.short
  rw [h.page hL le_rfl] at hshort
  obtain ⟨k, hk, hmem⟩ := returned_of_short hgrow hshort (List.mem_filter.mpr ⟨hrow, hf⟩)
  exact ⟨k, hk, by rw [h.page hL hk]; exact hmem⟩

theorem later_of_runMoves {p p' : AuditPool J sha256} {ms : List (Move (auditSystem J sha256))}
    (h : runMoves AnyMove p ms = some p') : Later p p' := by
  induction ms generalizing p with
  | nil =>
    obtain rfl := Option.some.inj h
    exact .refl
  | cons m ms ih =>
    rw [runMoves, if_pos trivial] at h
    obtain ⟨q, hq, hrun⟩ := Option.bind_eq_some_iff.mp h
    exact .head ⟨m, step_of_next hq⟩ (ih hrun)

/-- Two rows are there for the first page, and a third one for the other pages. -/
def growing (p p' : AuditPool exactJsonb sampleDigest) : ℕ → AuditPool exactJsonb sampleDigest
  | 0 => p
  | _ + 1 => p'

def growingPage (p p' : AuditPool exactJsonb sampleDigest) (k : ℕ) : List (Row exactJsonb) :=
  pageRows noFilters (growing p p' k).shared.table 1 (k * 1 : ℕ)

/-- The pages of length one, whose rows can be verified; the fourth page is empty. -/
def readable (p p' : AuditPool exactJsonb sampleDigest) : Bool :=
  (growingPage p p' 3).isEmpty && (List.range 4).all fun k =>
    (verifyRows sampleDigest (growing p p' k).shared.table (growingPage p p' k)).isSome

theorem paging_growing_table : ∃ (p p' : AuditPool exactJsonb sampleDigest),
    p.shared.table.length = 2 ∧ p'.shared.table.length = 3 ∧
      ∀ row ∈ p.shared.table, ∃ k ≤ 3, row ∈ growingPage p p' k := by
  have hrun : ((runMoves AnyMove (Pool.empty DbState.initial)
      (AuditExport.exportMoves 0 1 AuditExport.oneSecond ++
        AuditExport.exportMoves 1 2 AuditExport.twoSeconds)).bind fun p =>
      (runMoves AnyMove p (AuditExport.exportMoves 2 3 AuditExport.twoSeconds)).map fun p' =>
        (p.shared.table.length, p'.shared.table.length, readable p p')) = some (2, 3, true) := by
    decide +kernel
  obtain ⟨p, hp, hrest⟩ := Option.bind_eq_some_iff.mp hrun
  obtain ⟨p', hp', heq⟩ := Option.map_eq_some_iff.mp hrest
  simp only [Prod.mk.injEq, readable, Bool.and_eq_true, List.all_eq_true, List.mem_range] at heq
  obtain ⟨hlen, hlen', hshort, hverified⟩ := heq
  have hsend : ∀ k : ℕ, k ≤ 3 → Sendable noFilters ((k * 1 : ℕ) : ℤ) := by
    intro k hk
    constructor
    · simp [noFilters]
    · simp [noFilters]
    · have hlarge : (3 : ℤ) < 2 ^ 63 := by norm_num
      omega
  have hwalk : Walk noFilters 1 3 (growing p p') (growingPage p p') := by
    constructor
    · exact reachable_of_runMoves (.start _ rfl) hp
    · intro k hk
      cases k with
      | zero => exact later_of_runMoves hp'
      | succ k => exact .refl
    · intro k hk
      obtain ⟨v, hv⟩ := Option.isSome_iff_exists.mp (hverified k (by omega))
      refine ⟨[], (growing p p' k).shared.table, 0, v, ?_⟩
      rw [queryAuditLog_sendable (hsend k hk)]
      change (verifyRows _ _ (growingPage p p' k)).map _ = _
      rw [hv]
      rfl
    · rw [List.isEmpty_iff.mp hshort]
      exact Nat.one_pos
  exact ⟨p, p', hlen, hlen', fun row hrow =>
    paging_loses_no_row ⟨le_rfl, by norm_num⟩ hwalk hrow rfl⟩

end AuditPaging
