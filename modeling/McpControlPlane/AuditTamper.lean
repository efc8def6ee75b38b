import McpControlPlane.JsonbStorage

/-! # What the verifier finds in a table that was tampered with

A table is accepted exactly if it is a chain with the seqs 1..n, page by page as well as whole. A
row that is cut off the end leaves such a chain, and so does an edit of a column that is not
hashed. -/
namespace AuditTamper

open PyText PyJson JsonDict UuidTime AuditLog AuditWriters AuditChain Interleaving

variable {J : Jsonb} {sha256 : Digest}

/-! ## The hashed text of a row -/

/-- What is hashed of a row after the hash before it; `none` where a jsonb column cannot be
decoded. -/
def hashedText (row : Row J) : Option Str := do
  let args ← decodeJsonb (some row.args)
  let result ← decodeJsonb row.resultSummary
  return row.id.text ++ (row.agentId.str ++ (row.toolName.str ++ (dumpsSorted args ++
    (dumpsSorted result ++ row.createdAt.isoformat))))

theorem expectedHash_eq (row : Row J) (prev : Str) :
    expectedHash sha256 row prev =
      (hashedText row).bind fun text => (utf8Encode (prev ++ text)).map sha256 := by
  simp only [expectedHash, hashedText, rowHash, payload, Option.bind_eq_bind, Option.pure_def,
    Option.bind_assoc, Option.bind_some, Option.getD_some]

theorem scalar_of_pgText (x : PgText) : Scalar x.str = true := by
  have := x.valid
  rw [storable, Bool.and_eq_true] at this
  exact this.1

theorem hashedText_scalar {row : Row J} {text : Str} (h : hashedText row = some text) :
    Scalar text = true := by
  simp only [hashedText, Option.bind_eq_bind, Option.bind_eq_some_iff, Option.pure_def,
    Option.some.injEq] at h
  obtain ⟨args, -, result, -, rfl⟩ := h
  simp only [dumpsSorted, scalar_append, scalar_of_pgText, uuid_text_scalar, isoformat_scalar,
    dumps_scalar, Bool.and_self]

theorem prevHash_scalar {table : List (Row J)} {row : Row J} {prev : Str}
    (h : prevHash table row = some prev) : Scalar prev = true := by
  rw [prevHash] at h
  split_ifs at h
  · obtain rfl := Option.some.inj h
    decide +kernel
  · obtain ⟨r, -, -, rfl⟩ := rowHashAt_some h
    exact scalar_of_pgText _

theorem expectedHash_some (sha256 : Digest) {row : Row J} {prev text : Str}
    (hprev : Scalar prev = true) (h : hashedText row = some text) :
    ∃ b, utf8Encode (prev ++ text) = some b ∧
      expectedHash sha256 row prev = some (sha256 b) := by
  obtain ⟨b, hb⟩ := utf8Encode_isSome (s := prev ++ text) (by
    rw [scalar_append, hprev, hashedText_scalar h, Bool.and_self])
  refine ⟨b, hb, ?_⟩
  rw [expectedHash_eq, h, Option.bind_some, hb, Option.map_some]

/-- Where the query can be sent, looking at a row raises only after its predecessor was found. -/
theorem checkRow_none {table : List (Row J)} {row : Row J} (hbind : bindable row = true) :
    checkRow sha256 table row = none ↔ prevHash table row ≠ none ∧ hashedText row = none := by
  rw [checkRow_of_bindable hbind]
  cases hp : prevHash table row with
  | none => simp
  | some prev =>
    cases ht : hashedText row with
    | none => simp [expectedHash_eq, ht]
    | some text =>
      obtain ⟨b, -, hexp⟩ := expectedHash_some sha256 (prevHash_scalar hp) ht
      simp [hexp]

theorem hashedText_of_good {table : List (Row J)} {row : Row J} (h : Good sha256 table row) :
    hashedText row ≠ none := by
  obtain ⟨prev, -, hexp⟩ := h
  intro hnone
  rw [expectedHash_eq, hnone] at hexp
  cases hexp

/-! ## Tables that are accepted -/

/-- A chain with the seqs 1..n. -/
structure Accepted (sha256 : Digest) (table : List (Row J)) : Prop where
  seqs : ∃ n : ℕ, ∀ seq : ℤ, seq ∈ table.map Row.seq ↔ 1 ≤ seq ∧ seq ≤ n
  good : ∀ r ∈ table, Good sha256 table r

/-- A finite set of integers each of which is 1 or follows another one is 1..n. -/
theorem exists_range_of_predecessors {l : List ℤ} (h : ∀ s ∈ l, s = 1 ∨ s - 1 ∈ l) :
    ∃ n : ℕ, ∀ s : ℤ, s ∈ l ↔ 1 ≤ s ∧ s ≤ n := by
  rcases Set.eq_empty_or_nonempty {s | s ∈ l} with hempty | hne
  · refine ⟨0, fun s => iff_of_false (fun hs => ?_) (by omega)⟩
    have hs : s ∈ {s | s ∈ l} := hs
    rwa [hempty] at hs
  · obtain ⟨least, hleast, hmin⟩ := Set.exists_min_image _ id (List.finite_toSet l) hne
    obtain ⟨top, htop, hmax⟩ := Set.exists_max_image _ id (List.finite_toSet l) hne
    have hone : least = 1 := by
      rcases h least hleast with h | h
      · exact h
      · have : least ≤ least - 1 := hmin (least - 1) h
        omega
    have hdown : ∀ k : ℕ, 1 ≤ top - k → top - k ∈ l := by
      intro k
      induction k with
      | zero => simpa using fun _ => htop
      | succ k ih =>
        intro hk
        push_cast at hk ⊢
        rcases h _ (ih (by omega)) with h | h
        · omega
        · rwa [sub_sub] at h
    refine ⟨top.toNat, fun s => ⟨fun hs => ?_, fun hs => ?_⟩⟩
    · have h₁ : least ≤ s := hmin s hs
      have h₂ : s ≤ top := hmax s hs
      omega
    · have := hdown (top - s).toNat (by omega)
      rwa [show top - ((top - s).toNat : ℤ) = s by omega] at this

/-- If every row is good there are no gaps. -/
theorem accepted_iff {table : List (Row J)} :
    Accepted sha256 table ↔ ∀ r ∈ table, Good sha256 table r := by
  refine ⟨Accepted.good, fun h => ⟨exists_range_of_predecessors fun s hs => ?_, h⟩⟩
  obtain ⟨r, hr, rfl⟩ := List.mem_map.mp hs
  rcases prevHash_isSome (h r hr) with hone | ⟨r', hr', hseq⟩
  · exact Or.inl hone
  · exact Or.inr (hseq ▸ List.mem_map_of_mem hr')

/-- What writers leave that never lose a seq is accepted. -/
theorem accepted_of_commitsNext (hJ : Faithful J) {p : AuditPool J sha256}
    (hp : Reachable CommitsNext p) : Accepted sha256 p.shared.table := by
  have hquiet := (noAlarm_iff_contiguous hJ hp).mpr (contiguous_of_commitsNext hp)
  exact accepted_iff.mpr (verifyRows_pass_iff.mp (hquiet p.shared.table fun _ h => h))

/-! ## Pages -/

/-- The seqs at which the checks of the pages fail. -/
def reported (sha256 : Digest) (table : List (Row J)) (pages : List (List (Row J))) : Set ℤ :=
  {seq | ∃ rows ∈ pages, verifyRows sha256 table rows = some (.fail seq)}

/-- The seqs of rows without a predecessor or with another hash. -/
def badSeqs (sha256 : Digest) (table : List (Row J)) : Set ℤ :=
  {seq | ∃ r ∈ table, r.seq = seq ∧ ¬ Good sha256 table r}

/-- All pages pass exactly if the table is accepted; otherwise the least seq that they report
is the least bad one. -/
def PagesDecide (sha256 : Digest) (table : List (Row J)) (pages : List (List (Row J))) : Prop :=
  ((∀ rows ∈ pages, verifyRows sha256 table rows = some .pass) ↔ Accepted sha256 table) ∧
    (¬ Accepted sha256 table →
      ∃ seq, IsLeast (reported sha256 table pages) seq ∧ IsLeast (badSeqs sha256 table) seq)

/-- The first bad row, if there is one, has not the least of all bigints as its seq, and has no
predecessor or can be decoded. -/
def FirstBadReadable (sha256 : Digest) (table : List (Row J)) : Prop :=
  ∀ r ∈ table, IsLeast (badSeqs sha256 table) r.seq →
    r.seq ≠ -2 ^ 63 ∧ (prevHash table r = none ∨ hashedText r ≠ none)

theorem checkRow_ne_none {table : List (Row J)} {row : Row J} :
    checkRow sha256 table row ≠ none ↔
      row.seq ≠ -2 ^ 63 ∧ (prevHash table row = none ∨ hashedText row ≠ none) := by
  rw [← bindable_iff]
  by_cases hbind : bindable row = true
  · rw [ne_eq, checkRow_none hbind]
    tauto
  · rw [checkRow_unbindable hbind]
    exact iff_of_false (fun h => h rfl) fun h => hbind h.1

theorem exists_least_bad {table : List (Row J)} (h : ¬ Accepted sha256 table) :
    ∃ r ∈ table, ¬ Good sha256 table r ∧ IsLeast (badSeqs sha256 table) r.seq := by
  have hne : {r | r ∈ table ∧ ¬ Good sha256 table r}.Nonempty := by
    by_contra hno
    refine h (accepted_iff.mpr fun r hr => ?_)
    by_contra hbad
    exact hno ⟨r, hr, hbad⟩
  obtain ⟨r, ⟨hr, hbad⟩, hmin⟩ := Set.exists_min_image _ Row.seq
    ((List.finite_toSet table).subset fun _ h => h.1) hne
  refine ⟨r, hr, hbad, ⟨r, hr, rfl, hbad⟩, ?_⟩
  rintro _ ⟨r', hr', rfl, hbad'⟩
  exact hmin r' ⟨hr', hbad'⟩

section Pages

variable {table : List (Row J)} {pages : List (List (Row J))}

theorem mem_page (hsplit : pages.flatten.Perm table) {r : Row J} :
    r ∈ table ↔ ∃ rows ∈ pages, r ∈ rows := by
  rw [← hsplit.mem_iff, List.mem_flatten]

/-- The page of the first bad row stops there. -/
theorem page_of_least_bad (hd : (table.map Row.seq).Nodup) (hsplit : pages.flatten.Perm table)
    {r : Row J} (hr : r ∈ table) (hleast : IsLeast (badSeqs sha256 table) r.seq)
    {rows : List (Row J)} (hrows : rows ∈ pages) (hmem : r ∈ rows) :
    verifyRows sha256 table rows = (checkRow sha256 table r).map fun _ => .fail r.seq := by
  obtain ⟨r', hr', hseq, hbad⟩ := hleast.1
  obtain rfl := eq_of_seq_eq hd hr' hr hseq
  refine verifyRows_of_least hmem hbad fun x hx hne hle => ?_
  have hxt : x ∈ table := (mem_page hsplit).mpr ⟨rows, hrows, hx⟩
  by_contra hxbad
  have hge : r'.seq ≤ x.seq := hleast.2 ⟨x, hxt, rfl, hxbad⟩
  exact hne (eq_of_seq_eq hd hxt hr (le_antisymm hle hge))

theorem reported_subset (hsplit : pages.flatten.Perm table) :
    reported sha256 table pages ⊆ badSeqs sha256 table := by
  rintro seq ⟨rows, hrows, hfail⟩
  obtain ⟨r, hr, hseq, hcheck, -⟩ := verifyRows_fail hfail
  refine ⟨r, (mem_page hsplit).mpr ⟨rows, hrows, hr⟩, hseq, fun hgood => ?_⟩
  rw [checkRow_good.mpr hgood] at hcheck
  cases hcheck

theorem pages_pass_iff (hsplit : pages.flatten.Perm table) :
    (∀ rows ∈ pages, verifyRows sha256 table rows = some .pass) ↔ Accepted sha256 table := by
  rw [accepted_iff]
  constructor
  · intro h r hr
    obtain ⟨rows, hrows, hmem⟩ := (mem_page hsplit).mp hr
    exact verifyRows_pass_iff.mp (h rows hrows) r hmem
  · intro h rows hrows
    exact verifyRows_pass_iff.mpr fun r hr => h r ((mem_page hsplit).mpr ⟨rows, hrows, hr⟩)

/-- Checking pages is as good as checking the whole table, exactly if the first bad row does
not make the check raise. -/
theorem pages_decide_iff (hd : (table.map Row.seq).Nodup) (hsplit : pages.flatten.Perm table) :
    PagesDecide sha256 table pages ↔ FirstBadReadable sha256 table := by
  constructor
  · rintro ⟨-, hleast⟩ r hr hr_least
    obtain ⟨x, hx, hseq, hbad⟩ := hr_least.1
    obtain ⟨seq, ⟨⟨rows, hrows, hfail⟩, -⟩, hmin⟩ := hleast fun h => hbad (h.good x hx)
    obtain rfl := hmin.unique hr_least
    obtain ⟨r', hr', hseq', -⟩ := verifyRows_fail hfail
    obtain rfl := eq_of_seq_eq hd ((mem_page hsplit).mpr ⟨rows, hrows, hr'⟩) hr hseq'
    rw [page_of_least_bad hd hsplit hr hr_least hrows hr'] at hfail
    have hcheck : checkRow sha256 table r' ≠ none := by
      intro hnone
      rw [hnone] at hfail
      cases hfail
    exact checkRow_ne_none.mp hcheck
  · intro hread
    refine ⟨pages_pass_iff hsplit, fun hnot => ?_⟩
    obtain ⟨r, hr, hbad, hleast⟩ := exists_least_bad hnot
    obtain ⟨rows, hrows, hmem⟩ := (mem_page hsplit).mp hr
    have hcheck : checkRow sha256 table r ≠ none := checkRow_ne_none.mpr (hread r hr hleast)
    obtain ⟨b, hb⟩ := Option.ne_none_iff_exists'.mp hcheck
    have hfail := page_of_least_bad hd hsplit hr hleast hrows hmem
    rw [hb, Option.map_some] at hfail
    exact ⟨r.seq, ⟨⟨rows, hrows, hfail⟩, fun s hs => hleast.2 (reported_subset hsplit hs)⟩, hleast⟩

end Pages

/-- Two pages of one row each, of a chain of two. -/
theorem pages_decide_two_rows :
    ∃ p : AuditPool exactJsonb sampleDigest, p.shared.table.length = 2 ∧
      PagesDecide sampleDigest p.shared.table (p.shared.table.map fun r => [r]) := by
  have hrun : (sampleRun (writerMoves 0 1 ++ [.answer 0 .plain] ++ writerMoves 1 2 ++
      [.answer 1 .plain])).map (fun p => (p.shared.table.length,
        p.shared.table.all fun r => (hashedText r).isSome)) = some (2, true) := by decide +kernel
  obtain ⟨p, hp, hlen⟩ := Option.map_eq_some_iff.mp hrun
  obtain ⟨hlen, hread⟩ := Prod.mk.inj hlen
  have hinv := reachable_writersInv (reachable_of_runMoves (C := fun _ _ => True) (.start _ rfl) hp)
  have hsplit : (p.shared.table.map fun r => [r]).flatten = p.shared.table := by
    rw [← List.flatMap_def, List.flatMap_singleton']
  refine ⟨p, hlen, (pages_decide_iff (seqs_nodup hinv.sorted) (.of_eq hsplit)).mpr ?_⟩
  intro r hr _
  obtain ⟨w, hw, rfl⟩ := List.mem_map.mp hr
  have hpos := (reachable_positive (reachable_of_runMoves (.start _ rfl) hp)).rows w hw
  refine ⟨by omega, Or.inr fun hnone => ?_⟩
  have := List.all_eq_true.mp hread _ hr
  rw [hnone] at this
  cases this

/-- A row whose jsonb holds an integer of 4301 digits. -/
def unreadableRow : Row JsonbStorage.pgJsonb where
  seq := 1
  bigint := by decide
  id := 1
  agentId := ⟨lit "agent01", by decide⟩
  role := ⟨lit "sre1", by decide⟩
  toolName := ⟨lit "list_pods", by decide⟩
  args := .num ⟨false, 10 ^ 4300, 0, nofun⟩
  policyDecision := none
  approvalId := none
  resultStatus := ⟨lit "allowed", by decide⟩
  resultSummary := none
  durationMs := none
  otelTraceId := none
  rowHash := ⟨lit "0", by decide⟩
  createdAt := ⟨1970, 1, 1, 0, 0, 0, 0, by decide⟩

/-- The check of a table with such a row raises instead of reporting it. -/
theorem pages_undecided :
    ¬ PagesDecide sampleDigest [unreadableRow] [[unreadableRow]] := by
  have hraise : verifyRows sampleDigest [unreadableRow] [unreadableRow] = none := by decide +kernel
  rintro ⟨hpass, hleast⟩
  obtain ⟨seq, ⟨⟨rows, hrows, hfail⟩, -⟩, -⟩ := hleast fun hacc => by
    have := hpass.mpr hacc _ (List.mem_singleton_self _)
    rw [hraise] at this
    cases this
  obtain rfl := List.mem_singleton.mp hrows
  rw [hraise] at hfail
  cases hfail

/-! ## Deletions -/

/-- What is left of an accepted table fails exactly if a row went from before one that
stayed. -/
theorem deletion_evident_iff {table rest : List (Row J)} (hd : (table.map Row.seq).Nodup)
    (hacc : Accepted sha256 table) (hsub : rest.Sublist table) :
    (∃ seq, verifyRows sha256 rest rest = some (.fail seq)) ↔
      ∃ kept ∈ rest, ∃ deleted ∈ table, deleted ∉ rest ∧ deleted.seq < kept.seq := by
  have hdr : (rest.map Row.seq).Nodup := hd.sublist (hsub.map _)
  constructor
  · rintro ⟨seq, hfail⟩
    obtain ⟨r, hr, -, hcheck, -⟩ := verifyRows_fail hfail
    have hbad : ¬ Good sha256 rest r := fun hgood => by
      rw [checkRow_good.mpr hgood] at hcheck
      cases hcheck
    obtain ⟨prev, hprev, hexp⟩ := hacc.good r (hsub.subset hr)
    rw [prevHash] at hprev
    split_ifs at hprev with hone
    · exact absurd ⟨prev, by rw [prevHash, if_pos hone, hprev], hexp⟩ hbad
    · obtain ⟨d, hdt, hseq, hhash⟩ := rowHashAt_some hprev
      refine ⟨r, hr, d, hdt, fun hdrest => hbad ⟨prev, ?_, hexp⟩, by omega⟩
      rw [prevHash, if_neg hone, ← hseq, rowHashAt_of_mem hdr hdrest, hhash]
  · rintro ⟨kept, hkept, deleted, hdel, hnot, hlt⟩
    rcases hv : verifyRows sha256 rest rest with _ | _ | seq
    · obtain ⟨r, hr, hnone, -⟩ := verifyRows_raise hv
      have hgood := hacc.good r (hsub.subset hr)
      obtain ⟨prev, hprev, -⟩ := id hgood
      exact absurd ((checkRow_none (bindable_of_prevHash hprev)).mp hnone).2
        (hashedText_of_good hgood)
    · -- what passes has the seqs 1..m, so the seq of the deleted row is still there
      obtain ⟨⟨m, hm⟩, -⟩ := accepted_iff.mpr (verifyRows_pass_iff.mp hv)
      obtain ⟨⟨n, hn⟩, -⟩ := hacc
      have hk := (hm kept.seq).mp (List.mem_map_of_mem hkept)
      have hd₁ := (hn deleted.seq).mp (List.mem_map_of_mem hdel)
      obtain ⟨r, hr, hseq⟩ := List.mem_map.mp ((hm deleted.seq).mpr ⟨hd₁.1, by omega⟩)
      exact absurd (eq_of_seq_eq hd (hsub.subset hr) hdel hseq ▸ hr) hnot
    · exact ⟨seq, rfl⟩

/-- The sample run of two writers. -/
theorem two_rows :
    ∃ p : AuditPool exactJsonb sampleDigest, Reachable CommitsNext p ∧ ∃ first second,
      p.shared.table = [second, first] ∧ first.seq = 1 ∧ second.seq = 2 ∧
        first.agentId.str = lit "agent01" := by
  have hrun : (runMoves CommitsNext (Pool.empty DbState.initial)
      (writerMoves 0 1 ++ [.answer 0 .plain] ++ writerMoves 1 2 ++ [.answer 1 .plain])).map
        (fun p => p.shared.table.map fun r => (r.seq, r.agentId.str)) =
          some [(2, lit "agent01"), (1, lit "agent01")] := by decide +kernel
  obtain ⟨p, hp, hrows⟩ := Option.map_eq_some_iff.mp hrun
  refine ⟨p, reachable_of_runMoves (.start _ rfl) hp, ?_⟩
  rcases htable : p.shared.table with _ | ⟨second, _ | ⟨first, _ | ⟨r, rs⟩⟩⟩
  · simp [htable] at hrows
  · simp [htable] at hrows
  · simp only [htable, List.map_cons, List.map_nil, List.cons.injEq, Prod.mk.injEq] at hrows
    exact ⟨first, second, rfl, hrows.2.1.1, hrows.1.1, hrows.2.1.2⟩
  · simp [htable] at hrows

/-- The first of two rows is deleted. -/
theorem deletion_evident_first :
    ∃ second : Row exactJsonb, ∃ seq,
      verifyRows sampleDigest [second] [second] = some (.fail seq) := by
  obtain ⟨p, hp, first, second, htable, hfirst, hsecond, -⟩ := two_rows
  have hd : (p.shared.table.map Row.seq).Nodup := by simp [htable, hfirst, hsecond]
  have hacc := accepted_of_commitsNext exactJsonb_faithful hp
  rw [htable] at hd hacc
  refine ⟨second, (deletion_evident_iff hd hacc (by simp)).mpr ⟨second, by simp, first, by simp, ?_⟩⟩
  refine ⟨fun hmem => ?_, by omega⟩
  obtain rfl := List.mem_singleton.mp hmem
  omega

/-! ### A digest without collisions -/

theorem sampleDigest_samples {b : Bytes} {e : Str × Str}
    (h : samples.find? (fun e => utf8Encode e.1 = some b) = some e) :
    e ∈ samples ∧ utf8Encode e.1 = some b ∧ sampleDigest b = e.2 :=
  ⟨List.mem_of_find?_eq_some h, by simpa using List.find?_some h, by rw [sampleDigest, h]⟩

theorem sampleDigest_injective : Function.Injective sampleDigest := by
  have hdistinct : ∀ e ∈ samples, ∀ e' ∈ samples, e.2 = e'.2 → e = e' := by decide +kernel
  have hhead : ∀ e ∈ samples, e.2.head? ≠ some (ch 'x') := by decide +kernel
  intro b b' heq
  rcases hb : samples.find? (fun e => utf8Encode e.1 = some b) with _ | e <;>
    rcases hb' : samples.find? (fun e => utf8Encode e.1 = some b') with _ | e'
  · rw [sampleDigest, hb, sampleDigest, hb'] at heq
    refine List.map_injective_iff.mpr (fun u v huv => ?_) (List.cons.inj heq).2
    have hval := congrArg Fin.val huv
    have hu := u.toNat_lt
    have hv := v.toNat_lt
    simp only [Fin.ofNat, Nat.mod_eq_of_lt (show u.toNat < 0x110000 by omega),
      Nat.mod_eq_of_lt (show v.toNat < 0x110000 by omega)] at hval
    exact UInt8.toNat_inj.mp hval
  · obtain ⟨hmem, -, hval⟩ := sampleDigest_samples hb'
    rw [hval, sampleDigest, hb] at heq
    exact absurd (by rw [← heq]; rfl) (hhead e' hmem)
  · obtain ⟨hmem, -, hval⟩ := sampleDigest_samples hb
    rw [hval, sampleDigest, hb'] at heq
    exact absurd (by rw [heq]; rfl) (hhead e hmem)
  · obtain ⟨hmem, henc, hval⟩ := sampleDigest_samples hb
    obtain ⟨hmem', henc', hval'⟩ := sampleDigest_samples hb'
    rw [hval, hval'] at heq
    obtain rfl := hdistinct e hmem e' hmem' heq
    rw [henc] at henc'
    exact Option.some.inj henc'

/-- The last of two rows is deleted, and the rest passes. -/
theorem last_deletion_passes :
    Function.Injective sampleDigest ∧ ∃ (first second : Row exactJsonb),
      Accepted sampleDigest [second, first] ∧
        verifyRows sampleDigest [first] [first] = some .pass := by
  obtain ⟨p, hp, first, second, htable, hfirst, hsecond, -⟩ := two_rows
  have hacc := accepted_of_commitsNext exactJsonb_faithful hp
  rw [htable] at hacc
  refine ⟨sampleDigest_injective, first, second, hacc, verifyRows_pass_iff.mpr fun r hr => ?_⟩
  obtain rfl := List.mem_singleton.mp hr
  obtain ⟨prev, hprev, hexp⟩ := hacc.good r (by simp)
  rw [prevHash, if_pos hfirst] at hprev
  exact ⟨prev, by rw [prevHash, if_pos hfirst, hprev], hexp⟩

/-! ## Edits -/

/-- A new value of one column. -/
inductive Edit (J : Jsonb) where
  | id (v : Uuid)
  | agentId (v : PgText)
  | role (v : PgText)
  | toolName (v : PgText)
  | args (v : J.Value)
  | policyDecision (v : Option J.Value)
  | approvalId (v : Option Uuid)
  | resultStatus (v : PgText)
  | resultSummary (v : Option J.Value)
  | durationMs (v : Option ℤ)
  | otelTraceId (v : Option PgText)
  | createdAt (v : Datetime)

def Edit.apply (edit : Edit J) (row : Row J) : Row J :=
  match edit with
  | .id v => { row with id := v }
  | .agentId v => { row with agentId := v }
  | .role v => { row with role := v }
  | .toolName v => { row with toolName := v }
  | .args v => { row with args := v }
  | .policyDecision v => { row with policyDecision := v }
  | .approvalId v => { row with approvalId := v }
  | .resultStatus v => { row with resultStatus := v }
  | .resultSummary v => { row with resultSummary := v }
  | .durationMs v => { row with durationMs := v }
  | .otelTraceId v => { row with otelTraceId := v }
  | .createdAt v => { row with createdAt := v }

def edited (table : List (Row J)) (seq : ℤ) (edit : Edit J) : List (Row J) :=
  table.map fun r => if r.seq = seq then edit.apply r else r

/-- The new value of a jsonb column can be decoded. -/
def Edit.Decodable : Edit J → Prop
  | .args v => J.read v ≠ none
  | .resultSummary v => decodeJsonb v ≠ none
  | _ => True

/-- The column is hashed, and for a jsonb column the hashed text changes. -/
def Edit.Hashed (row : Row J) : Edit J → Prop
  | .id _ | .agentId _ | .toolName _ | .createdAt _ => True
  | .args v => ∃ a b, J.read v = some a ∧ J.read row.args = some b ∧ dumpsSorted a ≠ dumpsSorted b
  | .resultSummary v => ∃ a b, decodeJsonb v = some a ∧ decodeJsonb row.resultSummary = some b ∧
      dumpsSorted a ≠ dumpsSorted b
  | _ => False

@[simp] theorem apply_seq (edit : Edit J) (row : Row J) : (edit.apply row).seq = row.seq := by
  cases edit <;> rfl

@[simp] theorem apply_rowHash (edit : Edit J) (row : Row J) :
    (edit.apply row).rowHash = row.rowHash := by
  cases edit <;> rfl

/-- Whether an edit shows in the hashed text. -/
theorem hashed_iff {row : Row J} {edit : Edit J} {text : Str} (ht : hashedText row = some text)
    (hne : edit.apply row ≠ row) :
    edit.Hashed row ↔ ∃ text', hashedText (edit.apply row) = some text' ∧ text' ≠ text := by
  simp only [hashedText, Option.bind_eq_bind, Option.bind_eq_some_iff, Option.pure_def,
    Option.some.injEq] at ht ⊢
  obtain ⟨args, hargs, result, hresult, rfl⟩ := ht
  cases edit with
  | id v =>
    refine iff_of_true trivial ⟨_, ⟨args, hargs, result, hresult, rfl⟩, fun heq => hne ?_⟩
    have : v = row.id := uuid_text_injective (List.append_cancel_right heq)
    rw [Edit.apply, this]
  | agentId v =>
    refine iff_of_true trivial ⟨_, ⟨args, hargs, result, hresult, rfl⟩, fun heq => hne ?_⟩
    have hstr : v.str = row.agentId.str := List.append_cancel_right (List.append_cancel_left heq)
    have : v = row.agentId := by
      cases v
      cases hr : row.agentId
      simpa [hr] using hstr
    rw [Edit.apply, this]
  | toolName v =>
    refine iff_of_true trivial ⟨_, ⟨args, hargs, result, hresult, rfl⟩, fun heq => hne ?_⟩
    have hstr : v.str = row.toolName.str :=
      List.append_cancel_right (List.append_cancel_left (List.append_cancel_left heq))
    have : v = row.toolName := by
      cases v
      cases hr : row.toolName
      simpa [hr] using hstr
    rw [Edit.apply, this]
  | createdAt v =>
    refine iff_of_true trivial ⟨_, ⟨args, hargs, result, hresult, rfl⟩, fun heq => hne ?_⟩
    simp only [Edit.apply, List.append_right_inj] at heq
    rw [Edit.apply, isoformat_injective heq]
  | args v =>
    constructor
    · rintro ⟨a, b, ha, hb, hdiff⟩
      refine ⟨_, ⟨a, ha, result, hresult, rfl⟩, fun heq => hdiff ?_⟩
      have hab : args = b := Option.some.inj (hargs.symm.trans hb)
      simp only [Edit.apply, List.append_right_inj] at heq
      rw [List.append_cancel_right heq, hab]
    · rintro ⟨_, ⟨a, ha, result', hresult', rfl⟩, hdiff⟩
      have hrr : result' = result := Option.some.inj (hresult'.symm.trans hresult)
      exact ⟨a, args, ha, hargs, fun heq => hdiff (by rw [heq, hrr]; rfl)⟩
  | resultSummary v =>
    constructor
    · rintro ⟨a, b, ha, hb, hdiff⟩
      refine ⟨_, ⟨args, hargs, a, ha, rfl⟩, fun heq => hdiff ?_⟩
      have hab : result = b := Option.some.inj (hresult.symm.trans hb)
      simp only [Edit.apply, List.append_right_inj] at heq
      rw [List.append_cancel_right heq, hab]
    · rintro ⟨_, ⟨args', hargs', a, ha, rfl⟩, hdiff⟩
      have haa : args' = args := Option.some.inj (hargs'.symm.trans hargs)
      exact ⟨a, result, ha, hresult, fun heq => hdiff (by rw [heq, haa]; rfl)⟩
  | _ =>
    refine iff_of_false (fun h => h) ?_
    rintro ⟨_, ⟨args', hargs', result', hresult', rfl⟩, hdiff⟩
    have haa : args' = args := Option.some.inj (hargs'.symm.trans hargs)
    have hrr : result' = result := Option.some.inj (hresult'.symm.trans hresult)
    exact hdiff (by rw [haa, hrr]; rfl)

theorem decodable_iff {row : Row J} (edit : Edit J) (ht : hashedText row ≠ none) :
    edit.Decodable ↔ hashedText (edit.apply row) ≠ none := by
  obtain ⟨text, ht⟩ := Option.ne_none_iff_exists'.mp ht
  simp only [hashedText, Option.bind_eq_bind, Option.bind_eq_some_iff, Option.pure_def,
    Option.some.injEq] at ht
  obtain ⟨args, hargs, result, hresult, -⟩ := ht
  cases edit with
  | args v =>
    have hv : decodeJsonb (some v) = J.read v := rfl
    cases hread : J.read v <;> simp [Edit.Decodable, hashedText, Edit.apply, hresult, hv, hread]
  | resultSummary v =>
    cases hread : decodeJsonb v <;> simp [Edit.Decodable, hashedText, Edit.apply, hargs, hread]
  | _ => simp [Edit.Decodable, hashedText, Edit.apply, hargs, hresult]

/-! ### Chains with gaps -/

/-- The last row before a seq. -/
def LastBelow (table : List (Row J)) (seq : ℤ) : Option (Row J) → Prop
  | none => ∀ r ∈ table, seq ≤ r.seq
  | some last => last ∈ table ∧ last.seq < seq ∧ ∀ r ∈ table, r.seq < seq → r.seq ≤ last.seq

/-- Every row is chained on the row before it, gaps or not. -/
structure ValidChain (sha256 : Digest) (table : List (Row J)) : Prop where
  distinct : (table.map Row.seq).Nodup
  positive : ∀ r ∈ table, 1 ≤ r.seq
  chained : ∀ r ∈ table, ∃ last, LastBelow table r.seq last ∧
    expectedHash sha256 r (prevHashOf last) = some r.rowHash.str

/-- A row of a chain is good unless a seq is missing right before it. -/
theorem good_of_validChain {table : List (Row J)} (hv : ValidChain sha256 table) {row : Row J}
    (hr : row ∈ table) (hprev : prevHash table row ≠ none) : Good sha256 table row := by
  obtain ⟨last, hlast, hexp⟩ := hv.chained row hr
  refine ⟨prevHashOf last, ?_, hexp⟩
  rw [prevHash] at hprev ⊢
  split_ifs at hprev ⊢ with hone
  · cases last with
    | none => rfl
    | some l =>
      have := hv.positive l hlast.1
      have := hlast.2.1
      omega
  · obtain ⟨h, hh⟩ := Option.ne_none_iff_exists'.mp hprev
    obtain ⟨r, hrt, hseq, rfl⟩ := rowHashAt_some hh
    cases last with
    | none =>
      have := hlast r hrt
      omega
    | some l =>
      have hle := hlast.2.2 r hrt (by omega)
      have hlt := hlast.2.1
      have : r = l := eq_of_seq_eq hv.distinct hrt hlast.1 (by omega)
      rw [hh, this]
      rfl

section Edited

variable {table : List (Row J)} {row : Row J} {edit : Edit J}

theorem mem_edited (edit : Edit J) (hd : (table.map Row.seq).Nodup) (hr : row ∈ table)
    {x : Row J} :
    x ∈ edited table row.seq edit ↔ x = edit.apply row ∨ x ∈ table ∧ x.seq ≠ row.seq := by
  simp only [edited, List.mem_map]
  constructor
  · rintro ⟨y, hy, rfl⟩
    split_ifs with hseq
    · exact Or.inl (by rw [eq_of_seq_eq hd hy hr hseq])
    · exact Or.inr ⟨hy, hseq⟩
  · rintro (rfl | ⟨hx, hne⟩)
    · exact ⟨row, hr, by simp⟩
    · exact ⟨x, hx, by simp [hne]⟩

/-- The hash that the verifier fetches for a seq is the same as before. -/
theorem rowHashAt_edited (table : List (Row J)) (seq seq' : ℤ) :
    rowHashAt (edited table seq edit) seq' = rowHashAt table seq' := by
  induction table with
  | nil => rfl
  | cons r rs ih =>
    simp only [rowHashAt, edited, List.map_cons, List.find?_cons] at ih ⊢
    have hseq : (if r.seq = seq then edit.apply r else r).seq = r.seq := by split_ifs <;> simp
    have hhash : (if r.seq = seq then edit.apply r else r).rowHash = r.rowHash := by
      split_ifs <;> simp
    rw [hseq]
    cases decide (r.seq = seq')
    · exact ih
    · simp [hhash]

theorem prevHash_edited (table : List (Row J)) (seq : ℤ) {x y : Row J} (h : x.seq = y.seq) :
    prevHash (edited table seq edit) x = prevHash table y := by
  rw [prevHash, prevHash, rowHashAt_edited, h]

theorem checkRow_edited_other (table : List (Row J)) (seq : ℤ) (x : Row J) :
    checkRow sha256 (edited table seq edit) x = checkRow sha256 table x := by
  rw [checkRow, checkRow, prevHash_edited _ _ rfl]

/-- What the verifier finds at the edited row, where its predecessor is there. -/
theorem checkRow_edited (hinj : Function.Injective sha256) (hgood : Good sha256 table row)
    (hne : edit.apply row ≠ row) :
    (checkRow sha256 (edited table row.seq edit) (edit.apply row) = some false ↔
        edit.Hashed row) ∧
      (checkRow sha256 (edited table row.seq edit) (edit.apply row) = none ↔ ¬ edit.Decodable) := by
  obtain ⟨text, ht⟩ := Option.ne_none_iff_exists'.mp (hashedText_of_good hgood)
  obtain ⟨prev, hprev, hexp⟩ := hgood
  have hprev' : prevHash (edited table row.seq edit) (edit.apply row) = some prev := by
    rw [prevHash_edited _ _ (apply_seq edit row), hprev]
  constructor
  · rw [hashed_iff ht hne]
    obtain ⟨b, hb, hrow⟩ := expectedHash_some sha256 (prevHash_scalar hprev) ht
    rw [checkRow_of_bindable (bindable_of_prevHash hprev'), hprev']
    simp only [apply_rowHash]
    cases ht' : hashedText (edit.apply row) with
    | none => simp [expectedHash_eq, ht']
    | some text' =>
      obtain ⟨b', hb', hrow'⟩ := expectedHash_some sha256 (prevHash_scalar hprev) ht'
      rw [hrow] at hexp
      rw [hrow', ← Option.some.inj hexp]
      simp only [Option.map_some, Option.some.injEq, decide_eq_false_iff_not, exists_eq_left']
      refine not_congr ⟨fun heq => ?_, fun heq => ?_⟩
      · have hbb : b' = b := hinj heq
        exact List.append_cancel_left (utf8Encode_injective (hbb ▸ hb') hb)
      · rw [heq, hb] at hb'
        rw [Option.some.inj hb']
  · have hread := decodable_iff edit (show hashedText row ≠ none by rw [ht]; simp)
    rw [checkRow_none (bindable_of_prevHash hprev'), hprev', hread]
    simp

/-- Away from the edited row the verifier finds what it found before. -/
theorem checkRow_unedited (hv : ValidChain sha256 table) {x : Row J} (hx : x ∈ table) :
    prevHash table x = none ∨ checkRow sha256 (edited table row.seq edit) x = some true := by
  by_cases hp : prevHash table x = none
  · exact Or.inl hp
  · rw [checkRow_edited_other]
    exact Or.inr (checkRow_good.mpr (good_of_validChain hv hx hp))

theorem checkRow_gap (hv : ValidChain sha256 table) {x y : Row J} (hx : x ∈ table)
    (hseq : y.seq = x.seq) (hp : prevHash table x = none) :
    checkRow sha256 (edited table row.seq edit) y = some false := by
  have hpos := hv.positive x hx
  rw [checkRow_of_bindable (bindable_of_pos (hseq ▸ hpos)), prevHash_edited _ _ hseq, hp]

theorem not_good_of_false {x : Row J} (hx : checkRow sha256 table x = some false) :
    ¬ Good sha256 table x := by
  intro hgood
  rw [checkRow_good.mpr hgood] at hx
  cases hx

theorem apply_mem_edited (hv : ValidChain sha256 table) (hr : row ∈ table) :
    edit.apply row ∈ edited table row.seq edit :=
  (mem_edited edit hv.distinct hr).mpr (Or.inl rfl)

/-- The verifier can only get stuck at the edited row. -/
theorem eq_apply_of_stuck (hv : ValidChain sha256 table) (hr : row ∈ table) {x : Row J}
    (hx : x ∈ edited table row.seq edit)
    (hnone : checkRow sha256 (edited table row.seq edit) x = none) : x = edit.apply row := by
  rcases (mem_edited edit hv.distinct hr).mp hx with rfl | ⟨hxt, -⟩
  · rfl
  · rcases checkRow_unedited hv hxt with hp | htrue
    · rw [checkRow_gap hv hxt rfl hp] at hnone
      cases hnone
    · rw [htrue] at hnone
      cases hnone

theorem fail_at_edited (hv : ValidChain sha256 table) (hr : row ∈ table)
    (hfalse : checkRow sha256 (edited table row.seq edit) (edit.apply row) = some false) :
    ∃ seq, verifyRows sha256 (edited table row.seq edit) (edited table row.seq edit) =
      some (.fail seq) := by
  refine exists_fail (apply_mem_edited hv hr) (not_good_of_false hfalse) fun x hx hnone => ?_
  obtain rfl := eq_apply_of_stuck hv hr hx hnone
  rw [hfalse] at hnone
  cases hnone

/-- With an injective digest, an edit of a chain makes the verifier fail exactly if it changes a
hashed text, or a seq is missing at a row that the verifier gets to. -/
theorem edit_evident_iff (hinj : Function.Injective sha256) (hv : ValidChain sha256 table)
    (hr : row ∈ table) (hne : edit.apply row ≠ row) :
    (∃ seq, verifyRows sha256 (edited table row.seq edit) (edited table row.seq edit) =
        some (.fail seq)) ↔
      edit.Hashed row ∨
        ∃ gap ∈ table, prevHash table gap = none ∧ (gap.seq ≤ row.seq ∨ edit.Decodable) := by
  constructor
  · rintro ⟨seq, hfail⟩
    obtain ⟨x, hx, hseq, hfalse, hbefore⟩ := verifyRows_fail hfail
    by_cases hp : prevHash table row = none
    · exact Or.inr ⟨row, hr, hp, Or.inl le_rfl⟩
    obtain ⟨hshow, hread⟩ := checkRow_edited hinj (good_of_validChain hv hr hp) hne
    rcases (mem_edited edit hv.distinct hr).mp hx with rfl | ⟨hxt, hxs⟩
    · exact Or.inl (hshow.mp hfalse)
    · rcases checkRow_unedited hv hxt with hpx | htrue
      · refine Or.inr ⟨x, hxt, hpx, ?_⟩
        by_cases hle : x.seq ≤ row.seq
        · exact Or.inl hle
        · have hbefore := hbefore _ (apply_mem_edited hv hr) (by rw [apply_seq]; omega)
          refine Or.inr (not_not.mp fun hnot => ?_)
          rw [hread.mpr hnot] at hbefore
          cases hbefore
      · rw [htrue] at hfalse
        cases hfalse
  · rintro (hshow | ⟨gap, hgapt, hpgap, hwhere⟩)
    · apply fail_at_edited hv hr
      by_cases hp : prevHash table row = none
      · exact checkRow_gap hv hr (apply_seq edit row) hp
      · exact (checkRow_edited hinj (good_of_validChain hv hr hp) hne).1.mpr hshow
    · by_cases heq : gap.seq = row.seq
      · exact fail_at_edited hv hr (checkRow_gap hv hgapt (by rw [apply_seq, heq]) hpgap)
      · have hin : gap ∈ edited table row.seq edit :=
          (mem_edited edit hv.distinct hr).mpr (Or.inr ⟨hgapt, heq⟩)
        have hfalse : checkRow sha256 (edited table row.seq edit) gap = some false :=
          checkRow_gap hv hgapt rfl hpgap
        have hnotgood := not_good_of_false hfalse
        refine exists_fail hin hnotgood fun x hx hnone => ?_
        obtain rfl := eq_apply_of_stuck hv hr hx hnone
        refine ⟨gap, hin, ?_, hnotgood⟩
        rw [apply_seq]
        rcases hwhere with hle | hdec
        · omega
        · by_cases hp : prevHash table row = none
          · rw [checkRow_gap hv hr (apply_seq edit row) hp] at hnone
            cases hnone
          · exact absurd hdec ((checkRow_edited hinj (good_of_validChain hv hr hp) hne).2.mp hnone)

end Edited

/-! ### What the writers leave is a chain -/

theorem lastBelow_before {ws : List (Written J)}
    (hs : ws.Pairwise fun w v => v.row.seq < w.row.seq) {p : AuditPool J sha256}
    (hc : Chain p ws) (hJ : Faithful J) : ∀ w ∈ ws, ∃ last,
      LastBelow (ws.map Written.row) w.row.seq last ∧
        expectedHash sha256 w.row (prevHashOf last) = some w.row.rowHash.str := by
  induction ws with
  | nil => exact fun w hw => nomatch hw
  | cons w₀ ws ih =>
    obtain ⟨hbelow, htail⟩ := List.pairwise_cons.mp hs
    intro w hw
    rcases List.mem_cons.mp hw with rfl | hw
    · obtain ⟨event, q, -, hon⟩ := hc.1
      refine ⟨before ws, ?_, expectedHash_of_chainedOn hJ hon⟩
      cases ws with
      | nil => simp [LastBelow, before]
      | cons x xs =>
        refine ⟨by simp, hbelow x (by simp), fun r hr hlt => ?_⟩
        obtain ⟨v, hv, rfl⟩ := List.mem_map.mp hr
        rcases List.mem_cons.mp hv with rfl | hv
        · omega
        rcases List.mem_cons.mp hv with rfl | hv
        · exact le_rfl
        · exact ((List.pairwise_cons.mp htail).1 v hv).le
    · obtain ⟨last, hlast, hexp⟩ := ih htail hc.2 w hw
      refine ⟨last, ?_, hexp⟩
      have hlt := hbelow w hw
      cases last with
      | none =>
        intro r hr
        rcases List.mem_cons.mp hr with rfl | hr
        · exact hlt.le
        · exact hlast r hr
      | some l =>
        refine ⟨List.mem_cons_of_mem _ hlast.1, hlast.2.1, fun r hr hrw => ?_⟩
        rcases List.mem_cons.mp hr with rfl | hr
        · omega
        · exact hlast.2.2 r hr hrw

theorem validChain_of_reachable (hJ : Faithful J)
    {C : AuditPool J sha256 → Move (auditSystem J sha256) → Prop} {p : AuditPool J sha256}
    (hp : Reachable C p) : ValidChain sha256 p.shared.table := by
  have hinv := reachable_writersInv hp
  refine ⟨seqs_nodup hinv.sorted, fun r hr => ?_, fun r hr => ?_⟩
  · obtain ⟨w, hw, rfl⟩ := List.mem_map.mp hr
    exact (reachable_positive hp).rows w hw
  · obtain ⟨w, hw, rfl⟩ := List.mem_map.mp hr
    exact lastBelow_before hinv.sorted (chain_of_linked hinv.linked) hJ w hw

/-- The agent of the first of two rows is changed. -/
theorem edit_evident_agent :
    ∃ (table : List (Row exactJsonb)) (seq : ℤ),
      verifyRows sampleDigest (edited table 1 (.agentId ⟨lit "agent02", by decide⟩))
        (edited table 1 (.agentId ⟨lit "agent02", by decide⟩)) = some (.fail seq) := by
  obtain ⟨p, hp, first, second, htable, hfirst, -, hagent⟩ := two_rows
  have hmem : first ∈ p.shared.table := by simp [htable]
  have hne : (Edit.agentId ⟨lit "agent02", by decide⟩).apply first ≠ first := fun heq => by
    have := congrArg (fun r => r.agentId.str) heq
    simp only [Edit.apply, hagent] at this
    revert this
    decide
  refine ⟨p.shared.table, ?_⟩
  rw [← hfirst]
  exact (edit_evident_iff sampleDigest_injective (validChain_of_reachable exactJsonb_faithful hp)
    hmem hne).mpr (Or.inl trivial)

/-- The role of the first of two rows is changed, and the table passes. -/
theorem role_edit_passes :
    Function.Injective sampleDigest ∧ ∃ (table : List (Row exactJsonb)),
      ValidChain sampleDigest table ∧ edited table 1 (.role ⟨lit "admin", by decide⟩) ≠ table ∧
        verifyRows sampleDigest (edited table 1 (.role ⟨lit "admin", by decide⟩))
          (edited table 1 (.role ⟨lit "admin", by decide⟩)) = some .pass := by
  have hrun : (runMoves CommitsNext (Pool.empty DbState.initial)
      (writerMoves 0 1 ++ [.answer 0 .plain] ++ writerMoves 1 2 ++ [.answer 1 .plain])).map
        (fun p => (p.shared.table.map (fun r => r.role.str),
          (edited p.shared.table 1 (.role ⟨lit "admin", by decide⟩)).map (fun r => r.role.str),
          verifyRows sampleDigest (edited p.shared.table 1 (.role ⟨lit "admin", by decide⟩))
            (edited p.shared.table 1 (.role ⟨lit "admin", by decide⟩)))) =
        some ([lit "sre1", lit "sre1"], [lit "sre1", lit "admin"], some .pass) := by decide +kernel
  obtain ⟨p, hp, hres⟩ := Option.map_eq_some_iff.mp hrun
  simp only [Prod.mk.injEq] at hres
  obtain ⟨hbefore, hafter, hpass⟩ := hres
  refine ⟨sampleDigest_injective, p.shared.table,
    validChain_of_reachable exactJsonb_faithful (reachable_of_runMoves (.start _ rfl) hp),
    fun heq => ?_, hpass⟩
  rw [heq, hbefore] at hafter
  revert hafter
  decide

end AuditTamper
