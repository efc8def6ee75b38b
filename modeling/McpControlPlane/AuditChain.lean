import McpControlPlane.AuditWriters

/-! # The chain that concurrent writers leave

Whatever the interleaving, the committed rows are one chain. The verifier finds the row before
by its seq, so it accepts the chain exactly when no seq was used up by a transaction that
did not commit. -/
namespace AuditChain

open PyText PyJson JsonDict UuidTime AuditLog AuditWriters Interleaving

variable {J : Jsonb} {sha256 : Digest}

theorem wroteAfter_unique {p : AuditPool J sha256} {w : Written J}
    {last last' : Option (Row J)} (h : WroteAfter p w last) (h' : WroteAfter p w last') :
    last = last' := by
  obtain ⟨_, _, u, x, i, c, -, hown, -, -⟩ := h
  obtain ⟨_, _, u', x', i', c', -, hown', -, -⟩ := h'
  rw [hown] at hown'
  simp only [wrote, readLast, List.cons.injEq, Entry.mk.injEq, heq_eq_eq, Option.some.injEq,
    true_and] at hown'
  exact hown'.2.2.1

theorem seq_injOn {ws : List (Written J)} (hs : ws.Pairwise fun w v => v.row.seq < w.row.seq)
    {w v : Written J} (hw : w ∈ ws) (hv : v ∈ ws) (h : w.row.seq = v.row.seq) : w = v := by
  have hd : (ws.map fun w => w.row.seq).Nodup :=
    List.pairwise_map.mpr (hs.imp fun hlt => (ne_of_lt hlt).symm)
  exact List.inj_on_of_nodup_map hd hw hv h

/-- No row lies between a row and the one that its writer read. -/
theorem linked_gap {p : AuditPool J sha256} {ws : List (Written J)} (h : Linked p ws)
    (hs : ws.Pairwise fun w v => v.row.seq < w.row.seq) {w : Written J} (hw : w ∈ ws)
    {last : Option (Row J)} (hlast : WroteAfter p w last) :
    (∀ v ∈ ws, v.row.seq < w.row.seq → ∃ r, last = some r ∧ v.row.seq ≤ r.seq) ∧
      ∀ r, last = some r → r.seq < w.row.seq := by
  induction ws with
  | nil => cases hw
  | cons w₀ ws ih =>
    obtain ⟨hbelow, htail⟩ := List.pairwise_cons.mp hs
    rcases List.mem_cons.mp hw with rfl | hw
    · obtain rfl := wroteAfter_unique hlast h.1
      cases ws with
      | nil => simp [before]
      | cons x ws =>
        refine ⟨fun v hv hlt => ⟨x.row, rfl, ?_⟩, fun r hr => ?_⟩
        · rcases List.mem_cons.mp hv with rfl | hvs
          · omega
          rcases List.mem_cons.mp hvs with rfl | hvs
          · exact le_rfl
          · exact le_of_lt ((List.pairwise_cons.mp htail).1 v hvs)
        · obtain rfl := Option.some.inj hr
          exact hbelow x (by simp)
    · obtain ⟨hgap, hlt⟩ := ih h.2 htail hw
      refine ⟨fun v hv hvw => ?_, hlt⟩
      rcases List.mem_cons.mp hv with heq | hvs
      · have := hbelow w hw
        rw [heq] at hvw
        omega
      · exact hgap v hvs hvw

/-- The row's columns are those of the event, and its hash is chained on `last`. -/
def ChainedOn (sha256 : Digest) (event : AuditEvent) (last : Option (Row J)) (row : Row J) : Prop :=
  row.agentId.str = event.agentId ∧ row.toolName.str = event.toolName ∧
    J.store event.arguments = some row.args ∧
    nullable J.store event.result = some row.resultSummary ∧
    UuidTime.fromTimestamp event.timestamp = some row.createdAt ∧
    eventHash sha256 event row.id row.createdAt (prevHashOf last) = some row.rowHash.str

theorem chainedOn_of_wroteAfter {p : AuditPool J sha256} {w : Written J} {last : Option (Row J)}
    (h : WroteAfter p w last) :
    ∃ event q, p.thread w.writer = some (event, q) ∧ ChainedOn sha256 event last w.row := by
  obtain ⟨event, q, u, x, i, c, hthread, -, ⟨createdAt, hash, htime, hhash, rfl⟩, hrow⟩ := h
  obtain ⟨-, hid, hagent, htool, hargs, hresult, hrowhash, hcreated⟩ := insert_row_columns hrow
  have hid : u = w.row.id := by
    have := hid
    simp only [insertOf, ofText_text, Option.some.injEq] at this
    exact this
  refine ⟨event, q, hthread, hagent, htool, hargs, hresult, ?_, ?_⟩
  · rw [htime, hcreated]
    rfl
  · rw [hrowhash, hcreated, ← hid]
    exact hhash

/-- Every row is chained on the one after it in the list, the last one on the genesis hash. -/
def Chain (p : AuditPool J sha256) : List (Written J) → Prop
  | [] => True
  | w :: ws => (∃ event q, p.thread w.writer = some (event, q) ∧
      ChainedOn sha256 event (before ws) w.row) ∧ Chain p ws

theorem chain_of_linked {p : AuditPool J sha256} {ws : List (Written J)} (h : Linked p ws) :
    Chain p ws := by
  induction ws with
  | nil => trivial
  | cons w ws ih => exact ⟨chainedOn_of_wroteAfter h.1, ih h.2⟩

/-- The committed rows, the latest first, are one chain: no row of it has two successors, and it
holds each finished call once. -/
structure LinearChain (p : AuditPool J sha256) : Prop where
  by_seq : p.shared.rows.Pairwise fun w v => v.row.seq < w.row.seq
  chain : Chain p p.shared.rows
  one_successor : ∀ w ∈ p.shared.rows, ∀ v ∈ p.shared.rows, ∀ last,
    ⟨.selectLast, some last⟩ ∈ own w.writer p.hist →
    ⟨.selectLast, some last⟩ ∈ own v.writer p.hist → w = v
  kept : ∀ t, ⟨.commit, some ()⟩ ∈ own t p.hist → ∃ w ∈ p.shared.rows, w.writer = t
  finished : ∀ t event, p.thread t = some (event, .ret ()) → ∃ w ∈ p.shared.rows, w.writer = t
  once : ∀ w ∈ p.shared.rows, ∀ v ∈ p.shared.rows, w.writer = v.writer → w = v

theorem wroteAfter_read {p : AuditPool J sha256} {w : Written J} {last last' : Option (Row J)}
    (h : WroteAfter p w last) (hr : ⟨.selectLast, some last'⟩ ∈ own w.writer p.hist) :
    last' = last := by
  obtain ⟨_, _, u, x, i, c, -, hown, -, -⟩ := h
  rw [hown] at hr
  simpa [wrote, readLast, locked, opened] using hr

/-- In every interleaving of any number of writers, failing ones included, the committed rows
form one linear chain. -/
theorem one_linear_chain {C : AuditPool J sha256 → Move (auditSystem J sha256) → Prop}
    {p : AuditPool J sha256} (hp : Reachable C p) : LinearChain p := by
  have hinv := reachable_writersInv hp
  refine ⟨hinv.sorted, chain_of_linked hinv.linked, ?_, hinv.kept, ?_, ?_⟩
  · intro w hw v hv last hwr hvr
    obtain ⟨lw, hlw⟩ := hinv.linked.mem hw
    obtain ⟨lv, hlv⟩ := hinv.linked.mem hv
    obtain rfl := wroteAfter_read hlw hwr
    obtain rfl := wroteAfter_read hlv hvr
    obtain ⟨hgapw, hltw⟩ := linked_gap hinv.linked hinv.sorted hw hlw
    obtain ⟨hgapv, hltv⟩ := linked_gap hinv.linked hinv.sorted hv hlv
    have hseq : w.row.seq = v.row.seq := by
      rcases lt_trichotomy w.row.seq v.row.seq with hlt | heq | hlt
      · obtain ⟨r, hr, hle⟩ := hgapv w hw hlt
        have := hltw r hr
        omega
      · exact heq
      · obtain ⟨r, hr, hle⟩ := hgapw v hv hlt
        have := hltv r hr
        omega
    exact seq_injOn hinv.sorted hw hv hseq
  · intro t event ht
    obtain ⟨u, x, last, i, hown, -⟩ := (reachable_writersObey hp).sat t event _ ht
    exact hinv.kept t (by rw [hown]; simp)
  · intro w hw v hv h
    exact List.inj_on_of_nodup_map hinv.writers hw hv h

/-! ## A sample digest -/

/-- Keeps a document as it was stored. -/
def exactJsonb : Jsonb := ⟨Json, some, some⟩

def samplePayload (prev : Str) (id : Uuid) (agent : String) : Str :=
  payload prev id.text (lit agent) (lit "list_pods") (.obj []) none
    (lit "1970-01-01T00:00:00+00:00")

def firstDigest : Str := lit "f99dd844faf0366e22be2aa421b56378f68b69c954cf5c860c2f2fdfca077d31"

/-- SHA-256 of a few payloads. -/
def samples : List (Str × Str) :=
  [(samplePayload genesisHash 1 "agent01", firstDigest),
    (samplePayload firstDigest 2 "agent01",
      lit "6d1ca0e62c4811d41407ae96a9821502940f0ce70a479b6de5ff3761a2cd87a9"),
    (samplePayload genesisHash 2 "agent01",
      lit "181927890b4dffb4d78f8ddd44df7c81f6dffd589e3932c15596925d0c22560e"),
    (samplePayload genesisHash 1 "agent02",
      lit "de346431557f4419cb012d85b562115090bb3124af9fa2211599a5d079f69810")]

/-- SHA-256 on the sample payloads, and injective. -/
def sampleDigest (b : Bytes) : Str :=
  match samples.find? fun e => utf8Encode e.1 = some b with
  | some e => e.2
  | none => ch 'x' :: b.map fun u => Fin.ofNat _ u.toNat

def sampleEvent : AuditEvent where
  agentId := lit "agent01"
  role := lit "sre1"
  toolName := lit "list_pods"
  arguments := .obj []
  decision := lit "allowed"
  timestamp := .finite false Binary64.zeroMagnitude

/-- The moves of one writer up to its INSERT. -/
def writerMoves (t : ℕ) (u : Uuid) : List (Move (auditSystem exactJsonb sampleDigest)) :=
  [.arrive t sampleEvent, .answer t (.uuid u), .answer t (.trace none), .answer t .plain,
    .answer t .plain, .answer t .plain, .answer t .plain]

def sampleRun (ms : List (Move (auditSystem exactJsonb sampleDigest))) :
    Option (AuditPool exactJsonb sampleDigest) :=
  runMoves (fun _ _ => True) (Pool.empty .initial) ms

/-- Two writers that both committed. -/
theorem one_linear_chain_two_writers :
    ∃ p : AuditPool exactJsonb sampleDigest, p.shared.rows.length = 2 ∧ LinearChain p := by
  have hrun : (sampleRun (writerMoves 0 1 ++ [.answer 0 .plain] ++ writerMoves 1 2 ++
      [.answer 1 .plain])).map (fun p => p.shared.rows.length) = some 2 := by decide +kernel
  obtain ⟨p, hp, hlen⟩ := Option.map_eq_some_iff.mp hrun
  exact ⟨p, hlen, one_linear_chain (reachable_of_runMoves (.start _ rfl) hp)⟩

/-! ## False alarms -/

/-! ### Seqs start at 1 -/

structure PositiveSeqs (s : DbState J) : Prop where
  next : 1 ≤ s.nextSeq
  rows : ∀ w ∈ s.rows, 1 ≤ w.row.seq
  uncommitted : ∀ w ∈ s.uncommitted, 1 ≤ w.row.seq

theorem PositiveSeqs.committed {s : DbState J} (h : PositiveSeqs s) (t : ℕ) :
    PositiveSeqs (s.committed t) := by
  refine ⟨h.next, fun w hw => ?_, fun w hw => h.uncommitted w (List.mem_of_mem_filter hw)⟩
  rcases List.mem_append.mp hw with hw | hw
  · exact h.uncommitted w (List.mem_of_mem_filter hw)
  · exact h.rows w hw

theorem PositiveSeqs.aborted {s : DbState J} (h : PositiveSeqs s) (t : ℕ) :
    PositiveSeqs (s.aborted t) :=
  ⟨h.next, h.rows, fun w hw => h.uncommitted w (List.mem_of_mem_filter hw)⟩

theorem PositiveSeqs.answer {s s' : DbState J} (h : PositiveSeqs s) {t : ℕ} {o : DbOp}
    {c : DbOracle} {x : (db J).Res o} (hs : dbAnswer s t o c = some (x, s')) : PositiveSeqs s' := by
  cases o with
  | commit =>
    simp only [dbAnswer, Option.some.injEq, Prod.mk.injEq] at hs
    exact hs.2 ▸ h.committed t
  | rollback =>
    simp only [dbAnswer, Option.some.injEq, Prod.mk.injEq] at hs
    exact hs.2 ▸ h.aborted t
  | insert i =>
    obtain ⟨s₁, hs₁, heq⟩ := Option.map_eq_some_iff.mp hs
    obtain ⟨-, rfl⟩ := Prod.mk.inj heq
    obtain ⟨row, hrow, rfl⟩ := inserted_some hs₁
    have hseq := insert_row_seq hrow
    have hnext := h.next
    refine ⟨Nat.le_succ_of_le h.next, h.rows, fun w hw => ?_⟩
    rcases List.mem_cons.mp hw with rfl | hw
    · simp only [hseq]
      omega
    · exact h.uncommitted w hw
  | advisoryLock =>
    simp only [dbAnswer, Option.ite_none_right_eq_some, Option.some.injEq, Prod.mk.injEq] at hs
    obtain ⟨-, -, rfl⟩ := hs
    exact ⟨h.next, h.rows, h.uncommitted⟩
  | _ =>
    cases c <;> simp only [dbAnswer, Option.some.injEq, Prod.mk.injEq, reduceCtorEq] at hs
    all_goals exact hs.2 ▸ h

theorem PositiveSeqs.failure {s s' : DbState J} (h : PositiveSeqs s) {t : ℕ} {o : DbOp}
    {c : DbOracle} (hs : dbFailure s t o c = some s') : PositiveSeqs s' := by
  have habort := h.aborted t
  unfold dbFailure at hs
  split at hs
  · exact Option.some.inj hs ▸ h.committed t
  · obtain rfl := Option.some.inj hs
    exact ⟨Nat.le_succ_of_le h.next, habort.rows, habort.uncommitted⟩
  · exact Option.some.inj hs ▸ habort

theorem reachable_positive {C : AuditPool J sha256 → Move (auditSystem J sha256) → Prop}
    {p : AuditPool J sha256} (hp : Reachable C p) : PositiveSeqs p.shared := by
  induction hp with
  | start s hs =>
    obtain rfl := hs
    exact ⟨le_rfl, (fun w hw => nomatch hw), (fun w hw => nomatch hw)⟩
  | step _ _ hm ih =>
    cases hm with
    | arrive t r ht => exact ih
    | drift d => exact nomatch d
    | answer t c r o k x s ht hs => exact ih.answer hs
    | fail t c r o k e s ht he hs => exact ih.failure hs

/-- What comes back from jsonb hashes as what was stored. -/
def Faithful (J : Jsonb) : Prop :=
  ∀ v x, J.store v = some x → ∃ v', J.read x = some v' ∧ dumpsSorted v' = dumpsSorted v

/-- The verifier accepts every selection of the committed rows. -/
def NoAlarm (p : AuditPool J sha256) : Prop :=
  ∀ rows : List (Row J), (∀ r ∈ rows, r ∈ p.shared.table) →
    verifyRows sha256 p.shared.table rows = some .pass

/-- The seq of the last row, 0 where there is none. -/
def lastSeq (ws : List (Written J)) : ℤ := (before ws).elim 0 Row.seq

/-- The seqs are 1 up to the number of rows. -/
def Contiguous : List (Written J) → Prop
  | [] => True
  | w :: ws => w.row.seq = lastSeq ws + 1 ∧ Contiguous ws

theorem lastSeq_nonneg {ws : List (Written J)} (h : Contiguous ws) : 0 ≤ lastSeq ws := by
  induction ws with
  | nil => exact le_rfl
  | cons w ws ih =>
    have hpos := ih h.2
    have hseq : lastSeq (w :: ws) = lastSeq ws + 1 := h.1
    omega

/-- The document comes back from jsonb with the text that was hashed. -/
def ReadsBack (J : Jsonb) (v : Json) : Prop :=
  ∀ x, J.store v = some x → ∃ v', J.read x = some v' ∧ dumpsSorted v' = dumpsSorted v

theorem expectedHash_of_readsBack {event : AuditEvent} {last : Option (Row J)} {row : Row J}
    (h : ChainedOn sha256 event last row) (harg : ReadsBack J event.arguments)
    (hres : ∀ v ∈ event.result, ReadsBack J v) :
    expectedHash sha256 row (prevHashOf last) = some row.rowHash.str := by
  obtain ⟨hagent, htool, hargs, hresult, -, hhash⟩ := h
  obtain ⟨args, hread, hsorted⟩ := harg _ hargs
  have hdecoded : ∃ result, decodeJsonb row.resultSummary = some result ∧
      dumpsSorted result = dumpsSorted (event.result.getD .null) := by
    cases hr : event.result with
    | none =>
      rw [hr] at hresult
      obtain hsummary := Option.some.inj hresult
      exact ⟨.null, by rw [← hsummary]; rfl, rfl⟩
    | some v =>
      rw [hr] at hresult
      obtain ⟨x, hx, hsummary⟩ := Option.map_eq_some_iff.mp hresult
      obtain ⟨result, hres, hs⟩ := hres v hr _ hx
      exact ⟨result, by rw [← hsummary]; exact hres, hs⟩
  obtain ⟨result, hres, hsummary⟩ := hdecoded
  have hargs' : decodeJsonb (some row.args) = some args := hread
  rw [← hhash]
  exact expectedHash_of_texts hagent htool hargs' hres hsorted hsummary _

theorem expectedHash_of_chainedOn (hJ : Faithful J) {event : AuditEvent} {last : Option (Row J)}
    {row : Row J} (h : ChainedOn sha256 event last row) :
    expectedHash sha256 row (prevHashOf last) = some row.rowHash.str :=
  expectedHash_of_readsBack h (hJ _) fun v _ => hJ v

theorem seqs_nodup {ws : List (Written J)} (hs : ws.Pairwise fun w v => v.row.seq < w.row.seq) :
    ((ws.map Written.row).map Row.seq).Nodup := by
  rw [List.map_map]
  exact List.pairwise_map.mpr (hs.imp fun hlt => (ne_of_lt hlt).symm)

/-- A chain without gaps is good row by row. -/
theorem good_of_contiguous (hJ : Faithful J) {p : AuditPool J sha256} {ws : List (Written J)}
    (hd : (p.shared.table.map Row.seq).Nodup) (hsub : ∀ w ∈ ws, w.row ∈ p.shared.table)
    (hchain : Chain p ws) (hc : Contiguous ws) : ∀ w ∈ ws, Good sha256 p.shared.table w.row := by
  induction ws with
  | nil => exact fun w hw => nomatch hw
  | cons w ws ih =>
    intro v hv
    rcases List.mem_cons.mp hv with rfl | hvs
    · obtain ⟨event, q, -, hon⟩ := hchain.1
      refine ⟨prevHashOf (before ws), ?_, expectedHash_of_chainedOn hJ hon⟩
      have hseq := hc.1
      have hpos := lastSeq_nonneg hc.2
      cases ws with
      | nil => exact if_pos hseq
      | cons x xs =>
        have hx : v.row.seq = x.row.seq + 1 := hseq
        have hxs : 0 ≤ lastSeq xs := lastSeq_nonneg hc.2.2
        have hstep : x.row.seq = lastSeq xs + 1 := hc.2.1
        rw [prevHash, if_neg (by omega), hx, Int.add_sub_cancel]
        exact rowHashAt_of_mem hd (hsub x (by simp))
    · exact ih (fun w hw => hsub w (List.mem_cons_of_mem _ hw)) hchain.2 hc.2 v hvs

/-- Where every row has its predecessor there is no gap. -/
theorem contiguous_of_predecessors {ws : List (Written J)}
    (hs : ws.Pairwise fun w v => v.row.seq < w.row.seq)
    (hpre : ∀ w ∈ ws, w.row.seq = 1 ∨ ∃ v ∈ ws, v.row.seq = w.row.seq - 1) : Contiguous ws := by
  induction ws with
  | nil => trivial
  | cons w ws ih =>
    obtain ⟨hbelow, htail⟩ := List.pairwise_cons.mp hs
    have hcont : Contiguous ws := by
      refine ih htail fun v hv => ?_
      rcases hpre v (List.mem_cons_of_mem _ hv) with h | ⟨x, hx, hseq⟩
      · exact Or.inl h
      · rcases List.mem_cons.mp hx with rfl | hx
        · have := hbelow v hv
          omega
        · exact Or.inr ⟨x, hx, hseq⟩
    refine ⟨?_, hcont⟩
    -- the latest row before `w` lies between the predecessor of `w` and `w` itself
    cases ws with
    | nil =>
      rcases hpre w (by simp) with h | ⟨x, hx, hseq⟩
      · exact h
      · obtain rfl := List.mem_singleton.mp hx
        omega
    | cons v vs =>
      have hlt := hbelow v (by simp)
      have hpos := lastSeq_nonneg hcont.2
      have hv : v.row.seq = lastSeq vs + 1 := hcont.1
      change w.row.seq = v.row.seq + 1
      rcases hpre w (by simp) with h | ⟨x, hx, hseq⟩
      · omega
      · rcases List.mem_cons.mp hx with rfl | hx
        · omega
        rcases List.mem_cons.mp hx with rfl | hx
        · omega
        · have := (List.pairwise_cons.mp htail).1 x hx
          omega

theorem prevHash_isSome {table : List (Row J)} {row : Row J} (h : Good sha256 table row) :
    row.seq = 1 ∨ ∃ r ∈ table, r.seq = row.seq - 1 := by
  obtain ⟨prev, hprev, -⟩ := h
  rw [prevHash] at hprev
  split_ifs at hprev with hone
  · exact Or.inl hone
  · obtain ⟨r, hr, hseq, -⟩ := rowHashAt_some hprev
    exact Or.inr ⟨r, hr, hseq⟩

/-- In every reachable state: no alarm exactly if no seq is missing. -/
theorem noAlarm_iff_contiguous (hJ : Faithful J)
    {C : AuditPool J sha256 → Move (auditSystem J sha256) → Prop} {p : AuditPool J sha256}
    (hp : Reachable C p) : NoAlarm p ↔ Contiguous p.shared.rows := by
  have hinv := reachable_writersInv hp
  have hmem : ∀ w ∈ p.shared.rows, w.row ∈ p.shared.table := fun w hw => List.mem_map_of_mem hw
  constructor
  · intro h
    have hgood := verifyRows_pass_iff.mp (h p.shared.table fun r hr => hr)
    refine contiguous_of_predecessors hinv.sorted fun w hw => ?_
    rcases prevHash_isSome (hgood _ (hmem w hw)) with hone | ⟨r, hr, hseq⟩
    · exact Or.inl hone
    · obtain ⟨v, hv, rfl⟩ := List.mem_map.mp hr
      exact Or.inr ⟨v, hv, hseq⟩
  · intro hc rows hrows
    refine verifyRows_pass_iff.mpr fun r hr => ?_
    obtain ⟨w, hw, rfl⟩ := List.mem_map.mp (hrows r hr)
    exact good_of_contiguous hJ (seqs_nodup hinv.sorted) hmem (chain_of_linked hinv.linked) hc w hw

/-- The request whose COMMIT the move applies. -/
def commitOf (p : AuditPool J sha256) (m : Move (auditSystem J sha256)) : Option ℕ :=
  match m with
  | .answer t _ | .fail t (.applied true) =>
    match p.pending t with
    | some .commit => some t
    | _ => none
  | _ => none

/-- A COMMIT finds no seq used up between the last committed row and its own. -/
def CommitsNext (p : AuditPool J sha256) (m : Move (auditSystem J sha256)) : Prop :=
  ∀ t ∈ commitOf p m, ∀ w ∈ p.shared.uncommitted, w.writer = t →
    w.row.seq = lastSeq p.shared.rows + 1

instance (p : AuditPool J sha256) (m : Move (auditSystem J sha256)) : Decidable (CommitsNext p m) :=
  inferInstanceAs (Decidable (∀ t ∈ commitOf p m, ∀ w ∈ p.shared.uncommitted, w.writer = t →
    w.row.seq = lastSeq p.shared.rows + 1))

theorem dbAnswer_rows {s s' : DbState J} {t : ℕ} {o : DbOp} {c : DbOracle} {x : (db J).Res o}
    (h : dbAnswer s t o c = some (x, s')) :
    o ≠ .commit ∧ s'.rows = s.rows ∨ o = .commit ∧ s' = s.committed t := by
  cases o with
  | commit =>
    simp only [dbAnswer, Option.some.injEq, Prod.mk.injEq] at h
    exact Or.inr ⟨rfl, h.2.symm⟩
  | insert i =>
    obtain ⟨s₁, hs₁, heq⟩ := Option.map_eq_some_iff.mp h
    obtain ⟨-, rfl⟩ := Prod.mk.inj heq
    obtain ⟨row, -, rfl⟩ := inserted_some hs₁
    exact Or.inl ⟨(fun hc => by cases hc), rfl⟩
  | advisoryLock =>
    simp only [dbAnswer, Option.ite_none_right_eq_some, Option.some.injEq, Prod.mk.injEq] at h
    obtain ⟨-, -, rfl⟩ := h
    exact Or.inl ⟨(fun hc => by cases hc), rfl⟩
  | _ =>
    cases c <;> simp only [dbAnswer, Option.some.injEq, Prod.mk.injEq, reduceCtorEq] at h
    all_goals
      obtain ⟨-, rfl⟩ := h
      exact Or.inl ⟨(fun hc => by cases hc), rfl⟩

theorem dbFailure_rows {s s' : DbState J} {t : ℕ} {o : DbOp} {c : DbOracle}
    (h : dbFailure s t o c = some s') :
    ¬ (o = .commit ∧ c = .applied true) ∧ s'.rows = s.rows ∨
      o = .commit ∧ c = .applied true ∧ s' = s.committed t := by
  unfold dbFailure at h
  split at h
  · exact Or.inr ⟨rfl, rfl, (Option.some.inj h).symm⟩
  · obtain rfl := Option.some.inj h
    exact Or.inl ⟨nofun, rfl⟩
  · rename_i hne _
    obtain rfl := Option.some.inj h
    exact Or.inl ⟨fun hc => hne hc.1 hc.2, rfl⟩

/-- Only a COMMIT changes the committed rows, and it adds the row that its request inserted. -/
theorem step_rows {p p' : AuditPool J sha256} {m : Move (auditSystem J sha256)}
    (hp : WritersObey p) (hinv : WritersInv p) (hm : Step p m p') :
    commitOf p m = none ∧ p'.shared.rows = p.shared.rows ∨ ∃ t row, commitOf p m = some t ∧
      p.shared.uncommitted = [⟨t, row⟩] ∧ p'.shared.rows = ⟨t, row⟩ :: p.shared.rows := by
  have hcommit : ∀ t r k, p.thread t = some (r, .call DbOp.commit k) →
      ∃ row, p.shared.uncommitted = [⟨t, row⟩] ∧
        (p.shared.committed t).rows = ⟨t, row⟩ :: p.shared.rows := by
    intro t r k ht
    obtain ⟨u, x, last, i, hown, -⟩ := (hp.sat t r _ ht).1
    obtain ⟨row, -, hunc, hs⟩ := hinv.committed_rows hown
    exact ⟨row, hunc, by rw [hs]⟩
  cases hm with
  | arrive t r ht => exact Or.inl ⟨rfl, rfl⟩
  | drift d => exact nomatch d
  | answer t c r o k x s ht hs =>
    have hof := pending_of_thread ht
    rcases dbAnswer_rows hs with ⟨hne, hrows⟩ | ⟨rfl, rfl⟩
    · refine Or.inl ⟨?_, hrows⟩
      rw [commitOf, hof]
      cases o <;> first | rfl | exact absurd rfl hne
    · obtain ⟨row, hunc, hrows⟩ := hcommit t r k ht
      refine Or.inr ⟨t, row, ?_, hunc, hrows⟩
      rw [commitOf, hof]
  | fail t c r o k e s ht he hs =>
    have hof := pending_of_thread ht
    rcases dbFailure_rows hs with ⟨hne, hrows⟩ | ⟨rfl, rfl, rfl⟩
    · refine Or.inl ⟨?_, hrows⟩
      cases c with
      | applied yes =>
        cases yes with
        | false => rfl
        | true =>
          rw [commitOf, hof]
          cases o <;> first | rfl | exact absurd ⟨rfl, rfl⟩ hne
      | _ => rfl
    · obtain ⟨row, hunc, hrows⟩ := hcommit t r k ht
      refine Or.inr ⟨t, row, ?_, hunc, hrows⟩
      rw [commitOf, hof]

theorem contiguous_of_commitsNext {p : AuditPool J sha256} (hp : Reachable CommitsNext p) :
    Contiguous p.shared.rows := by
  induction hp with
  | start s hs =>
    obtain rfl := hs
    trivial
  | step hp hc hm ih =>
    rcases step_rows (reachable_writersObey hp) (reachable_writersInv hp) hm with
      ⟨-, heq⟩ | ⟨t, row, hcommit, hunc, heq⟩
    · rw [heq]
      exact ih
    · rw [heq]
      exact ⟨hc t hcommit ⟨t, row⟩ (by rw [hunc]; simp) rfl, ih⟩

theorem commitsNext_of_contiguous {p p' : AuditPool J sha256} {m : Move (auditSystem J sha256)}
    (hp : WritersObey p) (hinv : WritersInv p) (hm : Step p m p')
    (hc : Contiguous p'.shared.rows) : CommitsNext p m := by
  intro t ht w hw hwt
  rcases step_rows hp hinv hm with ⟨hnone, -⟩ | ⟨t', row, -, hunc, heq⟩
  · rw [hnone] at ht
    cases ht
  · rw [hunc, List.mem_singleton] at hw
    subst hw
    rw [heq] at hc
    exact hc.1

/-- As long as every COMMIT takes the seq after the last committed row's, the verifier accepts
every selection of committed rows; the first COMMIT that does not makes it raise an alarm. -/
theorem no_alarm_iff_commits_next (hJ : Faithful J) :
    (∀ p : AuditPool J sha256, Reachable CommitsNext p → NoAlarm p) ∧
      ∀ (p p' : AuditPool J sha256) (m : Move (auditSystem J sha256)),
        Reachable (fun _ _ => True) p → Step p m p' → ¬ CommitsNext p m → ¬ NoAlarm p' := by
  refine ⟨fun p hp => (noAlarm_iff_contiguous hJ hp).mpr (contiguous_of_commitsNext hp), ?_⟩
  intro p p' m hp hm hnot hquiet
  have hc := (noAlarm_iff_contiguous hJ (.step hp trivial hm)).mp hquiet
  exact hnot (commitsNext_of_contiguous (reachable_writersObey hp) (reachable_writersInv hp) hm hc)

theorem exactJsonb_faithful : Faithful exactJsonb := by
  intro v x h
  obtain rfl := Option.some.inj h
  exact ⟨v, rfl, rfl⟩

/-- Two writers that commit one after the other. -/
theorem no_alarm_two_writers :
    ∃ p : AuditPool exactJsonb sampleDigest, p.shared.rows.length = 2 ∧ NoAlarm p := by
  have hrun : (runMoves CommitsNext (Pool.empty DbState.initial)
      (writerMoves 0 1 ++ [.answer 0 .plain] ++ writerMoves 1 2 ++ [.answer 1 .plain])).map
        (fun p => p.shared.rows.length) = some 2 := by decide +kernel
  obtain ⟨p, hp, hlen⟩ := Option.map_eq_some_iff.mp hrun
  exact ⟨p, hlen, (no_alarm_iff_commits_next exactJsonb_faithful).1 p
    (reachable_of_runMoves (.start _ rfl) hp)⟩

/-- The first writer is cut off after its INSERT; the row of the second one has seq 2. -/
theorem alarm_after_aborted_insert :
    ∃ p : AuditPool exactJsonb sampleDigest, Reachable (fun _ _ => True) p ∧
      verifyRows sampleDigest p.shared.table p.shared.table = some (.fail 2) := by
  have hrun : (sampleRun (writerMoves 0 1 ++ [.fail 0 (.applied false)] ++ writerMoves 1 2 ++
      [.answer 1 .plain])).map (fun p => verifyRows sampleDigest p.shared.table p.shared.table) =
        some (some (.fail 2)) := by decide +kernel
  obtain ⟨p, hp, hfail⟩ := Option.map_eq_some_iff.mp hrun
  exact ⟨p, reachable_of_runMoves (.start _ rfl) hp, hfail⟩

end AuditChain
