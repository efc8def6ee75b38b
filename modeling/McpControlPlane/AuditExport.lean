import McpControlPlane.AuditChain
import McpControlPlane.UtcDays

/-! # Exports of the audit log

An export selects rows by `created_at` and yields them by seq. A range of the chain can be
verified by itself if no row lies between two rows of the range and outside of it. The daily
script exports one day after the other, both midnights included. -/
namespace AuditExport

open PyText Binary64 JsonText JsonDict PyJson UuidTime UtcDays SortedScan AuditLog AuditWriters AuditChain
open Interleaving

variable {J : Jsonb} {sha256 : Digest}

/-! ## `export_audit_log` -/

def optJson {α : Type} (f : α → Json) (x : Option α) : Json := (x.map f).getD .null

/-- `row_to_json`; `none` where a column does not load. -/
def rowToJson (row : Row J) : Option Json := do
  let args ← decodeJsonb (some row.args)
  let policyDecision ← decodeJsonb row.policyDecision
  let resultSummary ← decodeJsonb row.resultSummary
  return .obj [(lit "id", .str row.id.text), (lit "seq", intJson row.seq),
    (lit "agent_id", .str row.agentId.str), (lit "role", .str row.role.str),
    (lit "tool_name", .str row.toolName.str), (lit "args", args),
    (lit "policy_decision", policyDecision),
    (lit "approval_id", optJson (fun u => .str (Uuid.text u)) row.approvalId),
    (lit "result_status", .str row.resultStatus.str), (lit "result_summary", resultSummary),
    (lit "duration_ms", optJson intJson row.durationMs),
    (lit "otel_trace_id", optJson (fun s => .str s.str) row.otelTraceId),
    (lit "row_hash", .str row.rowHash.str), (lit "created_at", .str row.createdAt.isoformat)]

/-- `created_at >= $1 AND created_at <= $2`. -/
def inRange (from_ to_ : ℕ) (row : Row J) : Bool :=
  from_ ≤ instant row.createdAt && instant row.createdAt ≤ to_

/-- The rows of the cursor, `ORDER BY seq ASC`. -/
def selectRange (table : List (Row J)) (from_ to_ : ℕ) : List (Row J) :=
  (table.filter (inRange from_ to_)).insertionSort (byKey Row.seq)

def exportAuditLog (table : List (Row J)) (from_ to_ : ℕ) : Option (List Json) :=
  (selectRange table from_ to_).mapM rowToJson

theorem mem_selectRange {table : List (Row J)} {from_ to_ : ℕ} {row : Row J} :
    row ∈ selectRange table from_ to_ ↔
      row ∈ table ∧ from_ ≤ instant row.createdAt ∧ instant row.createdAt ≤ to_ := by
  simp only [selectRange, mem_sorted, List.mem_filter, inRange, Bool.and_eq_true, decide_eq_true_eq]

/-! ## Ranges of the chain -/

/-- The row's hash is chained on the row that was yielded before it. -/
def Follows (sha256 : Digest) (before row : Row J) : Prop :=
  expectedHash sha256 row before.rowHash.str = some row.rowHash.str

/-- The range can be verified by itself. -/
def Verifiable (sha256 : Digest) (rows : List (Row J)) : Prop := rows.IsChain (Follows sha256)

/-- Whatever range holds the outer two points in time holds the inner one. -/
def Between (outer inner outer' : ℕ) : Prop :=
  min outer outer' ≤ inner ∧ inner ≤ max outer outer'

instance (a b c : ℕ) : Decidable (Between a b c) := inferInstanceAs (Decidable (_ ∧ _))

def writtenAt (w : Written J) : ℕ := instant w.row.createdAt

/-- No later row of `ws` leaves the time between an earlier one and `w`. -/
def NoDetour (ws : List (Written J)) (w : Written J) : Prop :=
  ws.Pairwise fun later earlier => Between (writtenAt earlier) (writtenAt later) (writtenAt w)

instance (ws : List (Written J)) (w : Written J) : Decidable (NoDetour ws w) :=
  inferInstanceAs (Decidable (ws.Pairwise _))

/-- Each row is chained on the one before it, and times make no detour. -/
def Ranged (sha256 : Digest) : List (Written J) → Prop
  | [] => True
  | w :: ws => expectedHash sha256 w.row (prevHashOf (before ws)) = some w.row.rowHash.str ∧
      NoDetour ws w ∧ Ranged sha256 ws

theorem selectRange_written {ws : List (Written J)}
    (hs : ws.Pairwise fun w v => v.row.seq < w.row.seq) (from_ to_ : ℕ) :
    selectRange (ws.map Written.row) from_ to_ =
      ((ws.filter fun w => inRange from_ to_ w.row).map Written.row).reverse := by
  have hfilter : (ws.map Written.row).filter (inRange from_ to_) =
      (ws.filter fun w => inRange from_ to_ w.row).map Written.row := by
    rw [List.filter_map]
    rfl
  have hdesc : ((ws.filter fun w => inRange from_ to_ w.row).map Written.row).Pairwise
      fun r r' => r'.seq < r.seq :=
    List.pairwise_map.mpr (hs.filter _)
  rw [selectRange, hfilter]
  refine List.Perm.eq_of_pairwise (fun r r' hr hr' hle hle' => ?_)
    (List.pairwise_insertionSort (byKey Row.seq) _) ?_ ?_
  · simp only [mem_sorted, List.mem_reverse, List.mem_map, List.mem_filter] at hr hr'
    obtain ⟨w, ⟨hw, -⟩, rfl⟩ := hr
    obtain ⟨v, ⟨hv, -⟩, rfl⟩ := hr'
    exact congrArg Written.row (seq_injOn hs hw hv (le_antisymm hle hle'))
  · rw [List.pairwise_reverse]
    exact hdesc.imp fun h => le_of_lt h
  · exact (List.perm_insertionSort _ _).trans (List.reverse_perm _).symm

theorem verifiable_of_ranged {ws : List (Written J)}
    (hs : ws.Pairwise fun w v => v.row.seq < w.row.seq) (h : Ranged sha256 ws) (from_ to_ : ℕ) :
    Verifiable sha256 (selectRange (ws.map Written.row) from_ to_) := by
  rw [selectRange_written hs, Verifiable, List.isChain_reverse, List.isChain_map]
  clear hs
  induction ws with
  | nil => exact .nil
  | cons w ws ih =>
    obtain ⟨hhash, hdetour, hrest⟩ := h
    have hih := ih hrest
    by_cases hin : inRange from_ to_ w.row = true
    · simp only [List.filter_cons, hin, if_true]
      cases ws with
      | nil => exact .singleton w
      | cons x ws =>
        by_cases hx : inRange from_ to_ x.row = true
        · simp only [List.filter_cons, hx, if_true] at hih ⊢
          exact .cons_cons hhash hih
        · -- a row before `x` that is in the range would have `x` in it as well
          have hnone : (x :: ws).filter (fun w => inRange from_ to_ w.row) = [] := by
            simp only [List.filter_cons, hx, if_false, Bool.false_eq_true, List.filter_eq_nil_iff]
            intro v hv hvin
            have hbetween := (List.pairwise_cons.mp hdetour).1 v hv
            apply hx
            simp only [inRange, Bool.and_eq_true, decide_eq_true_eq] at hin hvin ⊢
            unfold Between writtenAt at hbetween
            omega
          rw [hnone]
          exact .singleton w
    · simpa only [List.filter_cons, hin, if_false, Bool.false_eq_true] using hih

/-- What comes back from jsonb hashes as the event did. -/
def survives (J : Jsonb) (v : Json) : Bool :=
  match J.store v with
  | none => true
  | some x =>
    match J.read x with
    | none => false
    | some v' => decide (dumpsSorted v' = dumpsSorted v)

theorem readsBack_of_survives {v : Json} (h : survives J v = true) : ReadsBack J v := by
  intro x hx
  simp only [survives, hx] at h
  cases hr : J.read x with
  | none =>
    rw [hr] at h
    cases h
  | some v' =>
    rw [hr] at h
    exact ⟨v', rfl, of_decide_eq_true h⟩

def eventSurvives (J : Jsonb) (event : AuditEvent) : Bool :=
  survives J event.arguments && event.result.all (survives J)

/-- The event of a request that is being written. -/
def eventOf (p : AuditPool J sha256) (t : ℕ) : Option AuditEvent := (p.thread t).map Prod.fst

/-- A COMMIT finds no later row outside of the time between an earlier row and its own, and its
row reads back as it was hashed. -/
def CommitsInRange (p : AuditPool J sha256) (m : Move (auditSystem J sha256)) : Prop :=
  ∀ t ∈ commitOf p m, (∀ event ∈ eventOf p t, eventSurvives J event = true) ∧
    ∀ w ∈ p.shared.uncommitted, w.writer = t → NoDetour p.shared.rows w

instance (p : AuditPool J sha256) (m : Move (auditSystem J sha256)) :
    Decidable (CommitsInRange p m) :=
  inferInstanceAs (Decidable (∀ t ∈ commitOf p m, (∀ event ∈ eventOf p t,
    eventSurvives J event = true) ∧
    ∀ w ∈ p.shared.uncommitted, w.writer = t → NoDetour p.shared.rows w))

theorem thread_of_commitOf {p : AuditPool J sha256} {m : Move (auditSystem J sha256)} {t : ℕ}
    (h : commitOf p m = some t) : ∃ event q, p.thread t = some (event, q) := by
  have hpending : p.pending t = some .commit := by
    unfold commitOf at h
    split at h
    all_goals
      first
      | (split at h
         · rename_i hp
           obtain rfl := Option.some.inj h
           exact hp
         · cases h)
      | cases h
  obtain ⟨event, k, ht⟩ := thread_of_pending hpending
  exact ⟨event, _, ht⟩

theorem ranged_of_commitsInRange {p : AuditPool J sha256} (hp : Reachable CommitsInRange p) :
    Ranged sha256 p.shared.rows := by
  induction hp with
  | start s hs =>
    obtain rfl := hs
    trivial
  | @step p p' m hp hc hm ih =>
    rcases step_rows (reachable_writersObey hp) (reachable_writersInv hp) hm with
      ⟨-, heq⟩ | ⟨t, row, hcommit, hunc, heq⟩
    · rw [heq]
      exact ih
    · obtain ⟨hsurvives, hdetour⟩ := hc t hcommit
      obtain ⟨event, q, ht⟩ := thread_of_commitOf hcommit
      have hchain := (one_linear_chain (Reachable.step hp hc hm)).chain
      rw [heq] at hchain
      obtain ⟨event', q', ht', hon⟩ := hchain.1
      obtain ⟨q'', ht''⟩ := hm.request ht
      obtain rfl : event' = event := by
        have hthread : p'.thread t = some (event', q') := ht'
        rw [ht''] at hthread
        exact (Prod.mk.inj (Option.some.inj hthread)).1.symm
      have hev : eventSurvives J event' = true :=
        hsurvives event' (by rw [eventOf, ht]; rfl)
      simp only [eventSurvives, Bool.and_eq_true, Option.all_eq_true] at hev
      rw [heq]
      refine ⟨expectedHash_of_readsBack hon (readsBack_of_survives hev.1) fun v hv => ?_,
        hdetour ⟨t, row⟩ (by rw [hunc]; simp) rfl, ih⟩
      exact readsBack_of_survives (hev.2 v hv)

/-- As long as no COMMIT leaves a later row outside of the time between an earlier one and its
own, every exported range can be verified by itself. -/
theorem export_verifiable {p : AuditPool J sha256} (hp : Reachable CommitsInRange p)
    (from_ to_ : ℕ) : Verifiable sha256 (selectRange p.shared.table from_ to_) :=
  verifiable_of_ranged (reachable_writersInv hp).sorted (ranged_of_commitsInRange hp) from_ to_

instance (before row : Row J) : Decidable (Follows sha256 before row) :=
  inferInstanceAs (Decidable (_ = _))

instance (rows : List (Row J)) : Decidable (Verifiable sha256 rows) :=
  inferInstanceAs (Decidable (rows.IsChain _))

theorem half_lt : 2 ^ 52 < 2 ^ 53 := by norm_num

theorem half_normal (shift : ℕ) : shift = 0 ∨ 2 ^ 52 ≤ 2 ^ 52 := Or.inr le_rfl

def powerOfTwo (shift : ℕ) (h : shift ≤ 2045) : Magnitude :=
  ⟨2 ^ 52, shift, half_lt, h, half_normal shift⟩

theorem oneSecond_shift : 1022 ≤ 2045 := by norm_num

theorem twoSeconds_shift : 1023 ≤ 2045 := by norm_num

def oneSecond : Float64 := .finite false (powerOfTwo 1022 oneSecond_shift)

def twoSeconds : Float64 := .finite false (powerOfTwo 1023 twoSeconds_shift)

/-- The moves of a writer whose event was built at the given time. -/
def exportMoves (t : ℕ) (u : Uuid) (timestamp : Float64) :
    List (Move (auditSystem exactJsonb sampleDigest)) :=
  [.arrive t { sampleEvent with timestamp }, .answer t (.uuid u), .answer t (.trace none),
    .answer t .plain, .answer t .plain, .answer t .plain, .answer t .plain, .answer t .plain]

/-- 1970-01-01. -/
def epoch : ℕ := midnight 719163

/-- Two writers in the order of their events. -/
theorem export_verifiable_two_rows : ∃ p : AuditPool exactJsonb sampleDigest,
    (selectRange p.shared.table epoch (epoch + dayLength)).length = 2 ∧
      Verifiable sampleDigest (selectRange p.shared.table epoch (epoch + dayLength)) := by
  have hrun : (runMoves CommitsInRange (Pool.empty DbState.initial)
      (exportMoves 0 1 oneSecond ++ exportMoves 1 2 twoSeconds)).map
        (fun p => (selectRange p.shared.table epoch (epoch + dayLength)).length) = some 2 := by
    decide +kernel
  obtain ⟨p, hp, hlen⟩ := Option.map_eq_some_iff.mp hrun
  exact ⟨p, hlen, export_verifiable (reachable_of_runMoves (.start _ rfl) hp) _ _⟩

def noAbort : Move (auditSystem J sha256) → Bool
  | .fail _ _ => false
  | _ => true

/-- The event of the third row was built before the one of the second. -/
theorem export_skips_row : ∃ p : AuditPool exactJsonb sampleDigest,
    Reachable (fun _ m => noAbort m = true) p ∧
      ¬ Verifiable sampleDigest (selectRange p.shared.table epoch (epoch + 1000000)) := by
  have hrun : (runMoves (fun _ m => noAbort m = true) (Pool.empty DbState.initial)
      (exportMoves 0 1 sampleEvent.timestamp ++ exportMoves 1 2 twoSeconds ++
        exportMoves 2 3 oneSecond)).map (fun p =>
        decide (Verifiable sampleDigest (selectRange p.shared.table epoch (epoch + 1000000)))) =
      some false := by decide +kernel
  obtain ⟨p, hp, hskips⟩ := Option.map_eq_some_iff.mp hrun
  exact ⟨p, reachable_of_runMoves (.start _ rfl) hp, of_decide_eq_false hskips⟩

/-! ## The daily script -/

def newline : CodePoint := ch '\n'

/-- `_collect_ndjson`. -/
def collectNdjson (table : List (Row J)) (from_ to_ : ℕ) : Option Str :=
  (exportAuditLog table from_ to_).map fun rows =>
    [newline].intercalate (rows.map dumps) ++ if rows.isEmpty then [] else [newline]

/-- The days before and after the midnight that `now` lies behind; both ends of the window are
midnights. -/
def priorUtcDay (now : Datetime) : ℕ × ℕ := (toOrdinal now - 1, toOrdinal now)

/-- An object of the bucket, under the day that names it. -/
structure Upload where
  day : ℕ
  body : Str

def Upload.key (u : Upload) : Str := lit "audit-log/" ++ dateText u.day ++ lit ".ndjson"

/-- One run of the script, and the rows that were committed when it read the table. -/
structure ScriptRun (J : Jsonb) where
  now : Datetime
  table : List (Row J)

def ScriptRun.rows (r : ScriptRun J) : List (Row J) :=
  selectRange r.table (midnight (priorUtcDay r.now).1) (midnight (priorUtcDay r.now).2)

/-- Nothing is uploaded for a quiet day, nor by a run that raises. -/
def ScriptRun.upload (r : ScriptRun J) : Option Upload :=
  match collectNdjson r.table (midnight (priorUtcDay r.now).1) (midnight (priorUtcDay r.now).2) with
  | none => none
  | some body => if body.isEmpty then none else some ⟨(priorUtcDay r.now).1, body⟩

/-- The line of a row is one of the lines of the file. -/
def appears (row : Row J) (u : Upload) : Bool :=
  (rowToJson row).any fun v => (u.body.splitOn newline).contains (dumps v)

/-- All rows of the run load. -/
def ScriptRun.readable (r : ScriptRun J) : Bool := r.rows.all fun row => (rowToJson row).isSome

/-! ### Lines -/

theorem newline_not_mem (v : Json) : newline ∉ dumps v := by
  intro h
  have hp := dumps_printable v newline h
  revert hp
  decide

theorem dumps_ne_nil (v : Json) : dumps v ≠ [] := by
  obtain ⟨c, s, hs, -⟩ := render_head format_reads (allNums_true v)
  rw [dumps, hs]
  simp

theorem rowToJson_obj {row : Row J} {v : Json} (h : rowToJson row = some v) :
    ∃ kvs, v = .obj ((lit "id", .str row.id.text) :: kvs) := by
  simp only [rowToJson, Option.bind_eq_bind, Option.bind_eq_some_iff, Option.pure_def,
    Option.some.injEq] at h
  obtain ⟨args, -, policyDecision, -, result, -, rfl⟩ := h
  exact ⟨_, rfl⟩

/-- A line tells the id of its row. -/
theorem id_of_line {row row' : Row J} {v v' : Json} (h : rowToJson row = some v)
    (h' : rowToJson row' = some v') (hd : dumps v = dumps v') : row.id = row'.id := by
  obtain ⟨kvs, rfl⟩ := rowToJson_obj h
  obtain ⟨kvs', rfl⟩ := rowToJson_obj h'
  have hp := parse_dumps (.obj ((lit "id", .str row.id.text) :: kvs))
  rw [hd, parse_dumps] at hp
  simp only [JsonTree.map, mapMembers, Except.ok.injEq, JsonTree.obj.injEq, List.cons.injEq,
    Prod.mk.injEq, JsonTree.str.injEq] at hp
  have htext := hp.1.2
  rw [mergeSurrogates_of_scalar (uuid_text_scalar _),
    mergeSurrogates_of_scalar (uuid_text_scalar _)] at htext
  exact (uuid_text_injective htext).symm

theorem mapM_rowToJson (rows : List (Row J)) : rows.mapM rowToJson =
    if rows.all (fun row => (rowToJson row).isSome) then some (rows.filterMap rowToJson)
    else none := by
  induction rows with
  | nil => rfl
  | cons row rows ih =>
    rw [List.mapM_cons, ih]
    cases hrow : rowToJson row with
    | none => simp [hrow]
    | some v =>
      by_cases hall : rows.all (fun row => (rowToJson row).isSome) = true
      · simp [hrow, hall]
      · simp [hrow, hall]

/-- The lines of a file, each one ended by a newline. -/
theorem splitOn_lines {lines : List Str} (hne : lines ≠ []) (h : ∀ l ∈ lines, newline ∉ l) :
    ([newline].intercalate lines ++ [newline]).splitOn newline = lines ++ [[]] := by
  have hjoin : [newline].intercalate lines ++ [newline] = [newline].intercalate (lines ++ [[]]) := by
    clear h
    induction lines with
    | nil => exact absurd rfl hne
    | cons l ls ih =>
      cases ls with
      | nil => simp [List.intercalate]
      | cons l' ls =>
        have := ih (by simp)
        simp only [List.intercalate, List.cons_append, List.intersperse_cons_cons, List.flatten_cons,
          List.append_assoc] at this ⊢
        rw [this]
  rw [hjoin, List.splitOn_intercalate]
  · intro l hl
    rcases List.mem_append.mp hl with hl | hl
    · exact h l hl
    · rw [List.mem_singleton.mp hl]
      simp
  · simp

theorem upload_eq (r : ScriptRun J) : r.upload =
    if r.readable = true ∧ r.rows ≠ [] then
      some ⟨(priorUtcDay r.now).1,
        [newline].intercalate ((r.rows.filterMap rowToJson).map dumps) ++ [newline]⟩
    else none := by
  have hexport : exportAuditLog r.table (midnight (priorUtcDay r.now).1)
      (midnight (priorUtcDay r.now).2) = if r.rows.all (fun row => (rowToJson row).isSome) then
        some (r.rows.filterMap rowToJson) else none := mapM_rowToJson r.rows
  rw [ScriptRun.upload, collectNdjson, hexport]
  by_cases hr : r.readable = true
  · have hall : r.rows.all (fun row => (rowToJson row).isSome) = true := hr
    cases hrows : r.rows with
    | nil => simp [hr]
    | cons row rows =>
      rw [hrows] at hall
      have hsome : (rowToJson row).isSome = true := by
        simp only [List.all_cons, Bool.and_eq_true] at hall
        exact hall.1
      obtain ⟨v, hv⟩ := Option.isSome_iff_exists.mp hsome
      simp [hr, hall, hv]
  · have hall : ¬ r.rows.all (fun row => (rowToJson row).isSome) = true := hr
    simp [hr, hall]

/-- A row of the table appears in the file of a run exactly if the run gets through and selects
the row. -/
theorem appears_iff {table : List (Row J)} (hids : (table.map Row.id).Nodup) {r : ScriptRun J}
    (hsub : ∀ row ∈ r.table, row ∈ table) {row : Row J} (hrow : row ∈ table) :
    (∃ u, r.upload = some u ∧ appears row u = true) ↔ r.readable = true ∧ row ∈ r.rows := by
  have hsel : ∀ x ∈ r.rows, x ∈ table := fun x hx => hsub x (mem_selectRange.mp hx).1
  by_cases hup : r.readable = true ∧ r.rows ≠ []
  · rw [upload_eq, if_pos hup]
    simp only [Option.some.injEq, exists_eq_left']
    have hlines : (r.rows.filterMap rowToJson).map dumps ≠ [] := by
      obtain ⟨x, hx⟩ := List.exists_mem_of_ne_nil _ hup.2
      obtain ⟨v, hv⟩ := Option.isSome_iff_exists.mp (List.all_eq_true.mp hup.1 x hx)
      have : dumps v ∈ (r.rows.filterMap rowToJson).map dumps :=
        List.mem_map_of_mem (List.mem_filterMap.mpr ⟨x, hx, hv⟩)
      exact List.ne_nil_of_mem this
    have hsplit := splitOn_lines hlines (by
      intro l hl
      obtain ⟨v, -, rfl⟩ := List.mem_map.mp hl
      exact newline_not_mem v)
    rw [appears, hsplit]
    constructor
    · intro h
      refine ⟨hup.1, ?_⟩
      obtain ⟨v, hv, hmem⟩ := (Option.any_eq_true _ _).mp h
      rw [List.contains_iff_mem, List.mem_append] at hmem
      rcases hmem with hmem | hmem
      · obtain ⟨v', hv', hd⟩ := List.mem_map.mp hmem
        obtain ⟨x, hx, hxv⟩ := List.mem_filterMap.mp hv'
        have hid := id_of_line hxv hv hd
        rw [← List.inj_on_of_nodup_map hids (hsel x hx) hrow hid]
        exact hx
      · exact absurd (List.mem_singleton.mp hmem) (dumps_ne_nil v)
    · rintro ⟨-, hin⟩
      obtain ⟨v, hv⟩ := Option.isSome_iff_exists.mp (List.all_eq_true.mp hup.1 row hin)
      rw [hv, Option.any_some, List.contains_iff_mem, List.mem_append]
      exact Or.inl (List.mem_map_of_mem (List.mem_filterMap.mpr ⟨row, hin, hv⟩))
  · rw [upload_eq, if_neg hup]
    constructor
    · rintro ⟨u, hu, -⟩
      cases hu
    · rintro ⟨hr, hin⟩
      exact absurd ⟨hr, List.ne_nil_of_mem hin⟩ hup

theorem upload_day {r : ScriptRun J} {u : Upload} (h : r.upload = some u) :
    u.day = (priorUtcDay r.now).1 := by
  rw [upload_eq] at h
  split_ifs at h
  obtain rfl := Option.some.inj h
  rfl

/-! ### One run a day -/

/-- The runs of `n` consecutive days, the first of which exports the day `first`; each one finds
the rows of the day that it exports. -/
structure Schedule (table : List (Row J)) (first n : ℕ) (run : ℕ → ScriptRun J) : Prop where
  real : ∀ row ∈ table, Real row.createdAt
  ids : (table.map Row.id).Nodup
  daily : ∀ i < n, toOrdinal (run i).now = first + i + 1
  subset : ∀ i < n, ∀ row ∈ (run i).table, row ∈ table
  complete : ∀ i < n, ∀ row ∈ table, toOrdinal row.createdAt = first + i → row ∈ (run i).table

def uploads (n : ℕ) (run : ℕ → ScriptRun J) : List Upload :=
  (List.range n).filterMap fun i => (run i).upload

/-- Every row of the covered days appears in one file, the one that is named after its date. -/
def ExactlyOnce (table : List (Row J)) (first n : ℕ) (run : ℕ → ScriptRun J) : Prop :=
  ∀ row ∈ table, first ≤ toOrdinal row.createdAt → toOrdinal row.createdAt < first + n →
    ((uploads n run).filter (appears row)).map (fun u => (u.day, u.key)) =
      [(toOrdinal row.createdAt, lit "audit-log/" ++ dateOf row.createdAt ++ lit ".ndjson")]

/-- The run of a day with rows gets through, and none of these rows is one of exactly midnight
that the run of the day before already exported. -/
def MidnightsLate (table : List (Row J)) (first n : ℕ) (run : ℕ → ScriptRun J) : Prop :=
  ∀ i < n, ∀ row ∈ table, toOrdinal row.createdAt = first + i → (run i).readable = true ∧
    ∀ j, j + 1 = i → instant row.createdAt = midnight (first + i) → row ∈ (run j).table →
      (run j).readable = false

theorem mem_rows_iff {table : List (Row J)} {first n : ℕ} {run : ℕ → ScriptRun J}
    (h : Schedule table first n run) {i : ℕ} (hi : i < n) {row : Row J} (hrow : row ∈ table) :
    row ∈ (run i).rows ↔ row ∈ (run i).table ∧ (toOrdinal row.createdAt = first + i ∨
      toOrdinal row.createdAt = first + i + 1 ∧
        instant row.createdAt = midnight (first + i + 1)) := by
  have hreal := h.real row hrow
  have hday := in_day_iff hreal (first + i)
  have hnext := in_day_iff hreal (first + i + 1)
  have hlen : ∀ d, midnight d < midnight (d + 1) := by
    intro d
    unfold midnight dayLength
    omega
  have hlen₁ := hlen (first + i)
  have hlen₂ := hlen (first + i + 1)
  have hnow := h.daily i hi
  rw [ScriptRun.rows, mem_selectRange]
  simp only [priorUtcDay, hnow, Nat.add_sub_cancel]
  refine and_congr_right fun _ => ?_
  rw [← hday, ← hnext]
  omega

/-- The run gets through and selects the row. -/
def ScriptRun.exports (r : ScriptRun J) (row : Row J) : Bool :=
  r.readable && r.rows.any fun x => x.id = row.id

theorem exports_iff {table : List (Row J)} (hids : (table.map Row.id).Nodup) {r : ScriptRun J}
    (hsub : ∀ row ∈ r.table, row ∈ table) {row : Row J} (hrow : row ∈ table) :
    r.exports row = true ↔ r.readable = true ∧ row ∈ r.rows := by
  simp only [ScriptRun.exports, Bool.and_eq_true, List.any_eq_true, decide_eq_true_eq]
  refine and_congr_right fun _ => ⟨?_, fun h => ⟨row, h, rfl⟩⟩
  rintro ⟨x, hx, hid⟩
  rw [← List.inj_on_of_nodup_map hids (hsub x (mem_selectRange.mp hx).1) hrow hid]
  exact hx

/-- The files that a row appears in, by their days. -/
theorem days_of_row {table : List (Row J)} {first n : ℕ} {run : ℕ → ScriptRun J}
    (h : Schedule table first n run) {row : Row J} (hrow : row ∈ table) {is : List ℕ}
    (his : ∀ i ∈ is, i < n) :
    ((is.filterMap fun i => (run i).upload).filter (appears row)).map Upload.day =
      (is.filter fun i => (run i).exports row).map fun i => first + i := by
  induction is with
  | nil => rfl
  | cons i is ih =>
    have hi := his i (by simp)
    have hrest := ih fun j hj => his j (by simp [hj])
    have hiff := appears_iff h.ids (h.subset i hi) hrow
    rw [← exports_iff h.ids (h.subset i hi) hrow] at hiff
    cases hup : (run i).upload with
    | none =>
      have hno : (run i).exports row = false := by
        rw [← Bool.not_eq_true, ← hiff, hup]
        rintro ⟨u, hu, -⟩
        cases hu
      simp only [List.filterMap_cons, hup, List.filter_cons, hno, Bool.false_eq_true, if_false]
      exact hrest
    | some u =>
      rw [hup] at hiff
      simp only [Option.some.injEq, exists_eq_left'] at hiff
      have hday : u.day = first + i := by
        rw [upload_day hup, priorUtcDay, h.daily i hi, Nat.add_sub_cancel]
      cases hex : (run i).exports row with
      | true =>
        simp only [List.filterMap_cons, hup, List.filter_cons, hex, hiff.mpr hex, if_true,
          List.map_cons, hrest, hday]
      | false =>
        have hno : appears row u = false := by
          rw [← Bool.not_eq_true, hiff, hex]
          exact Bool.false_ne_true
        simp only [List.filterMap_cons, hup, List.filter_cons, hex, hno, Bool.false_eq_true,
          if_false, hrest]

/-- One index is all that a filter keeps. -/
theorem filter_range_eq_singleton {n i : ℕ} {P : ℕ → Bool} (hi : i < n) :
    (List.range n).filter P = [i] ↔ P i = true ∧ ∀ j < n, P j = true → j = i := by
  constructor
  · intro h
    have hmem : ∀ j, j ∈ (List.range n).filter P ↔ j = i := by
      intro j
      rw [h, List.mem_singleton]
    refine ⟨(List.mem_filter.mp ((hmem i).mpr rfl)).2, fun j hj hP => ?_⟩
    exact (hmem j).mp (List.mem_filter.mpr ⟨List.mem_range.mpr hj, hP⟩)
  · rintro ⟨hP, honly⟩
    apply List.perm_singleton.mp
    apply (List.perm_ext_iff_of_nodup (List.nodup_range.filter _) (List.nodup_singleton i)).mpr
    intro j
    rw [List.mem_filter, List.mem_range, List.mem_singleton]
    constructor
    · exact fun hj => honly j hj.1 hj.2
    · rintro rfl
      exact ⟨hi, hP⟩

/-- Which runs export the row of a covered day. -/
theorem exports_day_iff {table : List (Row J)} {first n : ℕ} {run : ℕ → ScriptRun J}
    (h : Schedule table first n run) {row : Row J} (hrow : row ∈ table) {i : ℕ} (hi : i < n)
    (hday : toOrdinal row.createdAt = first + i) {j : ℕ} (hj : j < n) :
    (run j).exports row = true ↔ (run j).readable = true ∧ (j = i ∨ j + 1 = i ∧
      instant row.createdAt = midnight (first + i) ∧ row ∈ (run j).table) := by
  rw [exports_iff h.ids (h.subset j hj) hrow, mem_rows_iff h hj hrow, hday]
  refine and_congr_right fun _ => ?_
  constructor
  · rintro ⟨hmem, heq | ⟨heq, hmid⟩⟩
    · exact Or.inl (by omega)
    · obtain rfl : i = j + 1 := by omega
      exact Or.inr ⟨rfl, hmid, hmem⟩
  · rintro (rfl | ⟨rfl, hmid, hmem⟩)
    · exact ⟨h.complete j hj row hrow hday, Or.inl rfl⟩
    · exact ⟨hmem, Or.inr ⟨rfl, hmid⟩⟩

theorem map_day_key (us : List Upload) {d : ℕ} {k : Str}
    (hk : lit "audit-log/" ++ dateText d ++ lit ".ndjson" = k) :
    us.map (fun u => (u.day, u.key)) = [(d, k)] ↔ us.map Upload.day = [d] := by
  rcases us with _ | ⟨u, _ | ⟨v, us⟩⟩
  · simp
  · simp only [List.map_cons, List.map_nil, List.cons.injEq, Prod.mk.injEq, and_true]
    refine ⟨fun h => h.1, fun h => ⟨h, ?_⟩⟩
    rw [Upload.key, h, hk]
  · simp

/-- The export is exactly-once if and only if every run of a day with rows gets through, and no
row of exactly midnight was there when the day before was exported. -/
theorem exactly_once_iff {table : List (Row J)} {first n : ℕ} {run : ℕ → ScriptRun J}
    (h : Schedule table first n run) :
    ExactlyOnce table first n run ↔ MidnightsLate table first n run := by
  have hrow : ∀ row ∈ table, ∀ i < n, toOrdinal row.createdAt = first + i →
      (((uploads n run).filter (appears row)).map (fun u => (u.day, u.key)) =
        [(toOrdinal row.createdAt, lit "audit-log/" ++ dateOf row.createdAt ++ lit ".ndjson")] ↔
      (run i).readable = true ∧ ∀ j, j + 1 = i → instant row.createdAt = midnight (first + i) →
        row ∈ (run j).table → (run j).readable = false) := by
    intro row hrow i hi hday
    have hkey := dateText_toOrdinal (h.real row hrow)
    rw [map_day_key _ (by rw [hkey]), uploads, days_of_row h hrow fun j => List.mem_range.mp]
    have hshift : ((List.range n).filter fun j => (run j).exports row).map (fun j => first + j) =
        [toOrdinal row.createdAt] ↔ (List.range n).filter (fun j => (run j).exports row) = [i] := by
      rw [hday]
      constructor
      · intro hmap
        obtain ⟨j, hj, heq⟩ := List.map_eq_singleton_iff.mp hmap
        rw [hj]
        congr 1
        omega
      · intro heq
        rw [heq]
        rfl
    rw [hshift, filter_range_eq_singleton hi, exports_day_iff h hrow hi hday hi]
    constructor
    · rintro ⟨⟨hread, -⟩, honly⟩
      refine ⟨hread, fun j hj hmid hmem => ?_⟩
      by_contra hrj
      have := honly j (by omega) ((exports_day_iff h hrow hi hday (by omega)).mpr
        ⟨by simpa using hrj, Or.inr ⟨hj, hmid, hmem⟩⟩)
      omega
    · rintro ⟨hread, hlate⟩
      refine ⟨⟨hread, Or.inl rfl⟩, fun j hj hex => ?_⟩
      obtain ⟨hrj, heq | ⟨hji, hmid, hmem⟩⟩ := (exports_day_iff h hrow hi hday hj).mp hex
      · exact heq
      · rw [hlate j hji hmid hmem] at hrj
        cases hrj
  constructor
  · intro hx i hi row hmem hday
    exact (hrow row hmem i hi hday).mp (hx row hmem (by omega) (by omega))
  · intro hlate row hmem hle hlt
    exact (hrow row hmem (toOrdinal row.createdAt - first) (by omega) (by omega)).mpr
      (hlate _ (by omega) row hmem (by omega))

/-! ### A row of midnight -/

def at_ (day hour : ℕ) (h : day < 100 ∧ hour < 100) : Datetime where
  year := 2026
  month := 1
  day := day
  hour := hour
  minute := 0
  second := 0
  microsecond := 0
  valid := ⟨by norm_num, by norm_num, h.1, h.2, by norm_num, by norm_num, by norm_num⟩

theorem sampleText_storable : storable (lit "agent01") = true := by decide

def sampleText : PgText := ⟨lit "agent01", sampleText_storable⟩

instance hundred_neZero : NeZero (100 : ℕ) := ⟨by decide⟩

/-- A row of January 2026. -/
def rowAt (n : Fin 100) (createdAt : Datetime) : Row exactJsonb where
  seq := n.val
  bigint := ⟨by omega, by omega⟩
  id := n.castLE (by norm_num)
  agentId := sampleText
  role := sampleText
  toolName := sampleText
  args := (.null : Json)
  policyDecision := none
  approvalId := none
  resultStatus := sampleText
  resultSummary := none
  durationMs := none
  otelTraceId := none
  rowHash := sampleText
  createdAt := createdAt

/-- Two rows, the second one of the second day's first hour. -/
def sampleTable (hour : ℕ) (h : hour < 100) : List (Row exactJsonb) :=
  [rowAt 1 (at_ 1 12 (by norm_num)), rowAt 2 (at_ 2 hour ⟨by norm_num, h⟩)]

/-- Runs at one o'clock, which find both rows. -/
def sampleRuns (hour : ℕ) (h : hour < 100) (i : ℕ) : ScriptRun exactJsonb :=
  ⟨if i = 0 then at_ 2 1 (by norm_num) else at_ 3 1 (by norm_num), sampleTable hour h⟩

def firstDay : ℕ := toOrdinal (at_ 1 0 (by norm_num))

theorem at_real {day hour : ℕ} (h : day < 100 ∧ hour < 100) (hd : 1 ≤ day ∧ day ≤ 31)
    (hh : hour < 24) : Real (at_ day hour h) where
  year := Nat.le_add_left 1 2025
  month := ⟨le_rfl, Nat.le_add_left 1 11⟩
  day := hd
  hour := hh
  minute := Nat.succ_pos 59
  second := Nat.succ_pos 59

theorem sampleSchedule {hour : ℕ} (h : hour < 24) :
    Schedule (sampleTable hour (by omega)) firstDay 2 (sampleRuns hour (by omega)) := by
  constructor
  · intro row hrow
    simp only [sampleTable, List.mem_cons, List.not_mem_nil, or_false] at hrow
    rcases hrow with rfl | rfl
    · exact at_real (by norm_num) (by norm_num) (by norm_num)
    · exact at_real ⟨by norm_num, by omega⟩ (by norm_num) h
  · simp [sampleTable, rowAt]
  · intro i hi
    interval_cases i <;> rfl
  · exact fun i _ row hrow => hrow
  · exact fun i _ row hrow _ => hrow

/-- The second row is one of one o'clock. -/
theorem exactly_once_one_oclock :
    ExactlyOnce (sampleTable 1 (by norm_num)) firstDay 2 (sampleRuns 1 (by norm_num)) := by
  refine (exactly_once_iff (sampleSchedule (by norm_num))).mpr ?_
  intro i hi row hrow _
  have hread : ∀ k < 2, (sampleRuns 1 (by norm_num) k).readable = true := by decide +kernel
  refine ⟨hread i hi, fun j _ hmid => ?_⟩
  have hlate : ∀ k < 2, ∀ r ∈ [instant (at_ 1 12 (by norm_num)), instant (at_ 2 1 (by norm_num))],
      r ≠ midnight (firstDay + k) := by decide +kernel
  simp only [sampleTable, List.mem_cons, List.not_mem_nil, or_false] at hrow
  rcases hrow with rfl | rfl
  · exact absurd hmid (hlate i hi _ (by simp [rowAt]))
  · exact absurd hmid (hlate i hi _ (by simp [rowAt]))

/-- A row of exactly midnight is in both files. -/
theorem midnight_row_twice : Schedule (sampleTable 0 (by norm_num)) firstDay 2
      (sampleRuns 0 (by norm_num)) ∧
    ¬ ExactlyOnce (sampleTable 0 (by norm_num)) firstDay 2 (sampleRuns 0 (by norm_num)) := by
  refine ⟨sampleSchedule (by norm_num), fun h => ?_⟩
  have hlate := (exactly_once_iff (sampleSchedule (by norm_num))).mp h 1 (by norm_num)
    (rowAt 2 (at_ 2 0 (by norm_num))) (by simp [sampleTable]) (by decide +kernel)
  have hread := hlate.2 0 rfl (by decide +kernel) (by simp [sampleRuns, sampleTable])
  revert hread
  decide +kernel

end AuditExport
