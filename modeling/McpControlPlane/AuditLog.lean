import McpControlPlane.PyJson
import McpControlPlane.UuidTime
import McpControlPlane.SortedScan

/-! # The audit log: events, rows, hashes and their verification

SHA-256 and jsonb are parameters. A row holds what PostgreSQL holds, so its texts are valid
UTF-8 without NUL and its jsonb columns are values of jsonb; `verifyRows` is the loop of
`verify_rows`, and a table that passes as a whole is a chain without gaps. -/
namespace AuditLog

open PyText Binary64 JsonText JsonDict PyJson UuidTime SortedScan

/-- What PostgreSQL can hold as text. -/
def storable (s : Str) : Bool := Scalar s && !s.contains 0

structure PgText where
  str : Str
  valid : storable str = true
  deriving DecidableEq

def PgText.of (s : Str) : Option PgText := if h : storable s = true then some ⟨s, h⟩ else none

/-- A jsonb column: `store` is the cast of `json.dumps(v)`, `none` where it is refused; `read`
is `_decode_jsonb` of the text that comes back, `none` where `json.loads` raises. -/
structure Jsonb where
  Value : Type
  store : Json → Option Value
  read : Value → Option Json

/-- The SHA-256 hex digest. -/
abbrev Digest := Bytes → Str

def genesisHash : Str := List.replicate 64 (ch '0')

structure AuditEvent where
  agentId : Str
  role : Str
  toolName : Str
  arguments : Json
  decision : Str
  reason : Option Str := none
  result : Option Json := none
  approvalId : Option Str := none
  durationMs : Option ℤ := none
  timestamp : Float64

/-- What a BIGINT column can hold, and asyncpg bind to one: from `-2 ^ 63` to `2 ^ 63 - 1`. -/
def Bigint (n : ℤ) : Prop := (-n).toNat ≤ 2 ^ 63 ∧ n.toNat < 2 ^ 63

instance (n : ℤ) : Decidable (Bigint n) := inferInstanceAs (Decidable (_ ∧ _))

structure Row (J : Jsonb) where
  seq : ℤ
  bigint : Bigint seq
  id : Uuid
  agentId : PgText
  role : PgText
  toolName : PgText
  args : J.Value
  policyDecision : Option J.Value
  approvalId : Option Uuid
  resultStatus : PgText
  resultSummary : Option J.Value
  durationMs : Option ℤ
  otelTraceId : Option PgText
  rowHash : PgText
  createdAt : Datetime

/-! ## `_row_hash` -/

def payload (prevHash rowId agentId toolName : Str) (args : Json) (result : Option Json)
    (createdAtIso : Str) : Str :=
  prevHash ++ (rowId ++ (agentId ++ (toolName ++ (dumpsSorted args ++
    (dumpsSorted (result.getD .null) ++ createdAtIso)))))

/-- `none` is the `UnicodeEncodeError` of `payload.encode()`. -/
def rowHash (sha256 : Digest) (prevHash rowId agentId toolName : Str) (args : Json)
    (result : Option Json) (createdAtIso : Str) : Option Str :=
  (utf8Encode (payload prevHash rowId agentId toolName args result createdAtIso)).map sha256

/-! ## The INSERT -/

structure Insert where
  id : Str
  agentId : Str
  role : Str
  toolName : Str
  args : Json
  policyDecision : Json
  approvalId : Option Str
  resultStatus : Str
  resultSummary : Option Json
  durationMs : Option ℤ
  otelTraceId : Option Str
  rowHash : Str
  createdAt : Datetime

/-- A nullable column. -/
def nullable {α β : Type} (f : α → Option β) : Option α → Option (Option β)
  | none => some none
  | some a => (f a).map some

/-- The next value of the sequence, which is a BIGINT. -/
def bigintOf (n : ℤ) : Option {n : ℤ // Bigint n} := if h : Bigint n then some ⟨n, h⟩ else none

def int4 (n : ℤ) : Option ℤ := if -2 ^ 31 ≤ n ∧ n < 2 ^ 31 then some n else none

variable {J : Jsonb} {sha256 : Digest}

/-- The row that the parameters make, `none` where one of them does not fit its column. -/
def Insert.row (J : Jsonb) (i : Insert) (seq : ℤ) : Option (Row J) := do
  let seq ← bigintOf seq
  let id ← Uuid.ofText i.id
  let agentId ← PgText.of i.agentId
  let role ← PgText.of i.role
  let toolName ← PgText.of i.toolName
  let args ← J.store i.args
  let policyDecision ← J.store i.policyDecision
  let approvalId ← nullable Uuid.ofText i.approvalId
  let resultStatus ← PgText.of i.resultStatus
  let resultSummary ← nullable J.store i.resultSummary
  let durationMs ← nullable int4 i.durationMs
  let otelTraceId ← nullable PgText.of i.otelTraceId
  let rowHash ← PgText.of i.rowHash
  return {
    seq := seq.val, bigint := seq.property, id, agentId, role, toolName, args,
    policyDecision := some policyDecision, approvalId, resultStatus, resultSummary, durationMs,
    otelTraceId, rowHash, createdAt := i.createdAt }

/-! ## `verify_rows` -/

/-- The column as `_decode_jsonb` gives it: SQL NULL and a jsonb null are both `None`. -/
def decodeJsonb (v : Option J.Value) : Option Json :=
  match v with
  | none => some .null
  | some v => J.read v

/-- `SELECT row_hash FROM audit_log WHERE seq = $1`. -/
def rowHashAt (table : List (Row J)) (seq : ℤ) : Option Str :=
  (table.find? fun r => r.seq = seq).map fun r => r.rowHash.str

def prevHash (table : List (Row J)) (row : Row J) : Option Str :=
  if row.seq = 1 then some genesisHash else rowHashAt table (row.seq - 1)

/-- The hash recomputed from the stored fields; `none` is a `ValueError`. -/
def expectedHash (sha256 : Digest) (row : Row J) (prev : Str) : Option Str := do
  let args ← decodeJsonb (some row.args)
  let result ← decodeJsonb row.resultSummary
  rowHash sha256 prev (Uuid.text row.id) row.agentId.str row.toolName.str args (some result)
    row.createdAt.isoformat

/-- Whether `row.seq - 1` can be the parameter of the query. -/
def bindable (row : Row J) : Bool := row.seq = 1 || decide (Bigint (row.seq - 1))

inductive Verdict where
  | pass
  | fail (seq : ℤ)
  deriving DecidableEq

def verifyLoop (sha256 : Digest) (table : List (Row J)) : List (Row J) → Option Verdict
  | [] => some .pass
  | row :: rows =>
    if ¬ bindable row then none
    else
      match prevHash table row with
      | none => some (.fail row.seq)
      | some prev =>
        match expectedHash sha256 row prev with
        | none => none
        | some expected =>
          if expected ≠ row.rowHash.str then some (.fail row.seq) else verifyLoop sha256 table rows

/-- `none` where the loop raises: a seq that asyncpg does not bind, a column that `json.loads`
does not decode. -/
def verifyRows (sha256 : Digest) (table rows : List (Row J)) : Option Verdict :=
  verifyLoop sha256 table (rows.insertionSort (byKey Row.seq))

/-! ### The loop is a sorted scan -/

/-- What the loop finds out about one row. -/
def checkRow (sha256 : Digest) (table : List (Row J)) (row : Row J) : Option Bool :=
  if ¬ bindable row then none
  else
    match prevHash table row with
    | none => some false
    | some prev =>
      (expectedHash sha256 row prev).map fun expected => decide (expected = row.rowHash.str)

def verdictOf : Option ℤ → Verdict
  | none => .pass
  | some seq => .fail seq

theorem verifyLoop_eq_scan (table rows : List (Row J)) :
    verifyLoop sha256 table rows = (scan Row.seq (checkRow sha256 table) rows).map verdictOf := by
  induction rows with
  | nil => rfl
  | cons row rows ih =>
    rw [verifyLoop, scan, checkRow]
    by_cases hbind : bindable row = true
    · rw [if_neg (not_not_intro hbind), if_neg (not_not_intro hbind)]
      cases prevHash table row with
      | none => rfl
      | some prev =>
        cases hexp : expectedHash sha256 row prev with
        | none => simp [hexp]
        | some expected =>
          by_cases heq : expected = row.rowHash.str
          · simp [hexp, heq, ih]
          · simp [hexp, heq, verdictOf]
    · rw [if_pos hbind, if_pos hbind]
      rfl

theorem verifyRows_eq_scan (table rows : List (Row J)) :
    verifyRows sha256 table rows =
      (scanSorted Row.seq (checkRow sha256 table) rows).map verdictOf :=
  verifyLoop_eq_scan _ _

/-- The row's hash is the one of its own fields, chained on the row of the seq before. -/
def Good (sha256 : Digest) (table : List (Row J)) (row : Row J) : Prop :=
  ∃ prev, prevHash table row = some prev ∧ expectedHash sha256 row prev = some row.rowHash.str

theorem rowHashAt_some {table : List (Row J)} {seq : ℤ} {h : Str}
    (hh : rowHashAt table seq = some h) : ∃ r ∈ table, r.seq = seq ∧ r.rowHash.str = h := by
  obtain ⟨r, hr, rfl⟩ := Option.map_eq_some_iff.mp hh
  exact ⟨r, List.mem_of_find?_eq_some hr, by simpa using List.find?_some hr, rfl⟩

/-- Only the least seq of all has no seq before it. -/
theorem bindable_iff {row : Row J} : bindable row = true ↔ row.seq ≠ -2 ^ 63 := by
  obtain ⟨hlow, hhigh⟩ := row.bigint
  simp only [bindable, Bool.or_eq_true, decide_eq_true_eq]
  constructor
  · rintro (hone | ⟨hprev, -⟩)
    · rw [hone]
      decide
    · omega
  · intro hne
    exact Or.inr ⟨by omega, by omega⟩

theorem bindable_of_pos {row : Row J} (h : 1 ≤ row.seq) : bindable row = true :=
  bindable_iff.mpr (by omega)

/-- A row whose predecessor is found. -/
theorem bindable_of_prevHash {table : List (Row J)} {row : Row J} {prev : Str}
    (h : prevHash table row = some prev) : bindable row = true := by
  rw [prevHash] at h
  by_cases hone : row.seq = 1
  · exact bindable_of_pos (by omega)
  · rw [if_neg hone] at h
    obtain ⟨r, -, hseq, -⟩ := rowHashAt_some h
    obtain ⟨hlow, -⟩ := r.bigint
    exact bindable_iff.mpr (by omega)

theorem checkRow_of_bindable {table : List (Row J)} {row : Row J} (h : bindable row = true) :
    checkRow sha256 table row =
      match prevHash table row with
      | none => some false
      | some prev =>
        (expectedHash sha256 row prev).map fun expected => decide (expected = row.rowHash.str) := by
  rw [checkRow, if_neg (not_not_intro h)]

theorem checkRow_unbindable {table : List (Row J)} {row : Row J} (h : ¬ bindable row = true) :
    checkRow sha256 table row = none := by
  rw [checkRow, if_pos h]

theorem checkRow_good {table : List (Row J)} {row : Row J} :
    checkRow sha256 table row = some true ↔ Good sha256 table row := by
  by_cases hbind : bindable row = true
  · rw [checkRow_of_bindable hbind, Good]
    cases prevHash table row with
    | none => simp
    | some prev => simp
  · rw [checkRow_unbindable hbind]
    refine iff_of_false (by simp) ?_
    rintro ⟨prev, hprev, -⟩
    exact hbind (bindable_of_prevHash hprev)

theorem verifyRows_pass_iff {table rows : List (Row J)} :
    verifyRows sha256 table rows = some .pass ↔ ∀ r ∈ rows, Good sha256 table r := by
  rw [verifyRows_eq_scan]
  constructor
  · intro h r hr
    obtain ⟨k, hk, hv⟩ := Option.map_eq_some_iff.mp h
    cases k with
    | none => exact checkRow_good.mp (scanSorted_pass_iff.mp hk r hr)
    | some k => cases hv
  · intro h
    rw [scanSorted_pass_iff.mpr fun r hr => checkRow_good.mpr (h r hr)]
    rfl

theorem verifyRows_fail {table rows : List (Row J)} {seq : ℤ}
    (h : verifyRows sha256 table rows = some (.fail seq)) :
    ∃ r ∈ rows, r.seq = seq ∧ checkRow sha256 table r = some false ∧
      ∀ r' ∈ rows, r'.seq < seq → checkRow sha256 table r' = some true := by
  rw [verifyRows_eq_scan] at h
  obtain ⟨k, hk, hv⟩ := Option.map_eq_some_iff.mp h
  cases k with
  | none => cases hv
  | some k =>
    obtain rfl : k = seq := by simpa [verdictOf] using hv
    exact scanSorted_fail hk

theorem verifyRows_raise {table rows : List (Row J)} (h : verifyRows sha256 table rows = none) :
    ∃ r ∈ rows, checkRow sha256 table r = none ∧
      ∀ r' ∈ rows, r'.seq < r.seq → checkRow sha256 table r' = some true := by
  rw [verifyRows_eq_scan, Option.map_eq_none_iff] at h
  exact scanSorted_raise h

/-- The loop ends at the first row that is not good. -/
theorem verifyRows_of_least {table rows : List (Row J)} {r : Row J} (hr : r ∈ rows)
    (hbad : ¬ Good sha256 table r)
    (hgood : ∀ r' ∈ rows, r' ≠ r → r'.seq ≤ r.seq → Good sha256 table r') :
    verifyRows sha256 table rows = (checkRow sha256 table r).map fun _ => .fail r.seq := by
  have hscan : scanSorted Row.seq (checkRow sha256 table) rows =
      (checkRow sha256 table r).map fun _ => some r.seq :=
    scanSorted_of_least hr (fun h => hbad (checkRow_good.mp h)) fun r' hr' hne hle =>
      checkRow_good.mpr (hgood r' hr' hne hle)
  rw [verifyRows_eq_scan, hscan, Option.map_map]
  rfl

/-- A row that is not good makes the loop fail, if before each row that raises there is one. -/
theorem exists_fail {table rows : List (Row J)} {r : Row J} (hr : r ∈ rows)
    (hbad : ¬ Good sha256 table r)
    (hraise : ∀ x ∈ rows, checkRow sha256 table x = none →
      ∃ y ∈ rows, y.seq < x.seq ∧ ¬ Good sha256 table y) :
    ∃ seq, verifyRows sha256 table rows = some (.fail seq) := by
  rcases hv : verifyRows sha256 table rows with _ | _ | seq
  · obtain ⟨x, hx, hnone, hbefore⟩ := verifyRows_raise hv
    obtain ⟨y, hy, hlt, hbady⟩ := hraise x hx hnone
    exact absurd (checkRow_good.mp (hbefore y hy hlt)) hbady
  · exact absurd (verifyRows_pass_iff.mp hv r hr) hbad
  · exact ⟨seq, rfl⟩

theorem rowHashAt_none {table : List (Row J)} {seq : ℤ} :
    rowHashAt table seq = none ↔ ∀ r ∈ table, r.seq ≠ seq := by
  simp [rowHashAt]

theorem eq_of_seq_eq {table : List (Row J)} (hd : (table.map Row.seq).Nodup) {r r' : Row J}
    (hr : r ∈ table) (hr' : r' ∈ table) (h : r.seq = r'.seq) : r = r' :=
  List.inj_on_of_nodup_map hd hr hr' h

/-- With distinct seqs the query finds the row of a seq. -/
theorem rowHashAt_of_mem {table : List (Row J)} (hd : (table.map Row.seq).Nodup) {r : Row J}
    (hr : r ∈ table) : rowHashAt table r.seq = some r.rowHash.str := by
  cases h : rowHashAt table r.seq with
  | none => exact absurd rfl (rowHashAt_none.mp h r hr)
  | some x =>
    obtain ⟨r', hr', hseq, rfl⟩ := rowHashAt_some h
    rw [eq_of_seq_eq hd hr' hr hseq]

end AuditLog
