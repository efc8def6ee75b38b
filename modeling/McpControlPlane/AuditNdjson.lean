import McpControlPlane.AuditExport

/-! # The lines of an export

The endpoint streams one line after the other, the daily script joins all lines at once. Each line
reads back as the document that was written, and it holds what the hash of its row is made of. -/
namespace AuditNdjson

open PyText JsonText JsonDict PyJson UuidTime AuditLog AuditExport

variable {J : Jsonb} {sha256 : Digest}

/-! ## The two exporters -/

/-- What `GET /admin/audit/export` yields for the rows of its cursor. -/
def chunks (rows : List (Row J)) : Option (List Str) :=
  (rows.mapM rowToJson).map fun vs => vs.map fun v => dumps v ++ [newline]

def streamed (rows : List (Row J)) : Option Str := (chunks rows).map List.flatten

def exportEndpoint (table : List (Row J)) (from_ to_ : ℕ) : Option Str :=
  streamed (selectRange table from_ to_)

/-- What `_collect_ndjson` makes of the rows. -/
def collected (rows : List (Row J)) : Option Str :=
  (rows.mapM rowToJson).map fun vs =>
    [newline].intercalate (vs.map dumps) ++ if vs.isEmpty then [] else [newline]

/-- Ending each line and joining all lines with one more newline are the same. -/
theorem lines_flatten (vs : List Json) : (vs.map fun v => dumps v ++ [newline]).flatten =
    [newline].intercalate (vs.map dumps) ++ if vs.isEmpty then [] else [newline] := by
  induction vs with
  | nil => rfl
  | cons v vs ih =>
    cases vs with
    | nil => simp [List.intercalate_singleton]
    | cons v' vs =>
      simp only [List.isEmpty_cons, if_false, Bool.false_eq_true] at ih ⊢
      rw [List.map_cons, List.flatten_cons, ih, List.map_cons, List.map_cons, List.map_cons,
        List.intercalate_cons_cons]
      simp only [List.append_assoc]

theorem streamed_eq_collected (rows : List (Row J)) : streamed rows = collected rows := by
  unfold streamed chunks collected
  cases rows.mapM rowToJson with
  | none => rfl
  | some vs => exact congrArg some (lines_flatten vs)

/-! ## Reading the lines back -/

/-- The lines of a text that are not empty. -/
def linesOf (text : Str) : List Str := (text.splitOn newline).filter fun l => !l.isEmpty

theorem linesOf_collected (vs : List Json) : linesOf ([newline].intercalate (vs.map dumps) ++
    if vs.isEmpty then [] else [newline]) = vs.map dumps := by
  cases vs with
  | nil => rfl
  | cons v vs =>
    have hlines : ∀ l ∈ (v :: vs).map dumps, newline ∉ l := by
      intro l hl
      obtain ⟨w, -, rfl⟩ := List.mem_map.mp hl
      exact newline_not_mem w
    have hne : ∀ l ∈ (v :: vs).map dumps, (!l.isEmpty) = true := by
      intro l hl
      obtain ⟨w, -, rfl⟩ := List.mem_map.mp hl
      simpa using dumps_ne_nil w
    have hsplit : ([newline].intercalate ((v :: vs).map dumps) ++ [newline]).splitOn newline =
        (v :: vs).map dumps ++ [[]] :=
      splitOn_lines (by simp) hlines
    rw [List.isEmpty_cons, if_neg Bool.false_ne_true, linesOf, hsplit, List.filter_append,
      List.filter_eq_self.mpr hne]
    simp

theorem count_flatten (vs : List Json) :
    ((vs.map fun v => dumps v ++ [newline]).flatten).count newline = vs.length := by
  induction vs with
  | nil => rfl
  | cons v vs ih =>
    rw [List.map_cons, List.flatten_cons, List.count_append, List.count_append, ih,
      List.count_eq_zero.mpr (newline_not_mem v), List.count_singleton_self, List.length_cons]
    omega

/-- What a jsonb column loads as: objects are dicts, and PostgreSQL has no text with a surrogate. -/
structure Document (v : Json) : Prop where
  distinct : Distinct v
  scalar : ScalarStrs v

/-- All columns of the row load as documents. -/
structure Loads (row : Row J) : Prop where
  args : ∃ v, decodeJsonb (some row.args) = some v ∧ Document v
  policyDecision : ∃ v, decodeJsonb row.policyDecision = some v ∧ Document v
  resultSummary : ∃ v, decodeJsonb row.resultSummary = some v ∧ Document v

theorem document_str {s : Str} (h : Scalar s = true) : Document (.str s) := ⟨trivial, h⟩

theorem document_int (z : ℤ) : Document (intJson z) := by
  unfold intJson
  split_ifs
  · exact ⟨trivial, trivial⟩
  · exact ⟨trivial, trivial⟩

theorem document_opt {α : Type} {f : α → Json} (h : ∀ a, Document (f a)) (x : Option α) :
    Document (optJson f x) := by
  cases x with
  | none => exact ⟨trivial, trivial⟩
  | some a => exact h a

theorem pgText_scalar (s : PgText) : Scalar s.str = true := by
  have h := s.valid
  simp only [storable, Bool.and_eq_true] at h
  exact h.1

/-- An object is a document if its keys are distinct texts and its values are documents. -/
theorem document_obj {kvs : List (Str × Json)} (hkeys : (keys kvs).Nodup)
    (hscalar : ∀ k ∈ keys kvs, Scalar k = true) (h : ∀ kv ∈ kvs, Document kv.2) :
    Document (.obj kvs) := by
  constructor
  · exact ⟨hkeys, (distinctMembers_iff kvs).mpr fun kv hkv => (h kv hkv).distinct⟩
  · change AllStrsMembers _ kvs
    clear hkeys
    induction kvs with
    | nil => trivial
    | cons kv kvs ih =>
      refine ⟨hscalar _ (by simp [keys]), (h kv (by simp)).scalar, ih ?_ ?_⟩
      · exact fun k hk => hscalar k (List.mem_cons_of_mem _ hk)
      · exact fun kv' hkv' => h kv' (List.mem_cons_of_mem _ hkv')

/-- `_row_hash` of the fields of a parsed line. -/
def lineHash (sha256 : Digest) (prevHash : Str) : Json → Option Str
  | .obj line =>
    match dictGet (lit "id") line, dictGet (lit "agent_id") line, dictGet (lit "tool_name") line,
      dictGet (lit "args") line, dictGet (lit "result_summary") line,
      dictGet (lit "created_at") line with
    | some (.str id), some (.str agentId), some (.str toolName), some args, some result,
      some (.str createdAt) => rowHash sha256 prevHash id agentId toolName args (some result) createdAt
    | _, _, _, _, _, _ => none
  | _ => none

/-- The document of a row that loads, and the hash that is computed from it. -/
theorem rowToJson_loads (sha256 : Digest) {row : Row J} (h : Loads row) :
    ∃ v, rowToJson row = some v ∧ Document v ∧
      ∀ prev, lineHash sha256 prev v = expectedHash sha256 row prev := by
  obtain ⟨args, hargs, hargsDoc⟩ := h.args
  obtain ⟨policy, hpolicy, hpolicyDoc⟩ := h.policyDecision
  obtain ⟨result, hresult, hresultDoc⟩ := h.resultSummary
  have hrow : rowToJson row = some (.obj [(lit "id", .str row.id.text), (lit "seq", intJson row.seq),
      (lit "agent_id", .str row.agentId.str), (lit "role", .str row.role.str),
      (lit "tool_name", .str row.toolName.str), (lit "args", args),
      (lit "policy_decision", policy),
      (lit "approval_id", optJson (fun u => .str (Uuid.text u)) row.approvalId),
      (lit "result_status", .str row.resultStatus.str), (lit "result_summary", result),
      (lit "duration_ms", optJson intJson row.durationMs),
      (lit "otel_trace_id", optJson (fun s => .str s.str) row.otelTraceId),
      (lit "row_hash", .str row.rowHash.str),
      (lit "created_at", .str row.createdAt.isoformat)]) := by
    rw [rowToJson, hargs, hpolicy, hresult]
    rfl
  refine ⟨_, hrow, ?_, fun prev => ?_⟩
  · apply document_obj
    · simp only [keys, List.map_cons, List.map_nil]
      decide
    · simp only [keys, List.map_cons, List.map_nil]
      decide
    · simp only [List.forall_mem_cons]
      exact ⟨document_str (uuid_text_scalar _), document_int _, document_str (pgText_scalar _),
        document_str (pgText_scalar _), document_str (pgText_scalar _), hargsDoc, hpolicyDoc,
        document_opt (fun u => document_str (uuid_text_scalar u)) _,
        document_str (pgText_scalar _), hresultDoc, document_opt document_int _,
        document_opt (fun s => document_str (pgText_scalar s)) _, document_str (pgText_scalar _),
        document_str (isoformat_scalar _), List.forall_mem_nil _⟩
  · rw [expectedHash, hargs, hresult]
    rfl

/-- The exporters stream and upload the same text. For rows that load it has one line a row, which
reads back as the row's document and gives the hash that the verifier computes. -/
theorem ndjson_lossless {rows : List (Row J)} (h : ∀ row ∈ rows, Loads row) (sha256 : Digest) :
    (∀ (table : List (Row J)) (from_ to_ : ℕ),
      exportEndpoint table from_ to_ = collectNdjson table from_ to_) ∧
    ∃ text values, streamed rows = some text ∧ collected rows = some text ∧
      rows.mapM rowToJson = some values ∧
      (linesOf text).map loads = values.map Except.ok ∧ text.count newline = rows.length ∧
      List.Forall₂ (fun row v => ∀ prev, lineHash sha256 prev v = expectedHash sha256 row prev)
        rows values := by
  refine ⟨fun table from_ to_ => streamed_eq_collected _, ?_⟩
  obtain ⟨values, hvalues, hdocs, hhash⟩ : ∃ values, rows.mapM rowToJson = some values ∧
      (∀ v ∈ values, Document v) ∧ List.Forall₂
        (fun row v => ∀ prev, lineHash sha256 prev v = expectedHash sha256 row prev) rows values := by
    induction rows with
    | nil => exact ⟨[], rfl, List.forall_mem_nil _, .nil⟩
    | cons row rows ih =>
      obtain ⟨v, hv, hdoc, hline⟩ := rowToJson_loads sha256 (h row List.mem_cons_self)
      obtain ⟨values, hvalues, hdocs, hhash⟩ := ih fun r hr => h r (List.mem_cons_of_mem _ hr)
      refine ⟨v :: values, ?_, ?_, .cons hline hhash⟩
      · rw [List.mapM_cons, hv, hvalues]
        rfl
      · exact List.forall_mem_cons.mpr ⟨hdoc, hdocs⟩
  have hcollected : collected rows = some ([newline].intercalate (values.map dumps) ++
      if values.isEmpty then [] else [newline]) := by
    rw [collected, hvalues]
    rfl
  refine ⟨_, values, (streamed_eq_collected rows).trans hcollected, hcollected, hvalues, ?_, ?_, hhash⟩
  · rw [linesOf_collected, List.map_map]
    apply List.map_congr_left
    intro v hv
    exact loads_dumps_of_scalar (hdocs v hv).distinct (hdocs v hv).scalar
  · rw [← lines_flatten, count_flatten, hhash.length_eq]

theorem noon_twoDigits : 1 < 100 ∧ 12 < 100 := by norm_num

/-- A row whose argument holds a line break, a line separator and a quote. -/
def brokenLine : Row AuditChain.exactJsonb :=
  { rowAt 1 (at_ 1 12 noon_twoDigits) with
    args := (.obj [(lit "text", .str (lit "a\nb\u2028c\"d"))] : Json) }

/-- The row after it, with a result. -/
def lineAfter : Row AuditChain.exactJsonb :=
  { rowAt 2 (at_ 1 12 noon_twoDigits) with
    args := (.obj [(lit "namespace", .str (lit "payments"))] : Json)
    resultSummary := some (.obj [(lit "pods", .arr [])] : Json) }

theorem single_document {k : Str} {v : Json} (hk : Scalar k = true) (hv : Document v) :
    Document (.obj [(k, v)]) := by
  apply document_obj
  · simp [keys]
  · simpa [keys] using hk
  · simpa using hv

theorem ndjson_lossless_broken_line : ∃ text values,
    streamed [brokenLine, lineAfter] = some text ∧ text.count newline = 2 ∧
    [brokenLine, lineAfter].mapM rowToJson = some values ∧
    (linesOf text).map loads = values.map Except.ok := by
  have hloads : ∀ row ∈ [brokenLine, lineAfter], Loads row := by
    rw [List.forall_mem_cons, List.forall_mem_singleton]
    constructor
    · exact ⟨⟨_, rfl, single_document (by decide) (document_str (by decide))⟩,
        ⟨_, rfl, trivial, trivial⟩, ⟨_, rfl, trivial, trivial⟩⟩
    · exact ⟨⟨_, rfl, single_document (by decide) (document_str (by decide))⟩,
        ⟨_, rfl, trivial, trivial⟩,
        ⟨_, rfl, single_document (by decide) ⟨trivial, trivial⟩⟩⟩
  obtain ⟨-, text, values, htext, -, hvalues, hlines, hcount, -⟩ :=
    ndjson_lossless hloads AuditChain.sampleDigest
  exact ⟨text, values, htext, hcount, hvalues, hlines⟩

end AuditNdjson
