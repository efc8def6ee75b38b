import McpControlPlane.AuditLog
import McpControlPlane.JsonScan

/-! # What the hashed text of a row determines

`_row_hash` joins its fields without separators. The timestamp and the two JSON texts can be cut
off at the end and the two fields of fixed width at the front; only the boundary between
`agent_id` and `tool_name` is lost. -/
namespace HashEncoding

open PyText JsonText JsonDict JsonScan PyJson UuidTime AuditLog

/-! ## Cutting a text at its end -/

section Cut

variable {x x' s s' : Str}

theorem cut_le {P : CodePoint → Bool} {c d : CodePoint} {a y z : Str} (hd : P d = false)
    (ha : ∀ e ∈ a, P e = true) (h : z ++ [d] = y ++ [c] ++ a) : a = [] := by
  rcases List.eq_nil_or_concat a with rfl | ⟨b, e, rfl⟩
  · rfl
  · have hlast : d = e := by
      rw [List.concat_eq_append, ← List.append_assoc] at h
      exact (List.append_inj' h rfl).2 |> List.head_eq_of_cons_eq
    have hPe := ha e (by simp)
    rw [← hlast, hd] at hPe
    cases hPe

/-- Texts of characters with a property are cut off where the last character is without it. -/
theorem cut_chars {P : CodePoint → Bool} {c c' : CodePoint} {y y' : Str} (hc : P c = false)
    (hc' : P c' = false) (hs : ∀ e ∈ s, P e = true) (hs' : ∀ e ∈ s', P e = true)
    (h : y ++ [c] ++ s = y' ++ [c'] ++ s') : y ++ [c] = y' ++ [c'] ∧ s = s' := by
  rcases List.append_eq_append_iff.mp h with ⟨a, hx, ha⟩ | ⟨a, hx, ha⟩
  · obtain rfl : a = [] := cut_le hc' (fun e he => hs e (by simp [ha, he])) hx
    exact ⟨by simpa using hx.symm, by simpa using ha⟩
  · obtain rfl : a = [] := cut_le hc (fun e he => hs' e (by simp [ha, he])) hx
    exact ⟨by simpa using hx, by simpa using ha.symm⟩

/-- Object texts are cut off at the end of any text. -/
theorem cut_object (hs : scan .start s = .done) (hs' : scan .start s' = .done)
    (h : x ++ s = x' ++ s') : x = x' ∧ s = s' := by
  rcases List.append_eq_append_iff.mp h with ⟨a, rfl, rfl⟩ | ⟨a, rfl, rfl⟩
  · obtain rfl := suffix_whole hs hs'
    simp
  · obtain rfl := suffix_whole hs' hs
    simp

/-- An object or `null`: what stands for a result. -/
def Closes (s : Str) : Prop := s = lit "null" ∨ scan .start s = .done

theorem object_concat (hs : scan .start s = .done) : ∃ y, s = y ++ [ch '\x7d'] := by
  rcases List.eq_nil_or_concat s with rfl | ⟨y, c, rfl⟩
  · cases hs
  · rw [List.concat_eq_append] at hs ⊢
    exact ⟨y, by rw [last_of_done hs]⟩

theorem null_ne_object (hs : scan .start s = .done) : x ++ lit "null" ≠ x' ++ s := by
  obtain ⟨y, rfl⟩ := object_concat hs
  intro h
  have hlast : x ++ lit "nul" ++ [ch 'l'] = x' ++ y ++ [ch '\x7d'] := by
    simpa [lit] using h
  have := (List.append_inj' hlast rfl).2
  exact absurd this (by decide)

theorem cut_closes (hs : Closes s) (hs' : Closes s') (h : x ++ s = x' ++ s') :
    x = x' ∧ s = s' := by
  rcases hs with rfl | hs <;> rcases hs' with rfl | hs'
  · exact ⟨List.append_cancel_right h, rfl⟩
  · exact absurd h (null_ne_object hs')
  · exact absurd h.symm (null_ne_object hs)
  · exact cut_object hs hs' h

end Cut

/-! ## The texts of the fields -/

/-- The characters of ISO timestamps. -/
def isoChar (c : CodePoint) : Bool := isDigit c || (lit "+-.:TZ").contains c

def isHex (c : CodePoint) : Bool := (hexVal c).isSome

theorem format_scannable : Scannable format where
  esc := scan_escapeAscii
  num x := plain_lexeme (spellNumber_wellFormed x)

theorem scan_dumpsSorted_obj (kvs : List (Str × Json)) :
    scan .start (dumpsSorted (.obj kvs)) = .done :=
  scan_object format_scannable _

theorem closes_dumpsSorted (result : Option (List (Str × Json))) :
    Closes (dumpsSorted ((result.map .obj).getD .null)) := by
  cases result with
  | none => exact .inl rfl
  | some kvs => exact .inr (scan_dumpsSorted_obj kvs)

theorem closes_concat {s : Str} (hs : Closes s) : ∃ y c, s = y ++ [c] ∧ isoChar c = false := by
  rcases hs with rfl | hs
  · exact ⟨lit "nul", ch 'l', by decide, by decide⟩
  · obtain ⟨y, rfl⟩ := object_concat hs
    exact ⟨y, ch '\x7d', rfl, by decide⟩

/-- The same JSON document: the members of an object in any order, and in a string two adjacent
surrogates for the character that they spell. -/
def JsonEq (v w : Json) : Prop :=
  (sortKeys v).map mergeSurrogates id = (sortKeys w).map mergeSurrogates id

theorem dumpsSorted_eq_iff (v w : Json) : dumpsSorted v = dumpsSorted w ↔ JsonEq v w := by
  constructor
  · intro h
    have hread := parse_dumps (sortKeys v)
    rw [← dumpsSorted, h, dumpsSorted, parse_dumps] at hread
    exact (Except.ok.inj hread).symm
  · intro h
    have hv : dumps ((sortKeys v).map mergeSurrogates id) = dumps (sortKeys v) :=
      render_map escapeAscii_merge _
    have hw : dumps ((sortKeys w).map mergeSurrogates id) = dumps (sortKeys w) :=
      render_map escapeAscii_merge _
    rw [dumpsSorted, ← hv, h, hw, dumpsSorted]

/-! ## The tuple that is hashed -/

structure HashedTuple where
  prevHash : Str
  rowId : Str
  agentId : Str
  toolName : Str
  args : List (Str × Json)
  result : Option (List (Str × Json))
  createdAtIso : Str
  prevHash_hex : prevHash.length = 64 ∧ prevHash.all isHex = true
  rowId_uuid : rowId.length = 36 ∧ rowId.all (fun c => isHex c || c == ch '-') = true
  createdAtIso_iso : createdAtIso.all isoChar = true

namespace HashedTuple

/-- The text of `result`, which is `None` or an object. -/
def resultJson (t : HashedTuple) : Json := (t.result.map .obj).getD .null

def payload (t : HashedTuple) : Str :=
  AuditLog.payload t.prevHash t.rowId t.agentId t.toolName (.obj t.args) (t.result.map .obj)
    t.createdAtIso

/-- Equal but for `agent_id` and `tool_name`. -/
structure SameRest (t t' : HashedTuple) : Prop where
  prevHash : t.prevHash = t'.prevHash
  rowId : t.rowId = t'.rowId
  args : JsonEq (.obj t.args) (.obj t'.args)
  result : JsonEq t.resultJson t'.resultJson
  createdAtIso : t.createdAtIso = t'.createdAtIso

structure Same (t t' : HashedTuple) : Prop extends SameRest t t' where
  agentId : t.agentId = t'.agentId
  toolName : t.toolName = t'.toolName

/-- The same text of `agent_id` and `tool_name` together, cut in two at another place. -/
structure Shifted (t t' : HashedTuple) : Prop extends SameRest t t' where
  names : t.agentId ++ t.toolName = t'.agentId ++ t'.toolName
  agentId : t.agentId ≠ t'.agentId

variable {t t' : HashedTuple}

/-- The text is the fields of the front, the names and the fields of the end. -/
theorem payload_eq (t : HashedTuple) :
    t.payload = t.prevHash ++ (t.rowId ++ (t.agentId ++ t.toolName)) ++
      dumpsSorted (.obj t.args) ++ dumpsSorted t.resultJson ++ t.createdAtIso := by
  simp [payload, AuditLog.payload, resultJson]

theorem payload_cut_end (h : t.payload = t'.payload) :
    t.prevHash ++ (t.rowId ++ (t.agentId ++ t.toolName)) =
        t'.prevHash ++ (t'.rowId ++ (t'.agentId ++ t'.toolName)) ∧
      dumpsSorted (.obj t.args) = dumpsSorted (.obj t'.args) ∧
      dumpsSorted t.resultJson = dumpsSorted t'.resultJson ∧ t.createdAtIso = t'.createdAtIso := by
  rw [payload_eq, payload_eq] at h
  have hr : Closes (dumpsSorted t.resultJson) := closes_dumpsSorted t.result
  have hr' : Closes (dumpsSorted t'.resultJson) := closes_dumpsSorted t'.result
  obtain ⟨h, htime⟩ : _ ∧ t.createdAtIso = t'.createdAtIso := by
    obtain ⟨y, c, hy, hc⟩ := closes_concat hr
    obtain ⟨y', c', hy', hc'⟩ := closes_concat hr'
    rw [hy, hy', ← List.append_assoc, ← List.append_assoc _ y'] at h
    have hcut := cut_chars hc hc' (List.all_eq_true.mp t.createdAtIso_iso)
      (List.all_eq_true.mp t'.createdAtIso_iso) h
    rw [List.append_assoc, ← hy, List.append_assoc _ y', ← hy'] at hcut
    exact hcut
  obtain ⟨h, hresult⟩ := cut_closes hr hr' h
  obtain ⟨h, hargs⟩ := cut_object (scan_dumpsSorted_obj _) (scan_dumpsSorted_obj _) h
  exact ⟨h, hargs, hresult, htime⟩

/-- The hashed text determines everything but where `agent_id` ends. -/
theorem payload_eq_iff :
    t.payload = t'.payload ↔
      SameRest t t' ∧ t.agentId ++ t.toolName = t'.agentId ++ t'.toolName := by
  constructor
  · intro h
    obtain ⟨hfront, hargs, hresult, htime⟩ := payload_cut_end h
    obtain ⟨hprev, hfront⟩ := List.append_inj hfront
      (t.prevHash_hex.1.trans t'.prevHash_hex.1.symm)
    obtain ⟨hid, hnames⟩ := List.append_inj hfront (t.rowId_uuid.1.trans t'.rowId_uuid.1.symm)
    exact ⟨⟨hprev, hid, (dumpsSorted_eq_iff _ _).mp hargs, (dumpsSorted_eq_iff _ _).mp hresult,
      htime⟩, hnames⟩
  · rintro ⟨hrest, hnames⟩
    rw [payload_eq, payload_eq, hrest.prevHash, hrest.rowId, hnames, hrest.createdAtIso,
      (dumpsSorted_eq_iff _ _).mpr hrest.args, (dumpsSorted_eq_iff _ _).mpr hrest.result]

/-- Two tuples are told apart by their hashed text, unless they differ only in where `agent_id`
ends and `tool_name` starts. -/
theorem payload_unambiguous_iff (t t' : HashedTuple) :
    (t.payload = t'.payload → Same t t') ↔ ¬ Shifted t t' := by
  rw [payload_eq_iff]
  constructor
  · rintro h ⟨hrest, hnames, hne⟩
    exact hne (h ⟨hrest, hnames⟩).agentId
  · rintro h ⟨hrest, hnames⟩
    have hagent : t.agentId = t'.agentId := by
      by_contra hne
      exact h ⟨hrest, hnames, hne⟩
    rw [hagent] at hnames
    exact ⟨hrest, hagent, List.append_cancel_left hnames⟩

/-! ## The tuples of the log -/

theorem genesisHash_hex : genesisHash.length = 64 ∧ genesisHash.all isHex = true := by decide

theorem uuid_text_shape (u : Uuid) :
    u.text.length = 36 ∧ u.text.all (fun c => isHex c || c == ch '-') = true := by
  have hhex : ∀ d, d < 16 → isHex (hexDigit d) = true := by decide
  refine ⟨text_length u, List.all_eq_true.mpr fun c hc => ?_⟩
  rcases mem_uuid_text hc with rfl | ⟨d, hd, rfl⟩
  · decide
  · rw [hhex d hd, Bool.true_or]

theorem isoChar_padDec (w n : ℕ) : (padDec w n).all isoChar = true := by
  have hdigit : ∀ d, d < 10 → isoChar (digitCp d) = true := by decide
  refine List.all_eq_true.mpr fun c hc => ?_
  obtain ⟨d, hd, rfl⟩ := List.mem_map.mp hc
  exact hdigit d (fixedDigits_lt (by omega) w _ d hd)

theorem isoformat_iso (t : Datetime) : t.isoformat.all isoChar = true := by
  have hfrac : (fractionText t.microsecond).all isoChar = true := by
    rw [fractionText]
    split_ifs
    · rfl
    · rw [List.all_cons, isoChar_padDec]
      rfl
  simp only [Datetime.isoformat, List.all_append, List.all_cons, isoChar_padDec, hfrac]
  decide

/-- What `record_tool_call` hashes for a row without arguments, the first of the log. -/
def first (id : Uuid) (agentId toolName : Str) (createdAt : Datetime) : HashedTuple where
  prevHash := genesisHash
  rowId := id.text
  agentId := agentId
  toolName := toolName
  args := []
  result := none
  createdAtIso := createdAt.isoformat
  prevHash_hex := genesisHash_hex
  rowId_uuid := uuid_text_shape id
  createdAtIso_iso := isoformat_iso createdAt

/-- 2026-01-01T00:00:00+00:00. -/
def newYear : Datetime := ⟨2026, 1, 1, 0, 0, 0, 0, by decide⟩

/-- The agent `ab` with the tool `c` has the hashed text of the agent `a` with the tool `bc`. -/
theorem payload_ambiguous :
    ¬ ((first 1 (lit "ab") (lit "c") newYear).payload = (first 1 (lit "a") (lit "bc") newYear).payload →
      Same (first 1 (lit "ab") (lit "c") newYear) (first 1 (lit "a") (lit "bc") newYear)) := by
  have hne : lit "ab" ≠ lit "a" := by decide
  have hnames : lit "ab" ++ lit "c" = lit "a" ++ lit "bc" := by decide
  intro h
  exact hne (h (payload_eq_iff.mpr ⟨⟨rfl, rfl, rfl, rfl, rfl⟩, hnames⟩)).agentId

end HashedTuple

end HashEncoding
