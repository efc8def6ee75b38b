import McpControlPlane.AuditTamper

/-! # Any number of edits at once

Each row is judged against the stored hash of its predecessor, so that an edit shows at the edited
row and nowhere else. -/
namespace AuditEdits

open PyText PyJson UuidTime AuditLog AuditChain AuditTamper

variable {J : Jsonb} {sha256 : Digest}

/-- New values of the columns that are hashed. -/
structure HashedColumns (J : Jsonb) where
  id : Uuid
  agentId : PgText
  toolName : PgText
  args : J.Value
  resultSummary : Option J.Value
  createdAt : Datetime

def HashedColumns.write (c : HashedColumns J) (row : Row J) : Row J :=
  { row with
    id := c.id
    agentId := c.agentId
    toolName := c.toolName
    args := c.args
    resultSummary := c.resultSummary
    createdAt := c.createdAt }

/-- The edits, under the seqs of the rows they are made to. -/
abbrev Edits (J : Jsonb) := ℤ → Option (HashedColumns J)

def editRow (edits : Edits J) (row : Row J) : Row J :=
  match edits row.seq with
  | none => row
  | some c => c.write row

def editTable (edits : Edits J) (table : List (Row J)) : List (Row J) := table.map (editRow edits)

/-- Each edited row has another payload than before. -/
def PayloadsChange (edits : Edits J) (table : List (Row J)) : Prop :=
  ∀ row ∈ table, ∀ c, edits row.seq = some c →
    ∃ text, hashedText (c.write row) = some text ∧ hashedText row ≠ some text

variable {edits : Edits J} {table rows : List (Row J)}

@[simp] theorem editRow_seq (edits : Edits J) (row : Row J) : (editRow edits row).seq = row.seq := by
  rw [editRow]
  split <;> rfl

@[simp] theorem editRow_rowHash (edits : Edits J) (row : Row J) :
    (editRow edits row).rowHash = row.rowHash := by
  rw [editRow]
  split <;> rfl

theorem rowHashAt_editTable (edits : Edits J) (table : List (Row J)) (seq : ℤ) :
    rowHashAt (editTable edits table) seq = rowHashAt table seq := by
  induction table with
  | nil => rfl
  | cons row rest ih =>
    simp only [rowHashAt, editTable, List.map_cons, List.find?_cons, editRow_seq] at ih ⊢
    cases decide (row.seq = seq)
    · exact ih
    · simp

/-- The verifier chains a row on the same hash as before. -/
theorem prevHash_editTable (edits : Edits J) (table : List (Row J)) (row : Row J) :
    prevHash (editTable edits table) (editRow edits row) = prevHash table row := by
  rw [prevHash, prevHash, rowHashAt_editTable, editRow_seq]

theorem good_unedited {row : Row J} (hgood : Good sha256 table row) (hrow : edits row.seq = none) :
    Good sha256 (editTable edits table) (editRow edits row) := by
  obtain ⟨prev, hprev, hexp⟩ := hgood
  refine ⟨prev, by rw [prevHash_editTable, hprev], ?_⟩
  rw [editRow, hrow]
  exact hexp

/-- At an edited row the recomputed hash is not the stored one. -/
theorem checkRow_editedRow (hinj : Function.Injective sha256) {row : Row J}
    (hgood : Good sha256 table row) {c : HashedColumns J} (hrow : edits row.seq = some c)
    {text : Str} (htext : hashedText (c.write row) = some text)
    (hchanged : hashedText row ≠ some text) :
    checkRow sha256 (editTable edits table) (editRow edits row) = some false := by
  obtain ⟨old, hold⟩ := Option.ne_none_iff_exists'.mp (hashedText_of_good hgood)
  obtain ⟨prev, hprev, hexp⟩ := hgood
  have hwrite : editRow edits row = c.write row := by rw [editRow, hrow]
  obtain ⟨b, hb, hexp'⟩ := expectedHash_some sha256 (prevHash_scalar hprev) hold
  obtain ⟨b', hb', hexp''⟩ := expectedHash_some sha256 (prevHash_scalar hprev) htext
  have hprev' : prevHash (editTable edits table) (editRow edits row) = some prev := by
    rw [prevHash_editTable, hprev]
  rw [checkRow_of_bindable (bindable_of_prevHash hprev'), hprev']
  simp only [hwrite, hexp'', Option.map_some, Option.some.injEq,
    decide_eq_false_iff_not]
  intro heq
  rw [hexp'] at hexp
  have hbytes : b' = b := hinj (heq.trans (Option.some.inj hexp).symm)
  rw [hbytes] at hb'
  have htexts : text = old := List.append_cancel_left (utf8Encode_injective hb' hb)
  exact hchanged (by rw [hold, htexts])

theorem mem_editTable {row : Row J} :
    row ∈ editTable edits table ↔ ∃ r ∈ table, editRow edits r = row := List.mem_map

/-- What the verifier finds at a row of the edited table. -/
theorem good_editTable_iff (hinj : Function.Injective sha256) (hacc : Accepted sha256 table)
    (hchange : PayloadsChange edits table) {row : Row J} (hrow : row ∈ editTable edits table) :
    (Good sha256 (editTable edits table) row ↔ edits row.seq = none) ∧
      checkRow sha256 (editTable edits table) row ≠ none := by
  obtain ⟨r, hr, rfl⟩ := mem_editTable.mp hrow
  have hgood := hacc.good r hr
  rw [editRow_seq]
  cases he : edits r.seq with
  | none =>
    have hstill := good_unedited hgood he
    refine ⟨iff_of_true hstill rfl, ?_⟩
    rw [checkRow_good.mpr hstill]
    simp
  | some c =>
    obtain ⟨text, htext, hchanged⟩ := hchange r hr c he
    have hbad := checkRow_editedRow hinj hgood he htext hchanged
    refine ⟨iff_of_false (fun hstill => ?_) (by simp), by rw [hbad]; simp⟩
    rw [checkRow_good.mpr hstill] at hbad
    cases hbad

/-- With an injective digest the verifier reports the first edited row among those it is given,
and no other one. -/
theorem edits_pinpointed (hinj : Function.Injective sha256) (hd : (table.map Row.seq).Nodup)
    (hacc : Accepted sha256 table) (hchange : PayloadsChange edits table)
    (hrows : ∀ row ∈ rows, row ∈ editTable edits table) :
    ((∀ row ∈ rows, edits row.seq = none) →
      verifyRows sha256 (editTable edits table) rows = some .pass) ∧
    ((∃ row ∈ rows, edits row.seq ≠ none) →
      ∃ row ∈ rows, edits row.seq ≠ none ∧
        (∀ other ∈ rows, edits other.seq ≠ none → row.seq ≤ other.seq) ∧
        verifyRows sha256 (editTable edits table) rows = some (.fail row.seq)) ∧
    ∀ seq, verifyRows sha256 (editTable edits table) rows = some (.fail seq) → edits seq ≠ none := by
  have hgood := fun row hrow => good_editTable_iff hinj hacc hchange (hrows row hrow)
  refine ⟨fun hnone => ?_, fun hsome => ?_, fun seq hfail => ?_⟩
  · exact verifyRows_pass_iff.mpr fun row hrow => (hgood row hrow).1.mpr (hnone row hrow)
  · obtain ⟨row, ⟨hrow, hedited⟩, hleast⟩ := Set.exists_min_image
      {row | row ∈ rows ∧ edits row.seq ≠ none} Row.seq
      ((List.finite_toSet rows).subset fun row h => h.1) hsome
    refine ⟨row, hrow, hedited, fun other ho he => hleast other ⟨ho, he⟩, ?_⟩
    have hd' : ((editTable edits table).map Row.seq).Nodup := by
      simpa [editTable, Function.comp_def] using hd
    rw [verifyRows_of_least hrow (fun h => hedited ((hgood row hrow).1.mp h))]
    · obtain ⟨ok, hok⟩ := Option.ne_none_iff_exists'.mp (hgood row hrow).2
      rw [hok]
      rfl
    · intro other ho hne hle
      rw [(hgood other ho).1]
      by_contra he
      have hseq : other.seq = row.seq := le_antisymm hle (hleast other ⟨ho, he⟩)
      exact hne (eq_of_seq_eq hd' (hrows other ho) (hrows row hrow) hseq)
  · obtain ⟨row, hrow, rfl, hfalse, -⟩ := verifyRows_fail hfail
    intro hnone
    rw [checkRow_good.mpr ((hgood row hrow).1.mpr hnone)] at hfalse
    cases hfalse

/-- The agent of the first of two rows is changed, and the second row is not blamed. -/
theorem edits_pinpointed_agent : ∃ (table : List (Row exactJsonb)) (edits : Edits exactJsonb),
    table.length = 2 ∧
      verifyRows sampleDigest (editTable edits table) (editTable edits table) = some (.fail 1) := by
  obtain ⟨p, hp, first, second, htable, hfirst, hsecond, hagent⟩ := two_rows
  let columns : HashedColumns exactJsonb :=
    ⟨first.id, ⟨lit "agent02", by decide⟩, first.toolName, first.args, first.resultSummary,
      first.createdAt⟩
  let edits : Edits exactJsonb := fun seq => if seq = 1 then some columns else none
  have hacc := accepted_of_commitsNext exactJsonb_faithful hp
  have hchange : PayloadsChange edits p.shared.table := by
    intro row hrow c hc
    by_cases hone : row.seq = 1
    · obtain rfl : row = first := by
        rw [htable] at hrow
        rcases List.mem_cons.mp hrow with rfl | hrow
        · omega
        · exact List.mem_singleton.mp hrow
      obtain rfl : columns = c := by simpa [edits, hone] using hc
      obtain ⟨text, htext⟩ := Option.ne_none_iff_exists'.mp (hashedText_of_good (hacc.good row hrow))
      have hne : (Edit.agentId ⟨lit "agent02", by decide⟩).apply row ≠ row := fun heq => by
        have := congrArg (fun r => r.agentId.str) heq
        simp only [Edit.apply, hagent] at this
        revert this
        decide
      obtain ⟨text', htext', hother⟩ := (hashed_iff htext hne).mp trivial
      exact ⟨text', htext', by rw [htext]; exact fun heq => hother (Option.some.inj heq).symm⟩
    · simp [edits, hone] at hc
  obtain ⟨-, hfail, -⟩ := edits_pinpointed sampleDigest_injective (by simp [htable, hfirst, hsecond])
    hacc hchange fun row hrow => hrow
  have hfirstIn : editRow edits first ∈ editTable edits p.shared.table :=
    mem_editTable.mpr ⟨first, by simp [htable], rfl⟩
  obtain ⟨row, -, hedited, -, hverify⟩ :=
    hfail ⟨editRow edits first, hfirstIn, by simp [edits, hfirst]⟩
  have hone : row.seq = 1 := by
    by_contra hne
    exact hedited (by simp [edits, hne])
  refine ⟨p.shared.table, edits, by simp [htable], ?_⟩
  rw [hverify, hone]

end AuditEdits
