import McpControlPlane.AuditLog
import McpControlPlane.Interleaving

/-! # Concurrent writers of the audit log

`record_tool_call` as a program over the statements of one transaction, and PostgreSQL as the
system it runs in: statements see what was committed before them, the advisory lock is held to
the end of its transaction, the sequence behind `seq` never goes back. -/
namespace AuditWriters

open PyText PyJson UuidTime AuditLog Interleaving

variable {J : Jsonb}

inductive DbOp where
  | uuid4
  | currentTraceId
  | begin
  | advisoryLock
  | selectLast
  | insert (i : Insert)
  | commit
  | rollback

inductive DbError where
  | value
  | database
  deriving DecidableEq

/-- The SELECT is answered with the whole row that it picks. -/
abbrev db (J : Jsonb) : Signature where
  Op := DbOp
  Res
    | .uuid4 => Uuid
    | .currentTraceId => Option Str
    | .selectLast => Option (Row J)
    | _ => Unit
  Exn := DbError
  fails
    | .uuid4 => none
    | .currentTraceId => none
    | .rollback => none
    | _ => some .database

/-- `prev_hash`, or the genesis hash when the table has never seen a row. -/
def prevHashOf (last : Option (Row J)) : Str :=
  match last with
  | none => genesisHash
  | some row => row.rowHash.str

def insertOf (event : AuditEvent) (rowId : Uuid) (createdAt : Datetime) (otelTraceId : Option Str)
    (hash : Str) : Insert where
  id := rowId.text
  agentId := event.agentId
  role := event.role
  toolName := event.toolName
  args := event.arguments
  policyDecision := .obj [(lit "reason", (event.reason.map .str).getD .null)]
  approvalId := event.approvalId
  resultStatus := event.decision
  resultSummary := event.result
  durationMs := event.durationMs
  otelTraceId := otelTraceId
  rowHash := hash
  createdAt := createdAt

def eventHash (sha256 : Digest) (event : AuditEvent) (rowId : Uuid) (createdAt : Datetime)
    (prev : Str) : Option Str :=
  rowHash sha256 prev rowId.text event.agentId event.toolName event.arguments event.result
    createdAt.isoformat

/-- An exception inside the transaction block rolls it back. -/
def recordToolCall (J : Jsonb) (sha256 : Digest) (event : AuditEvent) : Prog (db J) Unit := do
  let rowId : Uuid ← perform (S := db J) .uuid4
  match UuidTime.fromTimestamp event.timestamp with
  | none => .raise .value
  | some createdAt =>
    let otelTraceId : Option Str ← perform (S := db J) .currentTraceId
    perform (S := db J) .begin
    perform (S := db J) .advisoryLock
    let last : Option (Row J) ← perform (S := db J) .selectLast
    match eventHash sha256 event rowId createdAt (prevHashOf last) with
    | none =>
      perform (S := db J) .rollback
      .raise .value
    | some hash =>
      perform (S := db J) (.insert (insertOf event rowId createdAt otelTraceId hash))
      perform (S := db J) .commit

/-! ## The database -/

/-- A row together with the request that inserted it. -/
structure Written (J : Jsonb) where
  writer : ℕ
  row : Row J

/-- `rows` are committed, the latest commit first; `uncommitted` rows belong to open transactions. -/
structure DbState (J : Jsonb) where
  rows : List (Written J)
  uncommitted : List (Written J)
  holder : Option ℕ
  nextSeq : ℕ

def DbState.initial : DbState J := ⟨[], [], none, 1⟩

def DbState.table (s : DbState J) : List (Row J) := s.rows.map Written.row

def lastBySeq : List (Written J) → Option (Row J)
  | [] => none
  | w :: ws =>
    match lastBySeq ws with
    | none => some w.row
    | some r => if r.seq < w.row.seq then some w.row else some r

/-- What a statement of the transaction of `t` sees. -/
def DbState.visible (s : DbState J) (t : ℕ) : List (Written J) :=
  s.uncommitted.filter (fun w => w.writer = t) ++ s.rows

def DbState.unlock (s : DbState J) (t : ℕ) : Option ℕ := if s.holder = some t then none else s.holder

def DbState.committed (s : DbState J) (t : ℕ) : DbState J :=
  { s with
    rows := s.visible t
    uncommitted := s.uncommitted.filter fun w => w.writer ≠ t
    holder := s.unlock t }

def DbState.aborted (s : DbState J) (t : ℕ) : DbState J :=
  { s with
    uncommitted := s.uncommitted.filter fun w => w.writer ≠ t
    holder := s.unlock t }

/-- What is left to chance: identifiers, and how far a failed statement got. -/
inductive DbOracle where
  | uuid (u : Uuid)
  | trace (x : Option Str)
  | plain
  | applied (yes : Bool)

/-- The INSERT takes the next seq; a uuid that is in use violates the unique constraint. -/
def DbState.inserted (s : DbState J) (t : ℕ) (i : Insert) : Option (DbState J) :=
  match i.row J s.nextSeq with
  | none => none
  | some row =>
    if (s.uncommitted ++ s.rows).all fun w => w.row.id ≠ row.id then
      some { s with uncommitted := ⟨t, row⟩ :: s.uncommitted, nextSeq := s.nextSeq + 1 }
    else none

def dbAnswer (s : DbState J) (t : ℕ) : (o : DbOp) → DbOracle → Option ((db J).Res o × DbState J)
  | .uuid4, .uuid u => some (u, s)
  | .currentTraceId, .trace x => some (x, s)
  | .begin, _ => some ((), s)
  | .advisoryLock, _ => if s.holder = none then some ((), { s with holder := some t }) else none
  | .selectLast, _ => some (lastBySeq (s.visible t), s)
  | .insert i, _ => (s.inserted t i).map fun s' => ((), s')
  | .commit, _ => some ((), s.committed t)
  | .rollback, _ => some ((), s.aborted t)
  | _, _ => none

/-- A failure ends the transaction. A COMMIT may have been applied before the connection was
lost, and an INSERT may have taken a seq before it failed. -/
def dbFailure (s : DbState J) (t : ℕ) (o : DbOp) (c : DbOracle) : Option (DbState J) :=
  match o, c with
  | .commit, .applied true => some (s.committed t)
  | .insert _, .applied true => some { s.aborted t with nextSeq := s.nextSeq + 1 }
  | _, _ => some (s.aborted t)

abbrev auditSystem (J : Jsonb) (sha256 : Digest) : System (db J) where
  Req := AuditEvent
  Resp := Unit
  State := DbState J
  Oracle := DbOracle
  Drift := Empty
  handler := recordToolCall J sha256
  start s := s = .initial
  answer := dbAnswer
  failure := dbFailure
  drift _ d := nomatch d

/-! ## What one writer does -/

def opened (u : Uuid) (x : Option Str) : Trace (db J) :=
  [⟨.begin, some ()⟩, ⟨.currentTraceId, some x⟩, ⟨.uuid4, some u⟩]

def locked (u : Uuid) (x : Option Str) : Trace (db J) := ⟨.advisoryLock, some ()⟩ :: opened u x

def readLast (u : Uuid) (x : Option Str) (last : Option (Row J)) : Trace (db J) :=
  ⟨.selectLast, some last⟩ :: locked u x

def wrote (u : Uuid) (x : Option Str) (last : Option (Row J)) (i : Insert) : Trace (db J) :=
  ⟨.insert i, some ()⟩ :: readLast u x last

/-- The INSERT of an event that is chained on `last`. -/
def InsertOn (sha256 : Digest) (event : AuditEvent) (last : Option (Row J)) (u : Uuid)
    (x : Option Str) (i : Insert) : Prop :=
  ∃ createdAt hash, UuidTime.fromTimestamp event.timestamp = some createdAt ∧
    eventHash sha256 event u createdAt (prevHashOf last) = some hash ∧
    i = insertOf event u createdAt x hash

/-- Each statement comes after exactly the statements before it in the program. -/
def WriterOk (sha256 : Digest) (event : AuditEvent) (tr : Trace (db J)) : DbOp → Prop
  | .uuid4 => tr = []
  | .currentTraceId => ∃ u, tr = [⟨.uuid4, some u⟩]
  | .begin => ∃ u x, tr = [⟨.currentTraceId, some x⟩, ⟨.uuid4, some u⟩]
  | .advisoryLock => ∃ u x, tr = opened u x
  | .selectLast => ∃ u x, tr = locked u x
  | .insert i => ∃ u x last, tr = readLast u x last ∧ InsertOn sha256 event last u x i
  | .commit => ∃ u x last i, tr = wrote u x last i ∧ InsertOn sha256 event last u x i
  | .rollback => ∃ u x last, tr = readLast u x last

def WriterPost (sha256 : Digest) (event : AuditEvent) :
    Except DbError Unit → Trace (db J) → Prop
  | .ok _, tr => ∃ u x last i, tr = ⟨.commit, some ()⟩ :: wrote u x last i ∧
      InsertOn sha256 event last u x i
  | .error _, _ => True

theorem recordToolCall_sat (sha256 : Digest) (event : AuditEvent) :
    Sat (WriterOk sha256 event) (WriterPost sha256 event) (recordToolCall J sha256 event) [] := by
  refine sat_perform.mpr ⟨rfl, fun u => ?_, fun _ _ => trivial⟩
  cases hc : UuidTime.fromTimestamp event.timestamp with
  | none => trivial
  | some createdAt =>
    refine sat_perform.mpr ⟨⟨u, rfl⟩, fun x => ?_, fun _ _ => trivial⟩
    refine sat_perform.mpr ⟨⟨u, x, rfl⟩, fun _ => ?_, fun _ _ => trivial⟩
    refine sat_perform.mpr ⟨⟨u, x, rfl⟩, fun _ => ?_, fun _ _ => trivial⟩
    refine sat_perform.mpr ⟨⟨u, x, rfl⟩, fun last => ?_, fun _ _ => trivial⟩
    cases hh : eventHash sha256 event u createdAt (prevHashOf last) with
    | none => exact sat_perform.mpr ⟨⟨u, x, last, rfl⟩, fun _ => trivial, fun _ _ => trivial⟩
    | some hash =>
      have hi : InsertOn sha256 event last u x (insertOf event u createdAt x hash) :=
        ⟨createdAt, hash, hc, hh, rfl⟩
      refine sat_perform.mpr ⟨⟨u, x, last, rfl, hi⟩, fun _ => ?_, fun _ _ => trivial⟩
      exact ⟨⟨u, x, last, _, rfl, hi⟩, fun _ => ⟨u, x, last, _, rfl, hi⟩, fun _ _ => trivial⟩

/-! ## What all writers keep -/

abbrev AuditPool (J : Jsonb) (sha256 : Digest) := Pool (auditSystem J sha256)

/-- The row before a row in a list that has the latest first. -/
def before (ws : List (Written J)) : Option (Row J) := ws.head?.map Written.row

variable {sha256 : Digest}

/-- `w` was inserted by its request right after reading `last`, and its COMMIT was sent. -/
def WroteAfter (p : AuditPool J sha256) (w : Written J) (last : Option (Row J)) : Prop :=
  ∃ event q u x i c, p.thread w.writer = some (event, q) ∧
    own w.writer p.hist = ⟨.commit, c⟩ :: wrote u x last i ∧
    InsertOn sha256 event last u x i ∧ i.row J w.row.seq = some w.row

def Linked (p : AuditPool J sha256) : List (Written J) → Prop
  | [] => True
  | w :: ws => WroteAfter p w (before ws) ∧ Linked p ws

/-- After an answer to one of these the transaction holds the lock. -/
def keepsLock : Entry (db J) → Prop
  | ⟨.advisoryLock, some _⟩ => True
  | ⟨.selectLast, some _⟩ => True
  | ⟨.insert _, some _⟩ => True
  | _ => False

def HoldsLock (tr : Trace (db J)) : Prop := ∃ e ∈ tr.head?, keepsLock e

structure WritersInv (p : AuditPool J sha256) : Prop where
  lock : ∀ t, p.shared.holder = some t ↔ HoldsLock (own t p.hist)
  pending_owner : ∀ w ∈ p.shared.uncommitted, ∃ u x last i, own w.writer p.hist = wrote u x last i
  pending : ∀ t u x last i, own t p.hist = wrote u x last i →
    ∃ row, p.shared.uncommitted = [⟨t, row⟩] ∧ i.row J row.seq = some row
  read : ∀ t u x last, (own t p.hist = readLast u x last ∨ ∃ i, own t p.hist = wrote u x last i) →
    last = before p.shared.rows
  sorted : p.shared.rows.Pairwise fun w v => v.row.seq < w.row.seq
  bound : ∀ w ∈ p.shared.rows, w.row.seq < p.shared.nextSeq
  pending_bound : ∀ w ∈ p.shared.uncommitted, w.row.seq < p.shared.nextSeq ∧
    ∀ v ∈ p.shared.rows, v.row.seq < w.row.seq
  linked : Linked p p.shared.rows
  writers : (p.shared.rows.map Written.writer).Nodup
  kept : ∀ t, ⟨.commit, some ()⟩ ∈ own t p.hist → ∃ w ∈ p.shared.rows, w.writer = t

abbrev WritersObey (p : AuditPool J sha256) : Prop :=
  Obeys (Y := auditSystem J sha256) (WriterOk sha256) (WriterPost sha256) p

theorem Linked.mem {p : AuditPool J sha256} {ws : List (Written J)} (h : Linked p ws)
    {w : Written J} (hw : w ∈ ws) : ∃ last, WroteAfter p w last := by
  induction ws with
  | nil => cases hw
  | cons v vs ih =>
    rcases List.mem_cons.mp hw with rfl | hw
    · exact ⟨_, h.1⟩
    · exact ih h.2 hw

/-- No statement of the program comes after a COMMIT. -/
theorem not_ok_after_commit {event : AuditEvent} {c : Option Unit} {tr : Trace (db J)} {o : DbOp} :
    ¬ WriterOk sha256 event (⟨.commit, c⟩ :: tr) o := by
  cases o <;> simp [WriterOk, opened, locked, readLast, wrote]

theorem wroteAfter_writer_ne {p : AuditPool J sha256} (hp : WritersObey p) {t : ℕ}
    {r : AuditEvent} {o : DbOp} {k : (db J).Res o → Prog (db J) Unit}
    (ht : p.thread t = some (r, .call o k)) {w : Written J} {last : Option (Row J)}
    (hw : WroteAfter p w last) : w.writer ≠ t := by
  rintro rfl
  obtain ⟨event, q, u, x, i, c, hthread, hown, -, -⟩ := hw
  have hok := (hp.sat _ _ _ ht).1
  rw [hown] at hok
  exact not_ok_after_commit hok

theorem wroteAfter_after {p : AuditPool J sha256} {t : ℕ} {r : AuditEvent} {e : Entry (db J)}
    {s : DbState J} {q : Prog (db J) Unit} {w : Written J} {last : Option (Row J)}
    (hw : WroteAfter p w last) (hne : w.writer ≠ t) : WroteAfter (p.after t r e s q) w last := by
  obtain ⟨event, q', u, x, i, c, hthread, hown, hon, hrow⟩ := hw
  refine ⟨event, q', u, x, i, c, ?_, ?_, hon, hrow⟩
  · rw [thread_after_ne _ _ _ _ _ hne, hthread]
  · rw [own_after_ne _ _ _ _ _ hne, hown]

theorem linked_after {p : AuditPool J sha256} (hp : WritersObey p) {t : ℕ} {r : AuditEvent}
    {o : DbOp} {k : (db J).Res o → Prog (db J) Unit} (ht : p.thread t = some (r, .call o k))
    (e : Entry (db J)) (s : DbState J) (q : Prog (db J) Unit) {ws : List (Written J)}
    (h : Linked p ws) : Linked (p.after t r e s q) ws := by
  induction ws with
  | nil => trivial
  | cons w ws ih => exact ⟨wroteAfter_after h.1 (wroteAfter_writer_ne hp ht h.1), ih h.2⟩

theorem holdsLock_cons {e : Entry (db J)} {tr : Trace (db J)} :
    HoldsLock (e :: tr) ↔ keepsLock e := by simp [HoldsLock]

theorem not_holdsLock_nil : ¬ HoldsLock ([] : Trace (db J)) := by simp [HoldsLock]

theorem holdsLock_wrote (u : Uuid) (x : Option Str) (last : Option (Row J)) (i : Insert) :
    HoldsLock (wrote u x last i) := ⟨_, rfl, trivial⟩

/-! ### Steps that leave the rows alone -/

section Step

variable {p : AuditPool J sha256} {t : ℕ} {r : AuditEvent} {o : DbOp}
  {k : (db J).Res o → Prog (db J) Unit}

/-- Statements before the lock is asked for. -/
theorem WritersInv.quiet (h : WritersInv p) (hp : WritersObey p)
    (ht : p.thread t = some (r, .call o k)) (e : Entry (db J)) (q : Prog (db J) Unit)
    (hold : ¬ HoldsLock (own t p.hist)) (hnew : ¬ keepsLock e) (hcommit : e ≠ ⟨.commit, some ()⟩) :
    WritersInv (p.after t r e p.shared q) := by
  have hwrote : ∀ u x last i, e :: own t p.hist ≠ wrote u x last i := fun u x last i heq => by
    have := holdsLock_wrote u x last i
    rw [← heq, holdsLock_cons] at this
    exact hnew this
  have hread : ∀ u x last, e :: own t p.hist ≠ readLast u x last := fun u x last heq => by
    obtain ⟨rfl, -⟩ := List.cons.inj heq
    exact hnew trivial
  constructor
  · intro t'
    by_cases hne : t' = t
    · subst hne
      rw [own_after_self, holdsLock_cons]
      exact iff_of_false (fun hh => hold ((h.lock t').mp hh)) hnew
    · rw [own_after_ne _ _ _ _ _ hne]
      exact h.lock t'
  · intro w hw
    obtain ⟨u, x, last, i, hown⟩ := h.pending_owner w hw
    have hne : w.writer ≠ t := by
      rintro rfl
      exact hold (hown ▸ holdsLock_wrote u x last i)
    exact ⟨u, x, last, i, by rw [own_after_ne _ _ _ _ _ hne, hown]⟩
  · intro t' u x last i hown
    by_cases hne : t' = t
    · subst hne
      rw [own_after_self] at hown
      exact absurd hown (hwrote u x last i)
    · rw [own_after_ne _ _ _ _ _ hne] at hown
      exact h.pending t' u x last i hown
  · intro t' u x last hown
    by_cases hne : t' = t
    · subst hne
      rw [own_after_self] at hown
      rcases hown with hown | ⟨i, hown⟩
      · exact absurd hown (hread u x last)
      · exact absurd hown (hwrote u x last i)
    · rw [own_after_ne _ _ _ _ _ hne] at hown
      exact h.read t' u x last hown
  · exact h.sorted
  · exact h.bound
  · exact h.pending_bound
  · exact linked_after hp ht e _ q h.linked
  · exact h.writers
  · intro t' hmem
    by_cases hne : t' = t
    · subst hne
      rw [own_after_self] at hmem
      rcases List.mem_cons.mp hmem with heq | hmem
      · exact absurd heq.symm hcommit
      · exact h.kept t' hmem
    · rw [own_after_ne _ _ _ _ _ hne] at hmem
      exact h.kept t' hmem

/-- A transaction that ends without its COMMIT; its seqs stay used up. -/
theorem WritersInv.abort (h : WritersInv p) (hp : WritersObey p)
    (ht : p.thread t = some (r, .call o k)) (e : Entry (db J)) (q : Prog (db J) Unit) (n : ℕ)
    (hn : p.shared.nextSeq ≤ n) (hnew : ¬ keepsLock e) (hcommit : e ≠ ⟨.commit, some ()⟩) :
    WritersInv (p.after t r e { p.shared.aborted t with nextSeq := n } q) := by
  have hlock : ∀ t', t' ≠ t → (p.shared.unlock t = some t' ↔ p.shared.holder = some t') := by
    intro t' hne
    rw [DbState.unlock]
    split_ifs with hh
    · simp [hh, hne.symm]
    · exact Iff.rfl
  have hmem : ∀ w ∈ p.shared.uncommitted.filter (fun w => w.writer ≠ t),
      w ∈ p.shared.uncommitted ∧ w.writer ≠ t := fun w hw => by simpa using hw
  constructor
  · intro t'
    by_cases hne : t' = t
    · subst hne
      rw [own_after_self, holdsLock_cons]
      refine iff_of_false (fun hh => ?_) hnew
      simp only [Pool.after, DbState.aborted, DbState.unlock] at hh
      split_ifs at hh with hheld
      exact hheld hh
    · rw [own_after_ne _ _ _ _ _ hne]
      exact (hlock t' hne).trans (h.lock t')
  · intro w hw
    obtain ⟨hw, hne⟩ := hmem w hw
    obtain ⟨u, x, last, i, hown⟩ := h.pending_owner w hw
    exact ⟨u, x, last, i, by rw [own_after_ne _ _ _ _ _ hne, hown]⟩
  · intro t' u x last i hown
    by_cases hne : t' = t
    · subst hne
      rw [own_after_self] at hown
      obtain ⟨rfl, -⟩ := List.cons.inj hown
      exact absurd trivial hnew
    · rw [own_after_ne _ _ _ _ _ hne] at hown
      obtain ⟨row, hrow, hi⟩ := h.pending t' u x last i hown
      exact ⟨row, by simp [Pool.after, DbState.aborted, hrow, hne], hi⟩
  · intro t' u x last hown
    by_cases hne : t' = t
    · subst hne
      rw [own_after_self] at hown
      rcases hown with hown | ⟨i, hown⟩
      all_goals
        obtain ⟨rfl, -⟩ := List.cons.inj hown
        exact absurd trivial hnew
    · rw [own_after_ne _ _ _ _ _ hne] at hown
      exact h.read t' u x last hown
  · exact h.sorted
  · intro w hw
    have := h.bound w hw
    simp only [Pool.after]
    omega
  · intro w hw
    obtain ⟨hlt, hrows⟩ := h.pending_bound w (hmem w hw).1
    refine ⟨?_, hrows⟩
    simp only [Pool.after]
    omega
  · exact linked_after hp ht e _ q h.linked
  · exact h.writers
  · intro t' hc
    by_cases hne : t' = t
    · subst hne
      rw [own_after_self] at hc
      rcases List.mem_cons.mp hc with heq | hc
      · exact absurd heq.symm hcommit
      · exact h.kept t' hc
    · rw [own_after_ne _ _ _ _ _ hne] at hc
      exact h.kept t' hc

/-- The lock is granted only when nobody holds it. -/
theorem WritersInv.grant (h : WritersInv p) (hp : WritersObey p)
    (ht : p.thread t = some (r, .call o k)) (q : Prog (db J) Unit)
    (hfree : p.shared.holder = none) :
    WritersInv (p.after t r ⟨.advisoryLock, some ()⟩ { p.shared with holder := some t } q) := by
  have hnone : ∀ t', ¬ HoldsLock (own t' p.hist) := fun t' hh => by
    rw [← h.lock t', hfree] at hh
    cases hh
  have hwrote : ∀ t' u x last i, own t' p.hist ≠ wrote u x last i := fun t' u x last i heq =>
    hnone t' (heq ▸ holdsLock_wrote u x last i)
  constructor
  · intro t'
    by_cases hne : t' = t
    · subst hne
      rw [own_after_self, holdsLock_cons]
      exact iff_of_true rfl trivial
    · rw [own_after_ne _ _ _ _ _ hne]
      refine iff_of_false (fun hh => hne ?_) (hnone t')
      exact (Option.some.inj hh).symm
  · intro w hw
    obtain ⟨u, x, last, i, hown⟩ := h.pending_owner w hw
    exact absurd hown (hwrote _ u x last i)
  · intro t' u x last i hown
    by_cases hne : t' = t
    · subst hne
      rw [own_after_self] at hown
      simp [wrote] at hown
    · rw [own_after_ne _ _ _ _ _ hne] at hown
      exact absurd hown (hwrote t' u x last i)
  · intro t' u x last hown
    by_cases hne : t' = t
    · subst hne
      rw [own_after_self] at hown
      simp [wrote, readLast] at hown
    · rw [own_after_ne _ _ _ _ _ hne] at hown
      exact h.read t' u x last hown
  · exact h.sorted
  · exact h.bound
  · exact h.pending_bound
  · exact linked_after hp ht _ _ q h.linked
  · exact h.writers
  · intro t' hc
    by_cases hne : t' = t
    · subst hne
      rw [own_after_self] at hc
      simp only [List.mem_cons] at hc
      exact h.kept t' (hc.resolve_left (by simp))
    · rw [own_after_ne _ _ _ _ _ hne] at hc
      exact h.kept t' hc

/-- Only the holder of the lock has uncommitted rows. -/
theorem WritersInv.none_pending (h : WritersInv p) (hheld : HoldsLock (own t p.hist))
    (hno : ∀ u x last i, own t p.hist ≠ wrote u x last i) : p.shared.uncommitted = [] := by
  rw [List.eq_nil_iff_forall_not_mem]
  intro w hw
  obtain ⟨u, x, last, i, hown⟩ := h.pending_owner w hw
  have h₁ := (h.lock w.writer).mpr (hown ▸ holdsLock_wrote u x last i)
  rw [(h.lock t).mpr hheld] at h₁
  exact hno u x last i (Option.some.inj h₁ ▸ hown)

theorem lastBySeq_of_sorted {ws : List (Written J)}
    (h : ws.Pairwise fun w v => v.row.seq < w.row.seq) : lastBySeq ws = before ws := by
  induction ws with
  | nil => rfl
  | cons w ws ih =>
    rw [lastBySeq, ih (List.pairwise_cons.mp h).2]
    cases ws with
    | nil => rfl
    | cons v ws =>
      have := (List.pairwise_cons.mp h).1 v (by simp)
      simp [before, this]

/-- Under the lock the SELECT gives the last committed row. -/
theorem WritersInv.select (h : WritersInv p) (hp : WritersObey p)
    (ht : p.thread t = some (r, .call o k)) (q : Prog (db J) Unit) {u : Uuid} {x : Option Str}
    (hown : own t p.hist = locked u x) :
    WritersInv (p.after t r ⟨.selectLast, some (lastBySeq (p.shared.visible t))⟩ p.shared q) := by
  have hheld : HoldsLock (own t p.hist) := hown ▸ ⟨_, rfl, trivial⟩
  have hempty : p.shared.uncommitted = [] := h.none_pending hheld (by
    intro u' x' last i heq
    rw [hown] at heq
    simp [locked, wrote] at heq)
  have hlast : lastBySeq (p.shared.visible t) = before p.shared.rows := by
    rw [DbState.visible, hempty]
    exact lastBySeq_of_sorted h.sorted
  constructor
  · intro t'
    by_cases hne : t' = t
    · subst hne
      rw [own_after_self, holdsLock_cons]
      exact iff_of_true ((h.lock t').mpr hheld) trivial
    · rw [own_after_ne _ _ _ _ _ hne]
      exact h.lock t'
  · intro w hw
    simp only [Pool.after, hempty, List.not_mem_nil] at hw
  · intro t' u' x' last i hown'
    by_cases hne : t' = t
    · subst hne
      rw [own_after_self] at hown'
      simp [wrote] at hown'
    · rw [own_after_ne _ _ _ _ _ hne] at hown'
      exact h.pending t' u' x' last i hown'
  · intro t' u' x' last hown'
    by_cases hne : t' = t
    · subst hne
      rw [own_after_self, hlast] at hown'
      rcases hown' with heq | ⟨i, heq⟩
      · simp only [readLast, List.cons.injEq, Entry.mk.injEq, heq_eq_eq, Option.some.injEq,
          true_and] at heq
        exact heq.1.symm
      · simp [wrote] at heq
    · rw [own_after_ne _ _ _ _ _ hne] at hown'
      exact h.read t' u' x' last hown'
  · exact h.sorted
  · exact h.bound
  · exact h.pending_bound
  · exact linked_after hp ht _ _ q h.linked
  · exact h.writers
  · intro t' hc
    by_cases hne : t' = t
    · subst hne
      rw [own_after_self] at hc
      simp only [List.mem_cons] at hc
      exact h.kept t' (hc.resolve_left (by simp))
    · rw [own_after_ne _ _ _ _ _ hne] at hc
      exact h.kept t' hc

/-- The columns that the verifier reads. -/
theorem insert_row_columns {i : Insert} {n : ℤ} {row : Row J} (h : i.row J n = some row) :
    row.seq = n ∧ Uuid.ofText i.id = some row.id ∧ row.agentId.str = i.agentId ∧
      row.toolName.str = i.toolName ∧ J.store i.args = some row.args ∧
      nullable J.store i.resultSummary = some row.resultSummary ∧ row.rowHash.str = i.rowHash ∧
      row.createdAt = i.createdAt := by
  have htext : ∀ {s : Str} {x : PgText}, PgText.of s = some x → x.str = s := by
    intro s x hx
    rw [PgText.of] at hx
    split_ifs at hx
    rw [← Option.some.inj hx]
  have hbigint : ∀ {m}, bigintOf n = some m → m.val = n := by
    intro m hm
    rw [bigintOf] at hm
    split_ifs at hm
    rw [← Option.some.inj hm]
  rw [Insert.row] at h
  obtain ⟨seq, hseq, h⟩ := Option.bind_eq_some_iff.mp h
  simp only [Option.bind_eq_bind, Option.bind_eq_some_iff, Option.pure_def,
    Option.some.injEq] at h
  obtain ⟨id, hid, agentId, hagent, role, -, toolName, htool, args, hargs,
    policyDecision, -, approvalId, -, resultStatus, -, resultSummary, hresult, durationMs, -,
    otelTraceId, -, rowHash, hhash, rfl⟩ := h
  exact ⟨hbigint hseq, hid, htext hagent, htext htool, hargs, hresult, htext hhash, rfl⟩

/-- A row whose documents have the texts of the event's hashes as the event did. -/
theorem expectedHash_of_texts {event : AuditEvent} {row : Row J} {args result : Json}
    (hagent : row.agentId.str = event.agentId) (htool : row.toolName.str = event.toolName)
    (hargs : decodeJsonb (some row.args) = some args)
    (hresult : decodeJsonb row.resultSummary = some result)
    (hargsText : dumpsSorted args = dumpsSorted event.arguments)
    (hresultText : dumpsSorted result = dumpsSorted (event.result.getD .null)) (prev : Str) :
    expectedHash sha256 row prev = eventHash sha256 event row.id row.createdAt prev := by
  rw [expectedHash, hargs, hresult, eventHash, hagent, htool]
  simp only [Option.bind_eq_bind, Option.bind_some, rowHash, payload, hargsText,
    Option.getD_some, hresultText]

theorem insert_row_seq {i : Insert} {n : ℤ} {row : Row J} (h : i.row J n = some row) :
    row.seq = n := (insert_row_columns h).1

theorem inserted_some {s s' : DbState J} {i : Insert} (h : s.inserted t i = some s') :
    ∃ row, i.row J s.nextSeq = some row ∧
      s' = { s with uncommitted := ⟨t, row⟩ :: s.uncommitted, nextSeq := s.nextSeq + 1 } := by
  rw [DbState.inserted] at h
  split at h
  · cases h
  · rename_i row hrow
    split_ifs at h
    exact ⟨row, hrow, (Option.some.inj h).symm⟩

theorem WritersInv.insert (h : WritersInv p) (hp : WritersObey p)
    (ht : p.thread t = some (r, .call o k)) (q : Prog (db J) Unit) {u : Uuid} {x : Option Str}
    {last : Option (Row J)} {i : Insert} {s' : DbState J} (hown : own t p.hist = readLast u x last)
    (hs : p.shared.inserted t i = some s') :
    WritersInv (p.after t r ⟨.insert i, some ()⟩ s' q) := by
  obtain ⟨row, hrow, rfl⟩ := inserted_some hs
  have hseq := insert_row_seq hrow
  have hheld : HoldsLock (own t p.hist) := hown ▸ ⟨_, rfl, trivial⟩
  have hempty : p.shared.uncommitted = [] := h.none_pending hheld (by
    intro u' x' last' i' heq
    rw [hown] at heq
    simp [wrote, readLast] at heq)
  have hlast := h.read t u x last (Or.inl hown)
  constructor
  · intro t'
    by_cases hne : t' = t
    · subst hne
      rw [own_after_self, holdsLock_cons]
      exact iff_of_true ((h.lock t').mpr hheld) trivial
    · rw [own_after_ne _ _ _ _ _ hne]
      exact h.lock t'
  · intro w hw
    simp only [Pool.after, hempty, List.mem_singleton] at hw
    subst hw
    exact ⟨u, x, last, i, by rw [own_after_self, hown]; rfl⟩
  · intro t' u' x' last' i' hown'
    by_cases hne : t' = t
    · subst hne
      rw [own_after_self] at hown'
      obtain ⟨heq, -⟩ := List.cons.inj hown'
      obtain rfl : i = i' := by simpa using heq
      exact ⟨row, by simp only [Pool.after, hempty], by rw [hseq, hrow]⟩
    · rw [own_after_ne _ _ _ _ _ hne] at hown'
      obtain ⟨row', hrow', -⟩ := h.pending t' u' x' last' i' hown'
      rw [hempty] at hrow'
      cases hrow'
  · intro t' u' x' last' hown'
    by_cases hne : t' = t
    · subst hne
      rw [own_after_self] at hown'
      rcases hown' with heq | ⟨i', heq⟩
      · simp [readLast] at heq
      · exact h.read t' u' x' last' (Or.inl (List.cons.inj heq).2)
    · rw [own_after_ne _ _ _ _ _ hne] at hown'
      exact h.read t' u' x' last' hown'
  · exact h.sorted
  · intro w hw
    have := h.bound w hw
    simp only [Pool.after, Nat.cast_add, Nat.cast_one]
    omega
  · intro w hw
    simp only [Pool.after, hempty, List.mem_singleton] at hw
    subst hw
    simp only [Pool.after, hseq, Nat.cast_add, Nat.cast_one]
    exact ⟨by omega, h.bound⟩
  · exact linked_after hp ht _ _ q h.linked
  · exact h.writers
  · intro t' hc
    by_cases hne : t' = t
    · subst hne
      rw [own_after_self] at hc
      simp only [List.mem_cons] at hc
      exact h.kept t' (hc.resolve_left (by simp))
    · rw [own_after_ne _ _ _ _ _ hne] at hc
      exact h.kept t' hc

/-- What a COMMIT makes of the database, answered or not. -/
theorem WritersInv.committed_rows (h : WritersInv p) {u : Uuid} {x : Option Str}
    {last : Option (Row J)} {i : Insert} (hown : own t p.hist = wrote u x last i) :
    ∃ row, i.row J row.seq = some row ∧ p.shared.uncommitted = [⟨t, row⟩] ∧
      p.shared.committed t = ⟨⟨t, row⟩ :: p.shared.rows, [], none, p.shared.nextSeq⟩ := by
  obtain ⟨row, hunc, hrow⟩ := h.pending t u x last i hown
  have hholder := (h.lock t).mpr (hown ▸ holdsLock_wrote u x last i)
  refine ⟨row, hrow, hunc, ?_⟩
  simp [DbState.committed, DbState.visible, DbState.unlock, hunc, hholder]

theorem WritersInv.commit (h : WritersInv p) (hp : WritersObey p)
    (ht : p.thread t = some (r, .call o k)) (c : Option Unit) (q : Prog (db J) Unit) {u : Uuid}
    {x : Option Str} {last : Option (Row J)} {i : Insert} (hown : own t p.hist = wrote u x last i)
    (hon : InsertOn sha256 r last u x i) :
    WritersInv (p.after t r ⟨.commit, c⟩ (p.shared.committed t) q) := by
  obtain ⟨row, hrow, hunc, hs⟩ := h.committed_rows hown
  have hholder := (h.lock t).mpr (hown ▸ holdsLock_wrote u x last i)
  have hother : ∀ t', t' ≠ t → ¬ HoldsLock (own t' p.hist) := fun t' hne hh => by
    rw [← h.lock t', hholder] at hh
    exact hne (Option.some.inj hh).symm
  have hbound := h.pending_bound ⟨t, row⟩ (by rw [hunc]; simp)
  rw [hs]
  constructor
  · intro t'
    by_cases hne : t' = t
    · subst hne
      rw [own_after_self, holdsLock_cons]
      exact iff_of_false (fun hh => nomatch hh) (fun hh => hh)
    · rw [own_after_ne _ _ _ _ _ hne]
      exact iff_of_false (fun hh => nomatch hh) (hother t' hne)
  · exact fun w hw => nomatch hw
  · intro t' u' x' last' i' hown'
    by_cases hne : t' = t
    · subst hne
      rw [own_after_self] at hown'
      simp [wrote] at hown'
    · rw [own_after_ne _ _ _ _ _ hne] at hown'
      exact absurd (hown' ▸ holdsLock_wrote u' x' last' i') (hother t' hne)
  · intro t' u' x' last' hown'
    by_cases hne : t' = t
    · subst hne
      rw [own_after_self] at hown'
      rcases hown' with heq | ⟨i', heq⟩
      · simp [readLast] at heq
      · simp [wrote] at heq
    · rw [own_after_ne _ _ _ _ _ hne] at hown'
      rcases hown' with heq | ⟨i', heq⟩
      · exact absurd (heq ▸ ⟨_, rfl, trivial⟩) (hother t' hne)
      · exact absurd (heq ▸ holdsLock_wrote u' x' last' i') (hother t' hne)
  · exact List.pairwise_cons.mpr ⟨hbound.2, h.sorted⟩
  · intro w hw
    rcases List.mem_cons.mp hw with rfl | hw
    · exact hbound.1
    · exact h.bound w hw
  · exact fun w hw => nomatch hw
  · refine ⟨?_, linked_after hp ht _ _ q h.linked⟩
    rw [← h.read t u x last (Or.inr ⟨i, hown⟩)]
    exact ⟨r, q, u, x, i, c, thread_after_self .., by rw [own_after_self, hown], hon, hrow⟩
  · refine List.nodup_cons.mpr ⟨?_, h.writers⟩
    intro hmem
    obtain ⟨w, hw, hwt⟩ := List.mem_map.mp hmem
    obtain ⟨last', hwrote⟩ := h.linked.mem hw
    exact wroteAfter_writer_ne hp ht hwrote hwt
  · intro t' hc
    by_cases hne : t' = t
    · exact ⟨⟨t, row⟩, List.mem_cons_self .., hne.symm⟩
    · rw [own_after_ne _ _ _ _ _ hne] at hc
      obtain ⟨w, hw, hwt⟩ := h.kept t' hc
      exact ⟨w, List.mem_cons_of_mem _ hw, hwt⟩

theorem WritersInv.answer (h : WritersInv p) (hp : WritersObey p)
    (ht : p.thread t = some (r, .call o k)) {c : DbOracle} {x : (db J).Res o} {s : DbState J}
    (hs : dbAnswer p.shared t o c = some (x, s)) (q : Prog (db J) Unit) :
    WritersInv (p.after t r ⟨o, some x⟩ s q) := by
  have hok : WriterOk sha256 r (own t p.hist) o := (hp.sat t r _ ht).1
  cases o with
  | uuid4 =>
    have hown : own t p.hist = [] := hok
    cases c <;> simp only [dbAnswer, Option.some.injEq, Prod.mk.injEq, reduceCtorEq] at hs
    obtain ⟨-, rfl⟩ := hs
    exact h.quiet hp ht _ q (hown ▸ not_holdsLock_nil) (fun hk => hk) (by simp)
  | currentTraceId =>
    obtain ⟨u, hown⟩ := hok
    cases c <;> simp only [dbAnswer, Option.some.injEq, Prod.mk.injEq, reduceCtorEq] at hs
    obtain ⟨-, rfl⟩ := hs
    exact h.quiet hp ht _ q (by rw [hown, holdsLock_cons]; exact fun hk => hk) (fun hk => hk)
      (by simp)
  | begin =>
    obtain ⟨u, x', hown⟩ := hok
    simp only [dbAnswer, Option.some.injEq, Prod.mk.injEq] at hs
    obtain ⟨-, rfl⟩ := hs
    exact h.quiet hp ht _ q (by rw [hown, holdsLock_cons]; exact fun hk => hk) (fun hk => hk)
      (by simp)
  | advisoryLock =>
    simp only [dbAnswer, Option.ite_none_right_eq_some, Option.some.injEq, Prod.mk.injEq] at hs
    obtain ⟨hfree, -, rfl⟩ := hs
    exact h.grant hp ht q hfree
  | selectLast =>
    obtain ⟨u, x', hown⟩ := hok
    simp only [dbAnswer, Option.some.injEq, Prod.mk.injEq] at hs
    obtain ⟨rfl, rfl⟩ := hs
    exact h.select hp ht q hown
  | insert i =>
    obtain ⟨u, x', last, hown, -⟩ := hok
    obtain ⟨s', hs', heq⟩ := Option.map_eq_some_iff.mp hs
    obtain ⟨-, rfl⟩ := Prod.mk.inj heq
    exact h.insert hp ht q hown hs'
  | commit =>
    obtain ⟨u, x', last, i, hown, hon⟩ := hok
    simp only [dbAnswer, Option.some.injEq, Prod.mk.injEq] at hs
    obtain ⟨-, rfl⟩ := hs
    exact h.commit hp ht _ q hown hon
  | rollback =>
    simp only [dbAnswer, Option.some.injEq, Prod.mk.injEq] at hs
    obtain ⟨-, rfl⟩ := hs
    exact h.abort hp ht _ q p.shared.nextSeq le_rfl (fun hk => hk) (by simp)

theorem not_keepsLock_failed (o : DbOp) : ¬ keepsLock (⟨o, none⟩ : Entry (db J)) := by
  cases o <;> exact fun hk => hk

theorem WritersInv.fail (h : WritersInv p) (hp : WritersObey p)
    (ht : p.thread t = some (r, .call o k)) {c : DbOracle} {s : DbState J}
    (hs : dbFailure p.shared t o c = some s) (q : Prog (db J) Unit) :
    WritersInv (p.after t r ⟨o, none⟩ s q) := by
  have hok : WriterOk sha256 r (own t p.hist) o := (hp.sat t r _ ht).1
  have habort : ∀ n, p.shared.nextSeq ≤ n →
      WritersInv (p.after t r ⟨o, none⟩ { p.shared.aborted t with nextSeq := n } q) := fun n hn =>
    h.abort hp ht _ q n hn (not_keepsLock_failed o) (by cases o <;> simp)
  unfold dbFailure at hs
  split at hs
  · obtain ⟨u, x', last, i, hown, hon⟩ := hok
    obtain rfl := Option.some.inj hs
    exact h.commit hp ht _ q hown hon
  · obtain rfl := Option.some.inj hs
    exact habort _ (Nat.le_succ _)
  · obtain rfl := Option.some.inj hs
    exact habort p.shared.nextSeq le_rfl

end Step

theorem writersInv_initial : WritersInv (Pool.empty .initial : AuditPool J sha256) where
  lock t := iff_of_false (fun h => nomatch h) not_holdsLock_nil
  pending_owner _ hw := nomatch hw
  pending _ u x last i h := by simp [Pool.empty, wrote] at h
  read _ u x last h := by simp [Pool.empty, wrote, readLast] at h
  sorted := List.Pairwise.nil
  bound _ hw := nomatch hw
  pending_bound _ hw := nomatch hw
  linked := trivial
  writers := List.nodup_nil
  kept _ h := nomatch h

theorem step_preserves_writersInv {p p' : AuditPool J sha256} {m : Move (auditSystem J sha256)}
    (hp : WritersObey p) (h : WritersInv p) (hm : Step p m p') : WritersInv p' := by
  cases hm with
  | arrive t r ht =>
    have hlinked : ∀ ws, Linked p ws →
        Linked (p.setThread t r (recordToolCall J sha256 r)) ws := by
      intro ws
      induction ws with
      | nil => exact fun _ => trivial
      | cons w ws ih =>
        rintro ⟨⟨event, q, u, x, i, c, hthread, hrest⟩, hws⟩
        have hne : w.writer ≠ t := by
          rintro rfl
          rw [ht] at hthread
          cases hthread
        exact ⟨⟨event, q, u, x, i, c,
          by simpa only [Pool.setThread, Function.update_of_ne hne] using hthread, hrest⟩, ih hws⟩
    exact ⟨h.lock, h.pending_owner, h.pending, h.read, h.sorted, h.bound, h.pending_bound,
      hlinked _ h.linked, h.writers, h.kept⟩
  | drift d => cases d
  | answer t c r o k x s ht hs => exact h.answer hp ht hs _
  | fail t c r o k e s ht he hs => exact h.fail hp ht hs _

theorem reachable_writersObey {C : AuditPool J sha256 → Move (auditSystem J sha256) → Prop}
    {p : AuditPool J sha256} (hp : Reachable C p) : WritersObey p :=
  reachable_obeys (Y := auditSystem J sha256) (fun event => recordToolCall_sat sha256 event) hp

theorem reachable_writersInv {C : AuditPool J sha256 → Move (auditSystem J sha256) → Prop}
    {p : AuditPool J sha256} (hp : Reachable C p) : WritersInv p := by
  induction hp with
  | start s hs =>
    obtain rfl := hs
    exact writersInv_initial
  | step hp _ hm ih => exact step_preserves_writersInv (reachable_writersObey hp) ih hm

end AuditWriters
