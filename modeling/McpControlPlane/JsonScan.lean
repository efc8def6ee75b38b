import McpControlPlane.JsonAscii

/-! # No object text ends in another one

A scanner follows a text through strings and nested braces. It finds out where an object ends, and
from no other place in the text than its start, so that no object text is a proper suffix of
another one. -/
namespace JsonScan

open PyText JsonText

/-- Outside of strings, in one, or after a backslash in one; `depth + 1` braces are open. -/
inductive Scan where
  | start
  | out (depth : ℕ)
  | str (depth : ℕ)
  | esc (depth : ℕ)
  | done
  | dead

def closed : ℕ → Scan
  | 0 => .done
  | depth + 1 => .out depth

def step : Scan → CodePoint → Scan
  | .start, c => if c = ch '\x7b' then .out 0 else .dead
  | .out depth, c =>
    if c = ch '"' then .str depth
    else if c = ch '\\' then .dead
    else if c = ch '\x7b' then .out (depth + 1)
    else if c = ch '\x7d' then closed depth
    else .out depth
  | .str depth, c =>
    if c = ch '"' then .out depth else if c = ch '\\' then .esc depth else .str depth
  -- no escape of JSON opens with a brace
  | .esc depth, c => if c = ch '\x7b' then .dead else .str depth
  | .done, _ => .dead
  | .dead, _ => .dead

def scan (q : Scan) (s : Str) : Scan := s.foldl step q

theorem scan_append (q : Scan) (s t : Str) : scan q (s ++ t) = scan (scan q s) t := List.foldl_append

theorem scan_cons (q : Scan) (c : CodePoint) (s : Str) : scan q (c :: s) = scan (step q c) s := rfl

/-! ## The text of an object -/

/-- A character that means nothing to the scanner. -/
def plain (c : CodePoint) : Bool := c != ch '"' && c != ch '\\' && c != ch '\x7b' && c != ch '\x7d'

theorem plain_iff (c : CodePoint) :
    plain c = true ↔ ((c ≠ ch '"' ∧ c ≠ ch '\\') ∧ c ≠ ch '\x7b') ∧ c ≠ ch '\x7d' := by
  simp [plain]

theorem scan_out_plain {s : Str} (h : ∀ c ∈ s, plain c = true) (depth : ℕ) :
    scan (.out depth) s = .out depth := by
  induction s with
  | nil => rfl
  | cons c s ih =>
    obtain ⟨⟨⟨hq, hb⟩, ho⟩, hc⟩ := (plain_iff c).mp (h c List.mem_cons_self)
    rw [scan_cons, step, if_neg hq, if_neg hb, if_neg ho, if_neg hc]
    exact ih fun d hd => h d (List.mem_cons_of_mem _ hd)

theorem scan_str_plain {s : Str} (h : ∀ c ∈ s, plain c = true) (depth : ℕ) :
    scan (.str depth) s = .str depth := by
  induction s with
  | nil => rfl
  | cons c s ih =>
    obtain ⟨⟨⟨hq, hb⟩, -⟩, -⟩ := (plain_iff c).mp (h c List.mem_cons_self)
    rw [scan_cons, step, if_neg hq, if_neg hb]
    exact ih fun d hd => h d (List.mem_cons_of_mem _ hd)

theorem plain_lit {s : String} (h : (lit s).all plain = true) : ∀ c ∈ lit s, plain c = true :=
  List.all_eq_true.mp h

/-- What the scanner relies on: an escape stays in its string, and numbers are plain. -/
structure Scannable {ν : Type} (F : Format ν) : Prop where
  esc : ∀ c depth, scan (.str depth) (F.esc c) = .str depth
  num : ∀ x, ∀ c ∈ (F.num x).text, plain c = true

section Render

variable {ν : Type} {F : Format ν}

theorem scan_quote (h : Scannable F) (s : Str) (depth : ℕ) :
    scan (.out depth) (F.quote s) = .out depth := by
  have hbody : scan (.str depth) (s.flatMap F.esc) = .str depth := by
    induction s with
    | nil => rfl
    | cons c s ih => rw [List.flatMap_cons, scan_append, h.esc, ih]
  have hopen : scan (.out depth) (lit "\"") = .str depth := rfl
  rw [Format.quote, scan_append, scan_append, hopen, hbody]
  rfl

mutual

/-- A value leaves the scanner at the depth where it was. -/
theorem scan_render (h : Scannable F) : ∀ (t : JsonTree ν) (depth : ℕ),
    scan (.out depth) (render F t) = .out depth
  | .null, _ => scan_out_plain (plain_lit (by decide)) _
  | .bool true, _ => scan_out_plain (plain_lit (by decide)) _
  | .bool false, _ => scan_out_plain (plain_lit (by decide)) _
  | .num x, _ => scan_out_plain (h.num x) _
  | .str s, _ => scan_quote h s _
  | .arr [], _ => scan_out_plain (plain_lit (by decide)) _
  | .arr (x :: xs), depth => by
    rw [render, scan_append, scan_append, scan_out_plain (plain_lit (by decide)), scan_render h x,
      scan_items h xs]
  | .obj [], _ => rfl
  | .obj ((k, x) :: kvs), depth => by
    have hopen : scan (.out depth) (lit "\x7b") = .out (depth + 1) := rfl
    rw [render, scan_append, scan_append, scan_append, scan_append, hopen, scan_quote h k,
      scan_out_plain (plain_lit (by decide)), scan_render h x, scan_members h kvs]
    rfl

theorem scan_items (h : Scannable F) : ∀ (xs : List (JsonTree ν)) (depth : ℕ),
    scan (.out depth) (renderItems F xs) = .out depth
  | [], _ => scan_out_plain (plain_lit (by decide)) _
  | x :: xs, depth => by
    rw [renderItems, scan_append, scan_append, scan_out_plain (plain_lit (by decide)),
      scan_render h x, scan_items h xs]

theorem scan_members (h : Scannable F) : ∀ (kvs : List (Str × JsonTree ν)) (depth : ℕ),
    scan (.out depth) (renderMembers F kvs) = closed depth
  | [], _ => rfl
  | (k, x) :: kvs, depth => by
    rw [renderMembers, scan_append, scan_append, scan_append, scan_append,
      scan_out_plain (plain_lit (by decide)), scan_quote h k, scan_out_plain (plain_lit (by decide)),
      scan_render h x, scan_members h kvs]

end

/-- The text of an object is what the scanner takes to its end. -/
theorem scan_object (h : Scannable F) (kvs : List (Str × JsonTree ν)) :
    scan .start (render F (.obj kvs)) = .done := by
  cases kvs with
  | nil => rfl
  | cons kv kvs =>
    obtain ⟨k, x⟩ := kv
    have hopen : scan .start (lit "\x7b") = .out 0 := rfl
    rw [render, scan_append, scan_append, scan_append, scan_append, hopen, scan_quote h k,
      scan_out_plain (plain_lit (by decide)), scan_render h x, scan_members h kvs]
    rfl

end Render

/-! ## Suffixes -/

/-- What a scan from the start and a scan that met the same text on its way can be in: the second
one is deeper by some braces, or takes strings for what is outside of them, or one of the two has
given up. -/
inductive Apart : Scan → Scan → Prop
  | start {q : Scan} (h : q ≠ .start) : Apart .start q
  | out (n depth : ℕ) : Apart (.out depth) (.out (n + 1 + depth))
  | str (n depth : ℕ) : Apart (.str depth) (.str (n + 1 + depth))
  | esc (n depth : ℕ) : Apart (.esc depth) (.esc (n + 1 + depth))
  | ended (n : ℕ) : Apart .done (.out n)
  | outStr (depth n : ℕ) : Apart (.out depth) (.str n)
  | doneStr (n : ℕ) : Apart .done (.str n)
  | strOut (depth n : ℕ) : Apart (.str depth) (.out n)
  | strDone (depth : ℕ) : Apart (.str depth) .done
  | dead (q : Scan) : Apart .dead q
  | gone (q : Scan) : Apart q .dead

theorem step_ne_start (q : Scan) (c : CodePoint) : step q c ≠ .start := by
  cases q with
  | out depth => cases depth <;> simp only [step, closed] <;> split_ifs <;> simp
  | start => simp only [step]; split_ifs <;> simp
  | str depth => simp only [step]; split_ifs <;> simp
  | esc depth => simp only [step]; split_ifs <;> simp
  | done => simp [step]
  | dead => simp [step]

theorem apart_step {p q : Scan} (h : Apart p q) (c : CodePoint) : Apart (step p c) (step q c) := by
  cases h with
  | start h =>
    by_cases hopen : c = ch '\x7b'
    · subst hopen
      cases q with
      | start => exact absurd rfl h
      | out n => exact .out n 0
      | str n => exact .outStr 0 n
      | esc n => exact .gone _
      | done => exact .gone _
      | dead => exact .gone _
    · rw [step, if_neg hopen]
      exact .dead _
  | out n depth =>
    simp only [step]
    split_ifs
    · exact .str n depth
    · exact .dead _
    · exact .out n (depth + 1)
    · cases depth with
      | zero => exact .ended n
      | succ depth => exact .out n depth
    · exact .out n depth
  | str n depth =>
    simp only [step]
    split_ifs
    · exact .out n depth
    · exact .esc n depth
    · exact .str n depth
  | esc n depth =>
    simp only [step]
    split_ifs
    · exact .dead _
    · exact .str n depth
  | ended n => exact .dead _
  | outStr depth n =>
    simp only [step]
    split_ifs
    · exact .strOut depth n
    · exact .dead _
    · exact .outStr (depth + 1) n
    · cases depth with
      | zero => exact .doneStr n
      | succ depth => exact .outStr depth n
    · exact .outStr depth n
  | doneStr n => exact .dead _
  | strOut depth n =>
    simp only [step]
    split_ifs
    · exact .outStr depth n
    · exact .gone _
    · exact .strOut depth (n + 1)
    · cases n with
      | zero => exact .strDone depth
      | succ n => exact .strOut depth n
    · exact .strOut depth n
  | strDone depth => exact .gone _
  | dead => exact .dead _
  | gone => exact .gone _

theorem apart_scan {p q : Scan} (h : Apart p q) (s : Str) : Apart (scan p s) (scan q s) := by
  induction s generalizing p q with
  | nil => exact h
  | cons c s ih => exact ih (apart_step h c)

theorem scan_ne_start {q : Scan} (h : q ≠ .start) (s : Str) : scan q s ≠ .start := by
  induction s generalizing q with
  | nil => exact h
  | cons c s ih => exact ih (step_ne_start q c)

/-- No text that the scanner takes to its end has another one as a proper suffix. -/
theorem suffix_whole {s t : Str} (hs : scan .start (t ++ s) = .done) (ht : scan .start s = .done) :
    t = [] := by
  cases t with
  | nil => rfl
  | cons c t =>
    have hapart := apart_scan (.start (scan_ne_start (step_ne_start .start c) t)) s
    rw [scan_append, scan_cons] at hs
    rw [ht, hs] at hapart
    cases hapart

/-- The last character of an object text is its closing brace. -/
theorem last_of_done {s : Str} {c : CodePoint} (h : scan .start (s ++ [c]) = .done) :
    c = ch '\x7d' := by
  rw [scan_append] at h
  have hstep : step (scan .start s) c = .done := h
  revert hstep
  cases scan .start s with
  | out depth => simp only [step]; split_ifs <;> simp_all
  | start => simp only [step]; split_ifs <;> simp
  | str depth => simp only [step]; split_ifs <;> simp
  | esc depth => simp only [step]; split_ifs <;> simp
  | done => simp [step]
  | dead => simp [step]

/-! ## Escapes -/

theorem plain_hexDigit : ∀ d, d < 16 → plain (hexDigit d) = true := by decide

theorem plain_digitCp : ∀ d, d < 10 → plain (digitCp d) = true := by decide

theorem scan_hexEscape (n depth : ℕ) : scan (.str depth) (hexEscape n) = .str depth := by
  have hopen : scan (.str depth) (lit "\\u") = .str depth := rfl
  rw [hexEscape, scan_append, hopen]
  refine scan_str_plain (fun d hd => ?_) depth
  obtain ⟨e, he, rfl⟩ := List.mem_map.mp hd
  exact plain_hexDigit e (fixedDigits_lt (by omega) 4 n e he)

theorem shortEscape_ne_brace {c e : CodePoint} (h : shortEscape c = some e) : e ≠ ch '\x7b' := by
  simp only [shortEscape] at h
  split_ifs at h
  all_goals
    obtain rfl := Option.some.inj h
    decide

theorem scan_escapeAscii (c : CodePoint) (depth : ℕ) :
    scan (.str depth) (escapeAscii c) = .str depth := by
  rw [escapeAscii]
  split
  · rename_i e he
    have hopen : step (.str depth) (ch '\\') = .esc depth := rfl
    rw [scan_cons, hopen, scan_cons, step, if_neg (shortEscape_ne_brace he)]
    rfl
  · rename_i hnone
    split_ifs with h₁ h₂
    · obtain ⟨hquote, hback⟩ := shortEscape_none hnone
      rw [scan_cons, step, if_neg hquote, if_neg hback]
      rfl
    · exact scan_hexEscape _ _
    · rw [scan_append, scan_hexEscape, scan_hexEscape]

theorem plain_lexeme {l : Lexeme} (hl : l.WellFormed) : ∀ c ∈ l.text, plain c = true :=
  lexeme_forall plain_digitCp (plain_lit (by decide)) (plain_lit (by decide)) hl

end JsonScan
