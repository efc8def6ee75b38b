import McpControlPlane.PyText

/-! # The path that a URL reference addresses

A client cuts a reference at the first `#` and `?`, splits its path at `/`, puts the segments after
those of a base and resolves the dot segments. A path that was put together from some texts addresses
them one by one iff all of them are plain. -/
namespace UrlSegments

open PyText

/-! ## What a segment denotes -/

def utf8 (s : Str) : List ℕ := s.flatMap utf8Units

/-- The octet that `%ab` stands for. -/
def escaped (c a b : CodePoint) : Option ℕ :=
  if c = ch '%' then (hexVal a).bind fun x => (hexVal b).map fun y => 16 * x + y else none

/-- A client quotes a character by the octets of its UTF-8 and leaves an escape as it is. -/
def octets : Str → List ℕ
  | c :: a :: b :: s =>
    match escaped c a b with
    | some n => n :: octets s
    | none => utf8Units c ++ octets (a :: b :: s)
  | s => utf8 s

def hasEscape : Str → Bool
  | c :: a :: b :: s => (escaped c a b).isSome || hasEscape (a :: b :: s)
  | _ => false

theorem utf8_cons (c : CodePoint) (s : Str) : utf8 (c :: s) = utf8Units c ++ utf8 s :=
  List.flatMap_cons

theorem units_pos (c : CodePoint) : 0 < (utf8Units c).length :=
  List.length_pos_of_ne_nil (utf8Units_ne_nil c)

theorem length_utf8_pos {s : Str} (h : s ≠ []) : 0 < (utf8 s).length := by
  obtain ⟨c, s, rfl⟩ := List.exists_cons_of_ne_nil h
  rw [utf8_cons, List.length_append]
  exact Nat.add_pos_left (units_pos c) _

theorem utf8_append (s t : Str) : utf8 (s ++ t) = utf8 s ++ utf8 t := List.flatMap_append

theorem octets_of_unescaped {s : Str} (h : hasEscape s = false) : octets s = utf8 s := by
  fun_induction octets s with
  | case1 c a b s n hn => simp [hasEscape, hn] at h
  | case2 c a b s hn ih =>
    simp only [hasEscape, hn, Option.isSome_none, Bool.false_or] at h
    rw [ih h, utf8_cons c]
  | case3 s => rfl

theorem length_octets_le (s : Str) : (octets s).length ≤ (utf8 s).length := by
  fun_induction octets s with
  | case1 c a b s n hn ih =>
    have hc := units_pos c
    simp only [utf8_cons, List.length_append, List.length_cons]
    omega
  | case2 c a b s hn ih =>
    rw [utf8_cons c, List.length_append, List.length_append]
    omega
  | case3 s => exact le_rfl

/-- An escape takes more room than the octet that it denotes. -/
theorem length_octets_lt {s : Str} (h : hasEscape s = true) : (octets s).length < (utf8 s).length := by
  fun_induction octets s with
  | case1 c a b s n hn ih =>
    have hle := length_octets_le s
    have hc := units_pos c
    have ha := units_pos a
    simp only [utf8_cons, List.length_append, List.length_cons]
    omega
  | case2 c a b s hn ih =>
    simp only [hasEscape, hn, Option.isSome_none, Bool.false_or] at h
    rw [utf8_cons c, List.length_append, List.length_append]
    have := ih h
    omega
  | case3 s hs =>
    unfold hasEscape at h
    split at h
    · rename_i c a b s
      exact absurd rfl (hs c a b s)
    · cases h

/-! ## Dot segments -/

def isDot (s : Str) : Bool := s = lit "." || s = lit ".."

/-- `..` takes the last segment away, but not the root. -/
def resolveStep (out : List Str) (s : Str) : List Str :=
  if s = lit "." then out
  else if s = lit ".." then if out = [] ∨ out = [[]] then out else out.dropLast
  else out ++ [s]

def resolve (segments : List Str) : List Str := segments.foldl resolveStep []

theorem foldl_undotted {segments : List Str} (h : ∀ s ∈ segments, isDot s = false) (out : List Str) :
    segments.foldl resolveStep out = out ++ segments := by
  induction segments generalizing out with
  | nil => exact (List.append_nil out).symm
  | cons s segments ih =>
    have hs : isDot s = false := h s List.mem_cons_self
    simp only [isDot, Bool.or_eq_false_iff, decide_eq_false_iff_not] at hs
    rw [List.foldl_cons, resolveStep, if_neg hs.1, if_neg hs.2,
      ih fun t ht => h t (List.mem_cons_of_mem _ ht), List.append_assoc, List.singleton_append]

/-- A path resolves to itself if it has no dot segments. -/
theorem resolve_undotted {segments : List Str} (h : ∀ s ∈ segments, isDot s = false) :
    resolve segments = segments := by
  rw [resolve, foldl_undotted h, List.nil_append]

/-! ## The room that segments take

Every segment takes its length and a slash. Resolving, unescaping and cutting all lose room, so a
path that is addressed as it was put together has lost nothing. -/

def room (f : Str → ℕ) (segments : List Str) : ℕ := (segments.map fun s => f s + 1).sum

section Room

variable {f g : Str → ℕ}

@[simp] theorem room_nil : room f [] = 0 := rfl

@[simp] theorem room_cons (s : Str) (segments : List Str) :
    room f (s :: segments) = f s + 1 + room f segments := by
  rw [room, List.map_cons, List.sum_cons]
  rfl

theorem room_append (l₁ l₂ : List Str) : room f (l₁ ++ l₂) = room f l₁ + room f l₂ := by
  rw [room, List.map_append, List.sum_append]
  rfl

theorem room_dropLast_le (segments : List Str) : room f segments.dropLast ≤ room f segments := by
  rcases List.eq_nil_or_concat segments with rfl | ⟨init, last, rfl⟩
  · exact le_rfl
  · rw [List.concat_eq_append, List.dropLast_concat, room_append]
    exact Nat.le_add_right _ _

theorem room_resolveStep_le (out : List Str) (s : Str) :
    room f (resolveStep out s) ≤ room f out + (f s + 1) := by
  have hdrop := room_dropLast_le (f := f) out
  unfold resolveStep
  split_ifs
  · omega
  · omega
  · omega
  · rw [room_append, room_cons, room_nil]

theorem room_resolveStep_lt (out : List Str) {s : Str} (h : isDot s = true) :
    room f (resolveStep out s) < room f out + (f s + 1) := by
  have hdrop := room_dropLast_le (f := f) out
  simp only [isDot, Bool.or_eq_true, decide_eq_true_eq] at h
  unfold resolveStep
  split_ifs with h₁ h₂
  · omega
  · omega
  · omega
  · exact absurd h (not_or.mpr ⟨h₁, h₂⟩)

theorem room_foldl_le (segments out : List Str) :
    room f (segments.foldl resolveStep out) ≤ room f out + room f segments := by
  induction segments generalizing out with
  | nil => exact le_rfl
  | cons s segments ih =>
    have hstep := room_resolveStep_le (f := f) out s
    have hrest := ih (resolveStep out s)
    rw [List.foldl_cons, room_cons]
    omega

theorem room_foldl_lt {segments : List Str} (h : ∃ s ∈ segments, isDot s = true) (out : List Str) :
    room f (segments.foldl resolveStep out) < room f out + room f segments := by
  induction segments generalizing out with
  | nil => simp at h
  | cons s segments ih =>
    rw [List.foldl_cons, room_cons]
    by_cases hs : isDot s = true
    · have hstep := room_resolveStep_lt (f := f) out hs
      have hrest := room_foldl_le (f := f) segments (resolveStep out s)
      omega
    · have hlater : ∃ t ∈ segments, isDot t = true := by
        obtain ⟨t, ht, hdot⟩ := h
        rcases List.mem_cons.mp ht with rfl | ht
        · exact absurd hdot hs
        · exact ⟨t, ht, hdot⟩
      have hstep := room_resolveStep_le (f := f) out s
      have hrest := ih hlater (resolveStep out s)
      omega

theorem room_mono {segments : List Str} (h : ∀ s ∈ segments, f s ≤ g s) :
    room f segments ≤ room g segments := by
  induction segments with
  | nil => exact le_rfl
  | cons s segments ih =>
    have hs := h s List.mem_cons_self
    have hrest := ih fun t ht => h t (List.mem_cons_of_mem _ ht)
    rw [room_cons, room_cons]
    omega

theorem room_strict {segments : List Str} (h : ∀ s ∈ segments, f s ≤ g s)
    (hlt : ∃ s ∈ segments, f s < g s) : room f segments < room g segments := by
  induction segments with
  | nil => simp at hlt
  | cons s segments ih =>
    have hs := h s List.mem_cons_self
    have hle := room_mono fun t ht => h t (List.mem_cons_of_mem s ht)
    rw [room_cons, room_cons]
    obtain ⟨t, ht, hlt⟩ := hlt
    rcases List.mem_cons.mp ht with rfl | ht
    · omega
    · have hrest := ih (fun t ht => h t (List.mem_cons_of_mem _ ht)) ⟨t, ht, hlt⟩
      omega

end Room

/-! ## References -/

def slash : CodePoint := ch '/'

def joined (segments : List Str) : Str := [slash].intercalate segments

/-- A reference without its fragment. -/
structure Reference where
  path : Str
  query : Option Str

def reference (url : Str) : Reference :=
  let sent := url.takeWhile (· ≠ ch '#')
  ⟨sent.takeWhile (· ≠ ch '?'),
    if ch '?' ∈ sent then some ((sent.dropWhile (· ≠ ch '?')).drop 1) else none⟩

structure Target where
  path : List Str
  query : Option Str
  deriving DecidableEq

/-- A reference that starts with a slash is put after the path of the base. -/
def target (base : List Str) (url : Str) : Target :=
  ⟨resolve (base ++ ((reference url).path.dropWhile (· = slash)).splitOn slash), (reference url).query⟩

/-- A text that can be a segment of its own. -/
structure Plain (s : Str) : Prop where
  slash : slash ∉ s
  query : ch '?' ∉ s
  fragment : ch '#' ∉ s
  dot : isDot s = false
  escape : hasEscape s = false

instance : DecidablePred Plain := fun s =>
  decidable_of_iff (UrlSegments.slash ∉ s ∧ ch '?' ∉ s ∧ ch '#' ∉ s ∧ isDot s = false ∧
    hasEscape s = false) ⟨fun h => ⟨h.1, h.2.1, h.2.2.1, h.2.2.2.1, h.2.2.2.2⟩,
      fun h => ⟨h.slash, h.query, h.fragment, h.dot, h.escape⟩⟩

/-- The path of the target is the one of the base followed by the texts as its segments. -/
def Spells (base texts : List Str) (t : Target) : Prop :=
  t.path.map octets = base.map octets ++ texts.map utf8

instance (base texts : List Str) : DecidablePred (Spells base texts) := fun _ =>
  inferInstanceAs (Decidable (_ = _))

/-- The target is such a path with a given query, and nothing else. -/
structure Addresses (base texts : List Str) (query : Option Str) (t : Target) : Prop where
  path : Spells base texts t
  query : t.query = query

theorem reference_uncut {url : Str} (hq : ch '?' ∉ url) (hf : ch '#' ∉ url) :
    reference url = ⟨url, none⟩ := by
  have hfragment : url.takeWhile (· ≠ ch '#') = url := by
    rw [List.takeWhile_eq_self_iff]
    intro c hc
    simpa using fun h : c = ch '#' => hf (h ▸ hc)
  have hquery : url.takeWhile (· ≠ ch '?') = url := by
    rw [List.takeWhile_eq_self_iff]
    intro c hc
    simpa using fun h : c = ch '?' => hq (h ▸ hc)
  simp only [reference, hfragment, hquery, if_neg hq]

/-- A path is all of its reference only if nothing was cut off. -/
theorem reference_path (url : Str) : ∃ rest, url = (reference url).path ++ rest ∧
    (rest = [] → ch '?' ∉ url ∧ ch '#' ∉ url) := by
  refine ⟨(url.takeWhile (· ≠ ch '#')).dropWhile (· ≠ ch '?') ++ url.dropWhile (· ≠ ch '#'), ?_, ?_⟩
  · change url = (url.takeWhile _).takeWhile _ ++ _
    rw [← List.append_assoc, List.takeWhile_append_dropWhile, List.takeWhile_append_dropWhile]
  · intro h
    obtain ⟨hq, hf⟩ := List.append_eq_nil_iff.mp h
    rw [List.dropWhile_eq_nil_iff] at hq hf
    have hsent : url.takeWhile (· ≠ ch '#') = url := List.takeWhile_eq_self_iff.mpr hf
    rw [hsent] at hq
    exact ⟨fun hmem => by simpa using hq _ hmem, fun hmem => by simpa using hf _ hmem⟩

theorem not_mem_splitOn (s : Str) : ∀ part ∈ s.splitOn slash, slash ∉ part := by
  induction s with
  | nil => simp
  | cons c s ih =>
    rw [List.splitOn_cons_eq_if_modifyHead]
    split_ifs with hc
    · simpa using ih
    · intro part hpart
      obtain ⟨head, tail, hsplit⟩ := List.exists_cons_of_ne_nil (List.splitOn_ne_nil slash s)
      rw [hsplit, List.modifyHead_cons] at hpart
      have hmem : ∀ p ∈ head :: tail, slash ∉ p := hsplit ▸ ih
      rcases List.mem_cons.mp hpart with rfl | hpart
      · rw [List.mem_cons, not_or]
        exact ⟨fun h => hc (by simp [h]), hmem head List.mem_cons_self⟩
      · exact hmem part (List.mem_cons_of_mem _ hpart)

abbrev utf8Room (segments : List Str) : ℕ := room (fun s => (utf8 s).length) segments

theorem joined_cons {segments : List Str} (s : Str) (h : segments ≠ []) :
    joined (s :: segments) = s ++ slash :: joined segments := by
  obtain ⟨t, segments, rfl⟩ := List.exists_cons_of_ne_nil h
  simp [joined, List.intercalate]

theorem room_joined {segments : List Str} (h : segments ≠ []) :
    utf8Room segments = (utf8 (joined segments)).length + 1 := by
  induction segments with
  | nil => exact absurd rfl h
  | cons s segments ih =>
    by_cases hne : segments = []
    · subst hne
      simp [joined, List.intercalate]
    · have hslash : (utf8Units slash).length = 1 := by decide
      have hrest : room (fun s => (utf8 s).length) segments = _ := ih hne
      rw [joined_cons s hne, utf8_append, utf8_cons, List.length_append, List.length_append, utf8Room,
        room_cons]
      omega

/-- What is cut off takes room. -/
theorem path_room (url : Str) : (utf8 (reference url).path).length ≤ (utf8 url).length ∧
    ((utf8 (reference url).path).length = (utf8 url).length → ch '?' ∉ url ∧ ch '#' ∉ url) := by
  obtain ⟨rest, hurl, hrest⟩ := reference_path url
  have hlen : (utf8 url).length = (utf8 (reference url).path).length + (utf8 rest).length := by
    rw [← List.length_append, ← utf8_append, ← hurl]
  refine ⟨by omega, fun heq => hrest ?_⟩
  by_contra hne
  have hpos := length_utf8_pos hne
  omega

theorem mem_joined {segments : List Str} {s : Str} (hs : s ∈ segments) {c : CodePoint} (hc : c ∈ s) :
    c ∈ joined segments := by
  induction segments with
  | nil => cases hs
  | cons t segments ih =>
    by_cases hne : segments = []
    · subst hne
      obtain rfl := List.mem_singleton.mp hs
      simpa [joined, List.intercalate] using hc
    · rw [joined_cons t hne, List.mem_append, List.mem_cons]
      rcases List.mem_cons.mp hs with rfl | hs
      · exact Or.inl hc
      · exact Or.inr (Or.inr (ih hs))

theorem of_mem_joined {segments : List Str} {c : CodePoint} (hc : c ∈ joined segments) :
    c = slash ∨ ∃ s ∈ segments, c ∈ s := by
  induction segments with
  | nil => cases hc
  | cons t segments ih =>
    by_cases hne : segments = []
    · subst hne
      exact Or.inr ⟨t, List.mem_cons_self, by simpa [joined, List.intercalate] using hc⟩
    · rw [joined_cons t hne, List.mem_append, List.mem_cons] at hc
      rcases hc with hc | hc | hc
      · exact Or.inr ⟨t, List.mem_cons_self, hc⟩
      · exact Or.inl hc
      · obtain h | ⟨s, hs, hcs⟩ := ih hc
        · exact Or.inl h
        · exact Or.inr ⟨s, List.mem_cons_of_mem _ hs, hcs⟩

/-- The texts begin with one that is neither empty nor begins with a slash. -/
def Opens (texts : List Str) : Prop := ∃ c s rest, texts = (c :: s) :: rest ∧ c ≠ slash

theorem joined_opens {texts : List Str} (h : Opens texts) :
    ∃ c s, joined texts = c :: s ∧ c ≠ slash := by
  obtain ⟨c, s, rest, rfl, hc⟩ := h
  by_cases hrest : rest = []
  · exact ⟨c, s, by simp [hrest, joined, List.intercalate], hc⟩
  · exact ⟨c, s ++ slash :: joined rest, by rw [joined_cons _ hrest, List.cons_append], hc⟩

/-- The path after the slash that it begins with. -/
theorem path_tail {texts : List Str} (h : Opens texts) :
    ∃ p, (reference (slash :: joined texts)).path = slash :: p ∧ p.dropWhile (· = slash) = p := by
  obtain ⟨c, s, hjoined, hc⟩ := joined_opens h
  have hq : slash ≠ ch '?' := by decide
  have hf : slash ≠ ch '#' := by decide
  refine ⟨(((joined texts).takeWhile (· ≠ ch '#')).takeWhile (· ≠ ch '?')), ?_, ?_⟩
  · simp [reference, hq, hf]
  · rw [hjoined, List.takeWhile_cons]
    split_ifs with h₁
    · rw [List.takeWhile_cons]
      split_ifs with h₂
      · rw [List.dropWhile_cons, if_neg (by simpa using hc)]
      · rfl
    · rfl

/-- A reference whose texts are plain addresses them. -/
theorem addresses_of_plain {base texts : List Str} (hbase : ∀ s ∈ base, isDot s = false)
    (hopens : Opens texts) (hplain : ∀ s ∈ texts, Plain s) :
    Addresses base texts none (target base (slash :: joined texts)) := by
  have hne : texts ≠ [] := by
    obtain ⟨c, s, rest, rfl, -⟩ := hopens
    exact List.cons_ne_nil _ _
  have hin : ∀ c, c ≠ slash → (∀ s ∈ texts, c ∉ s) → c ∉ slash :: joined texts := by
    intro c hc hnot hmem
    rcases List.mem_cons.mp hmem with rfl | hmem
    · exact hc rfl
    · obtain h | ⟨s, hs, hcs⟩ := of_mem_joined hmem
      · exact hc h
      · exact hnot s hs hcs
  have huncut : reference (slash :: joined texts) = ⟨slash :: joined texts, none⟩ :=
    reference_uncut (hin _ (by decide) fun s hs => (hplain s hs).query)
      (hin _ (by decide) fun s hs => (hplain s hs).fragment)
  obtain ⟨p, hp, hdrop⟩ := path_tail hopens
  rw [huncut] at hp
  obtain rfl : joined texts = p := (List.cons.inj hp).2
  have hsplit : (joined texts).splitOn slash = texts :=
    List.splitOn_intercalate slash (fun s hs => (hplain s hs).slash) hne
  have hdots : ∀ s ∈ base ++ texts, isDot s = false := by
    intro s hs
    rcases List.mem_append.mp hs with hs | hs
    · exact hbase s hs
    · exact (hplain s hs).dot
  have htarget : target base (slash :: joined texts) = ⟨base ++ texts, none⟩ := by
    rw [target, huncut]
    simp only [List.dropWhile_cons, decide_true, if_true, hdrop, hsplit, resolve_undotted hdots]
  rw [htarget]
  refine ⟨?_, rfl⟩
  rw [Spells, List.map_append, List.map_congr_left fun s hs => octets_of_unescaped (hplain s hs).escape]

/-- The texts that a reference spells are plain, whatever its query. -/
theorem plain_of_spells {base texts : List Str} (hopens : Opens texts)
    (h : Spells base texts (target base (slash :: joined texts))) : ∀ s ∈ texts, Plain s := by
  obtain ⟨p, hp, hdrop⟩ := path_tail hopens
  have hne : texts ≠ [] := by
    obtain ⟨c, s, rest, rfl, -⟩ := hopens
    exact List.cons_ne_nil _ _
  have hpath : (target base (slash :: joined texts)).path = resolve (base ++ p.splitOn slash) := by
    rw [target, hp]
    simp only [List.dropWhile_cons, decide_true, if_true, hdrop]
  have haddr : (resolve (base ++ p.splitOn slash)).map octets = base.map octets ++ texts.map utf8 := by
    rw [← hpath]
    exact h
  -- the room of the path on its way from the texts to the target
  have hroom : room (fun s => (octets s).length) (resolve (base ++ p.splitOn slash)) =
      room (fun s => (octets s).length) base + utf8Room texts := by
    have hlens := congrArg (fun l : List (List ℕ) => (l.map fun o => o.length + 1).sum) haddr
    simpa [room, List.map_map, Function.comp_def] using hlens
  have hresolved := room_foldl_le (f := fun s => (octets s).length) (base ++ p.splitOn slash) []
  have hunescaped : room (fun s => (octets s).length) (p.splitOn slash) ≤ utf8Room (p.splitOn slash) :=
    room_mono fun s _ => length_octets_le s
  have hsplit : utf8Room (p.splitOn slash) = (utf8 p).length + 1 := by
    rw [room_joined (List.splitOn_ne_nil _ _), joined, List.intercalate_splitOn]
  have htexts := room_joined hne
  obtain ⟨hle, hcut⟩ := path_room (slash :: joined texts)
  rw [hp, utf8_cons, utf8_cons, List.length_append, List.length_append] at hle hcut
  rw [room_nil, room_append] at hresolved
  change room _ (resolve _) ≤ _ at hresolved
  -- nothing was lost, so nothing was cut, unescaped or resolved
  obtain ⟨hquery, hfragment⟩ := hcut (by omega)
  have hescape : ∀ s ∈ p.splitOn slash, hasEscape s = false := by
    intro s hs
    by_contra hesc
    have hlt : room (fun s => (octets s).length) (p.splitOn slash) < utf8Room (p.splitOn slash) :=
      room_strict (fun s _ => length_octets_le s) ⟨s, hs, length_octets_lt (by simpa using hesc)⟩
    omega
  have hdot : ∀ s ∈ base ++ p.splitOn slash, isDot s = false := by
    intro s hs
    by_contra hd
    have hlt := room_foldl_lt (f := fun s => (octets s).length) ⟨s, hs, by simpa using hd⟩ []
    rw [room_nil, room_append] at hlt
    change room _ (resolve _) < _ at hlt
    omega
  rw [resolve_undotted hdot, List.map_append, List.append_cancel_left_eq,
    List.map_congr_left fun s hs => octets_of_unescaped (hescape s hs)] at haddr
  obtain rfl : p.splitOn slash = texts :=
    List.map_injective_iff.mpr (fun s t hst => utf8_flatMap_injective hst) haddr
  intro s hs
  refine ⟨not_mem_splitOn p s hs, fun hmem => hquery ?_, fun hmem => hfragment ?_,
    hdot s (List.mem_append_right _ hs), hescape s hs⟩
  · exact List.mem_cons_of_mem _ (mem_joined hs hmem)
  · exact List.mem_cons_of_mem _ (mem_joined hs hmem)

theorem addresses_iff {base texts : List Str} (hbase : ∀ s ∈ base, isDot s = false)
    (hopens : Opens texts) :
    Addresses base texts none (target base (slash :: joined texts)) ↔ ∀ s ∈ texts, Plain s :=
  ⟨fun h => plain_of_spells hopens h.path, addresses_of_plain hbase hopens⟩

/-- With another query in place of its own, a reference still addresses plain texts only. -/
theorem addresses_replaced_iff {base texts : List Str} (hbase : ∀ s ∈ base, isDot s = false)
    (hopens : Opens texts) (query : Option Str) :
    Addresses base texts query { target base (slash :: joined texts) with query := query } ↔
      ∀ s ∈ texts, Plain s :=
  ⟨fun h => plain_of_spells hopens h.path,
    fun h => ⟨(addresses_of_plain hbase hopens h).path, rfl⟩⟩

/-- Two lists of texts that one path spells are the same. -/
theorem spells_inj {base texts texts' : List Str} {t t' : Target}
    (h : Spells base texts t) (h' : Spells base texts' t')
    (heq : t.path.map octets = t'.path.map octets) : texts = texts' := by
  rw [h, h', List.append_cancel_left_eq] at heq
  exact List.map_injective_iff.mpr (fun s t hst => utf8_flatMap_injective hst) heq

end UrlSegments
