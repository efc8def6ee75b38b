import McpControlPlane.JsonText

/-! # JSON objects as Python dicts

Keys are distinct and keep the place of their first setting. Reading a text makes dicts of
its objects, and `sort_keys` writes the members in the order of the keys' code points. -/
namespace JsonDict

open PyText JsonText

variable {ν μ α β : Type}

def keys (kvs : List (Str × α)) : List Str := kvs.map Prod.fst

/-- `d[k] = x`: an old key keeps its place. -/
def dictSet (k : Str) (x : α) : List (Str × α) → List (Str × α)
  | [] => [(k, x)]
  | (k', y) :: kvs => if k' = k then (k', x) :: kvs else (k', y) :: dictSet k x kvs

def dictOf (kvs : List (Str × α)) : List (Str × α) :=
  kvs.foldl (fun d kv => dictSet kv.1 kv.2 d) []

/-- `d.get(k)`. -/
def dictGet (k : Str) : List (Str × α) → Option α
  | [] => none
  | (k', y) :: kvs => if k' = k then some y else dictGet k kvs

theorem keys_dictSet (k : Str) (x : α) (kvs : List (Str × α)) :
    keys (dictSet k x kvs) = if k ∈ keys kvs then keys kvs else keys kvs ++ [k] := by
  induction kvs with
  | nil => simp [dictSet, keys]
  | cons kv kvs ih =>
    obtain ⟨k', y⟩ := kv
    by_cases h : k' = k
    · simp [dictSet, keys, h]
    · have hne : ¬ k = k' := fun e => h e.symm
      simp only [dictSet, h, if_false]
      simp only [keys, List.map_cons, List.mem_cons, hne, false_or] at ih ⊢
      rw [ih]
      by_cases hm : k ∈ List.map Prod.fst kvs <;> simp [hm]

theorem nodup_dictSet {k : Str} {x : α} {kvs : List (Str × α)} (h : (keys kvs).Nodup) :
    (keys (dictSet k x kvs)).Nodup := by
  rw [keys_dictSet]
  split_ifs with hk
  · exact h
  · exact List.Nodup.append h (List.nodup_singleton k) (by simpa using hk)

theorem dictSet_new {k : Str} {x : α} {kvs : List (Str × α)} (h : k ∉ keys kvs) :
    dictSet k x kvs = kvs ++ [(k, x)] := by
  induction kvs with
  | nil => rfl
  | cons kv kvs ih =>
    obtain ⟨k', y⟩ := kv
    simp only [keys, List.map_cons, List.mem_cons, not_or] at h
    rw [dictSet, if_neg (fun e => h.1 e.symm), ih h.2, List.cons_append]

theorem nodup_dictOf (kvs : List (Str × α)) : (keys (dictOf kvs)).Nodup := by
  have gen : ∀ (kvs d : List (Str × α)), (keys d).Nodup →
      (keys (kvs.foldl (fun d kv => dictSet kv.1 kv.2 d) d)).Nodup := by
    intro kvs
    induction kvs with
    | nil => exact fun d h => h
    | cons kv kvs ih => exact fun d h => ih _ (nodup_dictSet h)
  exact gen kvs [] List.nodup_nil

theorem dictOf_of_nodup {kvs : List (Str × α)} (h : (keys kvs).Nodup) : dictOf kvs = kvs := by
  have gen : ∀ (kvs d : List (Str × α)), (keys (d ++ kvs)).Nodup →
      kvs.foldl (fun d kv => dictSet kv.1 kv.2 d) d = d ++ kvs := by
    intro kvs
    induction kvs with
    | nil => simp
    | cons kv kvs ih =>
      intro d hd
      have hnew : kv.1 ∉ keys d := by
        simp only [keys, List.map_append, List.map_cons] at hd
        exact fun hm => (List.nodup_append.mp hd).2.2 _ hm _ (by simp) rfl
      rw [List.foldl_cons, dictSet_new hnew, ih _ (by simpa [keys] using hd)]
      simp
  simpa [dictOf] using gen kvs [] (by simpa using h)

theorem dictGet_mem {k : Str} {x : α} {kvs : List (Str × α)} (h : dictGet k kvs = some x) :
    (k, x) ∈ kvs := by
  induction kvs with
  | nil => simp [dictGet] at h
  | cons kv kvs ih =>
    obtain ⟨k', y⟩ := kv
    rw [dictGet] at h
    split_ifs at h with hk
    · simp [hk, Option.some.inj h]
    · exact List.mem_cons_of_mem _ (ih h)

theorem dictGet_dictSet (k k' : Str) (x : α) (kvs : List (Str × α)) :
    dictGet k (dictSet k' x kvs) = if k' = k then some x else dictGet k kvs := by
  induction kvs with
  | nil => simp [dictSet, dictGet]
  | cons p kvs ih =>
    obtain ⟨k₀, y⟩ := p
    simp only [dictSet]
    by_cases h₀ : k₀ = k'
    · subst h₀
      by_cases hk : k₀ = k <;> simp [dictGet, hk]
    · simp only [h₀, if_false, dictGet, ih]
      by_cases hk : k₀ = k
      · subst hk
        simp [Ne.symm h₀]
      · simp [hk]

/-! ## Objects of a tree -/

mutual

/-- Makes a dict of every object: the last value of a key wins. -/
def dictify : JsonTree ν → JsonTree ν
  | .null => .null
  | .bool b => .bool b
  | .num x => .num x
  | .str s => .str s
  | .arr xs => .arr (dictifyItems xs)
  | .obj kvs => .obj (dictOf (dictifyMembers kvs))

def dictifyItems : List (JsonTree ν) → List (JsonTree ν)
  | [] => []
  | x :: xs => dictify x :: dictifyItems xs

def dictifyMembers : List (Str × JsonTree ν) → List (Str × JsonTree ν)
  | [] => []
  | (k, x) :: kvs => (k, dictify x) :: dictifyMembers kvs

end

mutual

/-- What holds of every Python value: no dict has a key twice. -/
def Distinct : JsonTree ν → Prop
  | .arr xs => DistinctItems xs
  | .obj kvs => (keys kvs).Nodup ∧ DistinctMembers kvs
  | _ => True

def DistinctItems : List (JsonTree ν) → Prop
  | [] => True
  | x :: xs => Distinct x ∧ DistinctItems xs

def DistinctMembers : List (Str × JsonTree ν) → Prop
  | [] => True
  | (_, x) :: kvs => Distinct x ∧ DistinctMembers kvs

end

mutual

/-- All strings, the keys included. -/
def AllStrs (P : Str → Prop) : JsonTree ν → Prop
  | .str s => P s
  | .arr xs => AllStrsItems P xs
  | .obj kvs => AllStrsMembers P kvs
  | _ => True

def AllStrsItems (P : Str → Prop) : List (JsonTree ν) → Prop
  | [] => True
  | x :: xs => AllStrs P x ∧ AllStrsItems P xs

def AllStrsMembers (P : Str → Prop) : List (Str × JsonTree ν) → Prop
  | [] => True
  | (k, x) :: kvs => P k ∧ AllStrs P x ∧ AllStrsMembers P kvs

end

theorem distinctMembers_iff (kvs : List (Str × JsonTree ν)) :
    DistinctMembers kvs ↔ ∀ kv ∈ kvs, Distinct kv.2 := by
  induction kvs with
  | nil => simp [DistinctMembers]
  | cons kv kvs ih =>
    obtain ⟨k, x⟩ := kv
    simp [DistinctMembers, ih]

theorem mem_dictSet {k : Str} {x : α} {kvs : List (Str × α)} {p : Str × α}
    (h : p ∈ dictSet k x kvs) : p = (k, x) ∨ p ∈ kvs := by
  induction kvs with
  | nil => exact Or.inl (List.mem_singleton.mp h)
  | cons kv kvs ih =>
    obtain ⟨k', y⟩ := kv
    rw [dictSet] at h
    split_ifs at h with hk
    · rcases List.mem_cons.mp h with rfl | h
      · exact Or.inl (by rw [hk])
      · exact Or.inr (List.mem_cons_of_mem _ h)
    · rcases List.mem_cons.mp h with rfl | h
      · exact Or.inr (List.mem_cons_self ..)
      · exact (ih h).imp_right (List.mem_cons_of_mem _)

theorem mem_dictOf {kvs : List (Str × α)} {p : Str × α} (h : p ∈ dictOf kvs) : p ∈ kvs := by
  have gen : ∀ (kvs d : List (Str × α)), p ∈ kvs.foldl (fun d kv => dictSet kv.1 kv.2 d) d →
      p ∈ kvs ∨ p ∈ d := by
    intro kvs
    induction kvs with
    | nil => exact fun d h => Or.inr h
    | cons kv kvs ih =>
      intro d hd
      rcases ih _ hd with hp | hd
      · exact Or.inl (List.mem_cons_of_mem _ hp)
      · rcases mem_dictSet hd with rfl | hd
        · exact Or.inl (List.mem_cons_self ..)
        · exact Or.inr hd
  exact (gen kvs [] h).resolve_right (by simp)

mutual

/-- Whatever is read is made of dicts. -/
theorem dictify_distinct : ∀ t : JsonTree ν, Distinct (dictify t)
  | .null | .bool _ | .num _ | .str _ => trivial
  | .arr xs => dictifyItems_distinct xs
  | .obj kvs => by
    refine ⟨nodup_dictOf _, (distinctMembers_iff _).mpr ?_⟩
    exact fun kv hkv =>
      (distinctMembers_iff _).mp (dictifyMembers_distinct kvs) kv (mem_dictOf hkv)

theorem dictifyItems_distinct : ∀ xs : List (JsonTree ν), DistinctItems (dictifyItems xs)
  | [] => trivial
  | x :: xs => ⟨dictify_distinct x, dictifyItems_distinct xs⟩

theorem dictifyMembers_distinct : ∀ kvs : List (Str × JsonTree ν),
    DistinctMembers (dictifyMembers kvs)
  | [] => trivial
  | (_, x) :: kvs => ⟨dictify_distinct x, dictifyMembers_distinct kvs⟩

end

mutual

theorem dictify_of_distinct : ∀ t : JsonTree ν, Distinct t → dictify t = t
  | .null, _ | .bool _, _ | .num _, _ | .str _, _ => rfl
  | .arr xs, h => by
    rw [dictify, dictifyItems_of_distinct xs h]
  | .obj kvs, h => by
    rw [dictify, dictifyMembers_of_distinct kvs h.2, dictOf_of_nodup h.1]

theorem dictifyItems_of_distinct : ∀ xs : List (JsonTree ν), DistinctItems xs →
    dictifyItems xs = xs
  | [], _ => rfl
  | x :: xs, h => by
    rw [dictifyItems, dictify_of_distinct x h.1, dictifyItems_of_distinct xs h.2]

theorem dictifyMembers_of_distinct : ∀ kvs : List (Str × JsonTree ν), DistinctMembers kvs →
    dictifyMembers kvs = kvs
  | [], _ => rfl
  | (k, x) :: kvs, h => by
    rw [dictifyMembers, dictify_of_distinct x h.1, dictifyMembers_of_distinct kvs h.2]

end

mutual

theorem map_eq_self {g : Str → Str} {f : ν → ν} : ∀ t : JsonTree ν,
    AllStrs (fun s => g s = s) t → t.AllNums (fun x => f x = x) → t.map g f = t
  | .null, _, _ | .bool _, _, _ => rfl
  | .num x, _, hn => by
    rw [JsonTree.AllNums] at hn
    rw [JsonTree.map, hn]
  | .str s, hs, _ => by
    rw [AllStrs] at hs
    rw [JsonTree.map, hs]
  | .arr xs, hs, hn => by
    rw [JsonTree.map, mapItems_eq_self xs hs hn]
  | .obj kvs, hs, hn => by
    rw [JsonTree.map, mapMembers_eq_self kvs hs hn]

theorem mapItems_eq_self {g : Str → Str} {f : ν → ν} : ∀ xs : List (JsonTree ν),
    AllStrsItems (fun s => g s = s) xs → AllNumsItems (fun x => f x = x) xs → mapItems g f xs = xs
  | [], _, _ => rfl
  | x :: xs, hs, hn => by
    rw [mapItems, map_eq_self x hs.1 hn.1, mapItems_eq_self xs hs.2 hn.2]

theorem mapMembers_eq_self {g : Str → Str} {f : ν → ν} : ∀ kvs : List (Str × JsonTree ν),
    AllStrsMembers (fun s => g s = s) kvs → AllNumsMembers (fun x => f x = x) kvs →
    mapMembers g f kvs = kvs
  | [], _, _ => rfl
  | (k, x) :: kvs, hs, hn => by
    rw [mapMembers, hs.1, map_eq_self x hs.2.1 hn.1, mapMembers_eq_self kvs hs.2.2 hn.2]

end

mutual

theorem AllStrs.imp {P Q : Str → Prop} (h : ∀ s, P s → Q s) : ∀ t : JsonTree ν,
    AllStrs P t → AllStrs Q t
  | .null, _ | .bool _, _ | .num _, _ => trivial
  | .str s, hs => h s hs
  | .arr xs, hs => AllStrsItems.imp h xs hs
  | .obj kvs, hs => AllStrsMembers.imp h kvs hs

theorem AllStrsItems.imp {P Q : Str → Prop} (h : ∀ s, P s → Q s) : ∀ xs : List (JsonTree ν),
    AllStrsItems P xs → AllStrsItems Q xs
  | [], _ => trivial
  | x :: xs, hs => ⟨AllStrs.imp h x hs.1, AllStrsItems.imp h xs hs.2⟩

theorem AllStrsMembers.imp {P Q : Str → Prop} (h : ∀ s, P s → Q s) :
    ∀ kvs : List (Str × JsonTree ν), AllStrsMembers P kvs → AllStrsMembers Q kvs
  | [], _ => trivial
  | (k, x) :: kvs, hs => ⟨h k hs.1, AllStrs.imp h x hs.2.1, AllStrsMembers.imp h kvs hs.2.2⟩

end

/-! ## `sort_keys` -/

def keyLe (p q : Str × α) : Prop := p.1 ≤ q.1

instance (p q : Str × α) : Decidable (keyLe p q) := inferInstanceAs (Decidable (p.1 ≤ q.1))

def sortByKey (kvs : List (Str × α)) : List (Str × α) := kvs.insertionSort keyLe

mutual

def sortKeys : JsonTree ν → JsonTree ν
  | .null => .null
  | .bool b => .bool b
  | .num x => .num x
  | .str s => .str s
  | .arr xs => .arr (sortKeysItems xs)
  | .obj kvs => .obj (sortByKey (sortKeysMembers kvs))

def sortKeysItems : List (JsonTree ν) → List (JsonTree ν)
  | [] => []
  | x :: xs => sortKeys x :: sortKeysItems xs

def sortKeysMembers : List (Str × JsonTree ν) → List (Str × JsonTree ν)
  | [] => []
  | (k, x) :: kvs => (k, sortKeys x) :: sortKeysMembers kvs

end

/-! ### Sorting after the keys were replaced -/

instance : Std.Total (keyLe (α := α)) := ⟨fun p q => le_total p.1 q.1⟩

instance : IsTrans (Str × α) keyLe := ⟨fun _ _ _ h h' => le_trans (α := Str) h h'⟩

theorem sortByKey_perm (l : List (Str × α)) : (sortByKey l).Perm l := List.perm_insertionSort ..

theorem mem_sortByKey {l : List (Str × α)} {p : Str × α} : p ∈ sortByKey l ↔ p ∈ l :=
  (sortByKey_perm l).mem_iff

theorem keys_perm {l m : List (Str × α)} (h : l.Perm m) : (keys l).Perm (keys m) := h.map _

theorem eq_of_key_eq {l : List (Str × α)} (h : (keys l).Nodup) {p q : Str × α} (hp : p ∈ l)
    (hq : q ∈ l) (hk : p.1 = q.1) : p = q := List.inj_on_of_nodup_map h hp hq hk

theorem sortByKey_strict {l : List (Str × α)} (h : (keys l).Nodup) :
    (sortByKey l).Pairwise fun p q => p.1 < q.1 := by
  have hsorted : (sortByKey l).Pairwise keyLe := List.pairwise_insertionSort ..
  have hnodup : (sortByKey l).Pairwise fun p q => p.1 ≠ q.1 :=
    List.pairwise_map.mp ((keys_perm (sortByKey_perm l)).nodup_iff.mpr h)
  exact (hsorted.and hnodup).imp fun ⟨hle, hne⟩ => lt_of_le_of_ne (α := Str) hle hne

/-- With distinct keys the order of the members does not matter. -/
theorem sortByKey_congr {l m : List (Str × α)} (hp : l.Perm m) (h : (keys l).Nodup) :
    sortByKey l = sortByKey m := by
  have hl : (sortByKey l).Pairwise keyLe := List.pairwise_insertionSort ..
  have hm : (sortByKey m).Pairwise keyLe := List.pairwise_insertionSort ..
  refine List.Perm.eq_of_pairwise (fun p q hpl hqm hpq hqp => ?_) hl hm
    ((sortByKey_perm l).trans (hp.trans (sortByKey_perm m).symm))
  refine eq_of_key_eq h (mem_sortByKey.mp hpl) (hp.mem_iff.mpr (mem_sortByKey.mp hqm)) ?_
  exact le_antisymm (α := Str) hpq hqp

/-- Replaces the keys and the values. -/
def mapMembersOf (g : Str → Str) (F : α → β) (l : List (Str × α)) : List (Str × β) :=
  l.map fun p => (g p.1, F p.2)

theorem keys_mapMembersOf (g : Str → Str) (F : α → β) (l : List (Str × α)) :
    keys (mapMembersOf g F l) = (keys l).map g := by
  simp [keys, mapMembersOf]

theorem mapMembersOf_comp {γ : Type} (g g' : Str → Str) (F : α → β) (G : β → γ)
    (l : List (Str × α)) :
    mapMembersOf g' G (mapMembersOf g F l) = mapMembersOf (g' ∘ g) (G ∘ F) l := by
  simp [mapMembersOf]

theorem mapMembersOf_dictSet (F : α → β) (k : Str) (x : α) (l : List (Str × α)) :
    mapMembersOf id F (dictSet k x l) = dictSet k (F x) (mapMembersOf id F l) := by
  induction l with
  | nil => rfl
  | cons p l ih =>
    obtain ⟨k', y⟩ := p
    simp only [mapMembersOf, id_eq] at ih
    by_cases h : k' = k
    · simp [dictSet, mapMembersOf, h]
    · simp [dictSet, mapMembersOf, h, ih]

theorem mapMembersOf_dictOf (F : α → β) (l : List (Str × α)) :
    mapMembersOf id F (dictOf l) = dictOf (mapMembersOf id F l) := by
  have gen : ∀ l d : List (Str × α),
      mapMembersOf id F (l.foldl (fun d kv => dictSet kv.1 kv.2 d) d) =
        (mapMembersOf id F l).foldl (fun d kv => dictSet kv.1 kv.2 d) (mapMembersOf id F d) := by
    intro l
    induction l with
    | nil => exact fun d => rfl
    | cons p l ih =>
      intro d
      rw [List.foldl_cons, ih, mapMembersOf_dictSet]
      rfl
  exact gen l []

/-- `g` keeps the strict order of the keys. -/
def KeepsOrder (g : Str → Str) (ks : List Str) : Prop :=
  ∀ k ∈ ks, ∀ k' ∈ ks, k < k' → g k < g k'

instance (g : Str → Str) (ks : List Str) : Decidable (KeepsOrder g ks) :=
  inferInstanceAs (Decidable (∀ k ∈ ks, ∀ k' ∈ ks, k < k' → g k < g k'))

theorem KeepsOrder.injOn {g : Str → Str} {ks : List Str} (h : KeepsOrder g ks) {k k' : Str}
    (hk : k ∈ ks) (hk' : k' ∈ ks) (heq : g k = g k') : k = k' := by
  rcases lt_trichotomy k k' with hlt | rfl | hlt
  · exact absurd heq (h k hk k' hk' hlt).ne
  · rfl
  · exact absurd heq (h k' hk' k hk hlt).ne'

theorem KeepsOrder.le_iff {g : Str → Str} {ks : List Str} (h : KeepsOrder g ks) {k k' : Str}
    (hk : k ∈ ks) (hk' : k' ∈ ks) : k ≤ k' ↔ g k ≤ g k' := by
  constructor
  · intro hle
    rcases lt_or_eq_of_le hle with hlt | rfl
    · exact (h k hk k' hk' hlt).le
    · exact le_rfl
  · intro hle
    by_contra hnot
    exact absurd hle (not_le_of_gt (h k' hk' k hk (lt_of_not_ge hnot)))

theorem KeepsOrder.nodup {g : Str → Str} {ks : List Str} (h : KeepsOrder g ks) (hd : ks.Nodup) :
    (ks.map g).Nodup := hd.map_on fun _ hk _ hk' heq => h.injOn hk hk' heq

/-- Then sorting comes to the same before and after. -/
theorem mapMembersOf_sortByKey {g : Str → Str} (F : α → β) {l : List (Str × α)}
    (h : KeepsOrder g (keys l)) :
    mapMembersOf g F (sortByKey l) = sortByKey (mapMembersOf g F l) :=
  List.map_insertionSort _ _ _ _ fun _ hp _ hq =>
    h.le_iff (List.mem_map_of_mem hp) (List.mem_map_of_mem hq)

theorem keepsOrder_id (ks : List Str) : KeepsOrder id ks := fun _ _ _ _ h => h

/-- If sorting comes to the same, the order was kept. -/
theorem keepsOrder_of_sorted {g : Str → Str} {l : List (Str × α)} (hd : (keys l).Nodup)
    (hs : (mapMembersOf g id (sortByKey l)).Pairwise fun p q => p.1 < q.1) :
    KeepsOrder g (keys l) := by
  have hboth := (sortByKey_strict hd).and (List.pairwise_map.mp hs)
  intro k hk k' hk' hlt
  obtain ⟨p, hp, rfl⟩ := List.mem_map.mp hk
  obtain ⟨q, hq, rfl⟩ := List.mem_map.mp hk'
  obtain ⟨as, bs, hsplit⟩ := List.append_of_mem (mem_sortByKey.mpr hp)
  rw [hsplit] at hboth
  have hq' : q ∈ as ++ p :: bs := hsplit ▸ mem_sortByKey.mpr hq
  obtain ⟨-, hright, hleft⟩ := List.pairwise_append.mp hboth
  rcases List.mem_append.mp hq' with hqa | hqb
  · exact absurd hlt (not_lt_of_gt (hleft q hqa p (by simp)).1)
  rcases List.mem_cons.mp hqb with rfl | hqb
  · exact absurd hlt (lt_irrefl _)
  · exact ((List.pairwise_cons.mp hright).1 q hqb).2

/-- A dict whose keys are replaced, sorted afterwards, is the sorted dict with its keys
replaced, exactly if the replacement keeps the order of the keys. -/
theorem sort_replaced_iff {g : Str → Str} {F G : α → β} {l : List (Str × α)}
    (hd : (keys l).Nodup) :
    sortByKey (dictOf (mapMembersOf g F l)) =
        mapMembersOf g id (sortByKey (mapMembersOf id G l)) ↔
      KeepsOrder g (keys l) ∧ ∀ p ∈ l, F p.2 = G p.2 := by
  have hkeys : ∀ H : α → β, keys (mapMembersOf id H l) = keys l := fun H => by
    rw [keys_mapMembersOf, List.map_id]
  have hsame : ∀ H : α → β, KeepsOrder g (keys l) → sortByKey (dictOf (mapMembersOf g H l)) =
      mapMembersOf g id (sortByKey (mapMembersOf id H l)) := by
    intro H hk
    rw [mapMembersOf_sortByKey id (by rwa [hkeys]), mapMembersOf_comp, dictOf_of_nodup]
    · rfl
    · rw [keys_mapMembersOf]
      exact hk.nodup hd
  constructor
  · intro h
    have hk : KeepsOrder g (keys l) := by
      rw [← hkeys G]
      refine keepsOrder_of_sorted (by rwa [hkeys]) ?_
      rw [← h]
      exact sortByKey_strict (nodup_dictOf _)
    refine ⟨hk, fun p hp => ?_⟩
    -- the replaced keys are distinct, so the two sorted dicts agree member by member
    rw [hsame F hk] at h
    have hmem : (g p.1, F p.2) ∈ mapMembersOf g id (sortByKey (mapMembersOf id F l)) :=
      List.mem_map.mpr ⟨(p.1, F p.2), mem_sortByKey.mpr (List.mem_map.mpr ⟨p, hp, rfl⟩), rfl⟩
    rw [h] at hmem
    obtain ⟨r, hr, heq⟩ := List.mem_map.mp hmem
    obtain ⟨q, hq, rfl⟩ := List.mem_map.mp (mem_sortByKey.mp hr)
    obtain ⟨hkey, hval⟩ := Prod.mk.inj heq
    have hpq : q = p := eq_of_key_eq hd hq hp
      (hk.injOn (List.mem_map_of_mem hq) (List.mem_map_of_mem hp) hkey)
    rw [hpq] at hval
    exact hval.symm
  · rintro ⟨hk, hval⟩
    have hFG : mapMembersOf id F l = mapMembersOf id G l :=
      List.map_congr_left fun p hp => by rw [hval p hp]
    rw [hsame F hk, hFG]

end JsonDict
