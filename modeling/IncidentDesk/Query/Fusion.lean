import IncidentDesk.Pagination
import Mathlib.Algebra.BigOperators.Group.List.Basic
import Mathlib.Algebra.Order.BigOperators.Group.List
import Mathlib.Algebra.Order.Field.Basic
import Mathlib.Algebra.Order.Ring.Rat
import Mathlib.Data.Finset.Card
import Mathlib.Data.Prod.Lex
import Mathlib.Tactic.Linarith
import Mathlib.Tactic.Positivity

namespace incidentdesk.query

open pagination (sorted sorted_perm sorted_pairwise)

section Model

variable {T κ : Type} [LinearOrder κ] (id : T → κ)

/-- The dictionaries of the fusion: the first hit of each id, and the scores, which are
zero for what has none. -/
structure Fusion (T κ : Type) where
  entities : List (κ × T)
  scores : κ → ℚ

/-- `entities.setdefault(hit.id, hit)`. -/
def setdefault (entities : List (κ × T)) (hit : T) : List (κ × T) :=
  if id hit ∈ entities.map Prod.fst then entities else entities ++ [(id hit, hit)]

/-- The loop over the hits of one list. -/
def fuseHits : List T → List κ → Nat → Fusion T κ → Fusion T κ
  | [], _, _, f => f
  | hit :: hits, seen, rank, f =>
    if id hit ∈ seen then fuseHits hits seen rank f
    else fuseHits hits (id hit :: seen) (rank + 1)
      { entities := setdefault id f.entities hit
        scores := fun key => if key = id hit then f.scores key + 1 / (60 + ((rank + 1 : Nat) : ℚ)) else f.scores key }

def fuse (lists : List (List T)) : Fusion T κ :=
  lists.foldl (fun f hits => fuseHits id hits [] 0 f) { entities := [], scores := fun _ => 0 }

/-- The higher score first, and then the smaller id. -/
def sortKey (scores : κ → ℚ) (key : κ) : ℚᵒᵈ ×ₗ κ := toLex (OrderDual.toDual (scores key), key)

def fuse_ranked (lists : List (List T)) : List T :=
  let f := fuse id lists
  (sorted (sortKey f.scores) (f.entities.map Prod.fst)).filterMap fun key => f.entities.lookup key

/-- The ids of one list before the first place of an id. -/
def before (ids : List κ) (i : κ) : Finset κ := (ids.takeWhile (· ≠ i)).toFinset

/-- The rank of an id among the distinct ids of a list. -/
def rank (ids : List κ) (i : κ) : Nat := (before ids i).card + 1

def share (ids : List κ) (i : κ) : ℚ := if i ∈ ids then 1 / (60 + (rank ids i : ℚ)) else 0

/-- The sum over the lists that have an id. -/
def score (lists : List (List T)) (i : κ) : ℚ := (lists.map fun hits => share (hits.map id) i).sum

/-- A list with further copies of ids that stand before them in it. -/
inductive Copied (hits : List T) : List T → Prop where
  | refl : Copied hits hits
  | copy (first rest : List T) (hit : T) (hcopied : Copied hits (first ++ rest)) (hseen : id hit ∈ first.map id) :
    Copied hits (first ++ hit :: rest)

end Model

variable {T κ : Type} [LinearOrder κ] {id : T → κ} {hits first rest : List T} {lists : List (List T)} {hit : T} {i : κ}
  {f : Fusion T κ}

theorem before_append (ids more : List κ) :
    before (ids ++ more) i = if i ∈ ids then before ids i else ids.toFinset ∪ before more i := by
  induction ids with
  | nil => simp [before]
  | cons j ids ih =>
    by_cases hj : j = i
    · simp [before, hj]
    · have hcons : ∀ l : List κ, before (j :: l) i = insert j (before l i) := by
        intro l
        simp [before, hj]
      rw [List.cons_append, hcons, ih, hcons]
      by_cases hi : i ∈ ids
      · simp [hi]
      · simp [hi, Ne.symm hj]

/-- What one list adds to a score: a share for an id that was not seen before, whose
rank counts what was seen before as well. -/
theorem fuseHits_scores (hits : List T) (seen : List κ) (n : Nat) (f : Fusion T κ) (hn : n = seen.toFinset.card) :
    (fuseHits id hits seen n f).scores i = f.scores i +
      if i ∉ seen ∧ i ∈ hits.map id then
        1 / (60 + (((seen.toFinset ∪ before (hits.map id) i).card + 1 : Nat) : ℚ))
      else 0 := by
  induction hits generalizing seen n f with
  | nil => simp [fuseHits]
  | cons hit hits ih =>
    have hother : i ≠ id hit → before ((hit :: hits).map id) i = insert (id hit) (before (hits.map id) i) := by
      intro hne
      simp [before, Ne.symm hne]
    unfold fuseHits
    by_cases hseen : id hit ∈ seen
    · rw [if_pos hseen, ih seen n f hn]
      congr 1
      by_cases hi : i = id hit
      · simp [hi, hseen]
      · have hunion : seen.toFinset ∪ before ((hit :: hits).map id) i = seen.toFinset ∪ before (hits.map id) i := by
          rw [hother hi, Finset.union_insert, Finset.insert_eq_of_mem]
          exact Finset.mem_union_left _ (List.mem_toFinset.mpr hseen)
        rw [hunion]
        simp [hi]
    · have hcard : n + 1 = (id hit :: seen).toFinset.card := by
        rw [List.toFinset_cons, Finset.card_insert_of_notMem (by simpa using hseen), hn]
      rw [if_neg hseen, ih (id hit :: seen) (n + 1) _ hcard]
      by_cases hi : i = id hit
      · subst hi
        have hnone : before ((hit :: hits).map id) (id hit) = ∅ := by simp [before]
        rw [hnone]
        simp [hseen, hn]
      · have hunion : seen.toFinset ∪ before ((hit :: hits).map id) i =
            (id hit :: seen).toFinset ∪ before (hits.map id) i := by
          rw [hother hi, List.toFinset_cons, Finset.union_insert, Finset.insert_union]
        rw [hunion]
        simp [hi]

theorem fuse_scores (lists : List (List T)) : (fuse id lists).scores i = score id lists i := by
  have hfold : ∀ (f : Fusion T κ), (lists.foldl (fun f hits => fuseHits id hits [] 0 f) f).scores i =
      f.scores i + score id lists i := by
    induction lists with
    | nil => simp [score]
    | cons hits lists ih =>
      intro f
      rw [List.foldl_cons, ih, fuseHits_scores hits [] 0 f rfl, add_assoc]
      simp [share, rank, score]
  rw [fuse, hfold]
  simp

/-- Every id has its first hit, and every hit is under its id. -/
structure Indexed (id : T → κ) (entities : List (κ × T)) (ids : List κ) : Prop where
  nodup : (entities.map Prod.fst).Nodup
  mem : ∀ i, i ∈ entities.map Prod.fst ↔ i ∈ ids
  keyed : ∀ entry ∈ entities, id entry.2 = entry.1

theorem Indexed.setdefault {entities : List (κ × T)} {ids : List κ} (h : Indexed id entities ids) (hit : T) :
    Indexed id (setdefault id entities hit) (ids ++ [id hit]) := by
  unfold query.setdefault
  split_ifs with hmem
  · refine { nodup := h.nodup, mem := fun i => ?_, keyed := h.keyed }
    rw [h.mem, List.mem_append, List.mem_singleton]
    constructor
    · exact Or.inl
    · rintro (hi | rfl)
      · exact hi
      · exact (h.mem _).mp hmem
  · refine { nodup := ?_, mem := fun i => ?_, keyed := fun entry hentry => ?_ }
    · rw [List.map_append, List.nodup_append]
      refine ⟨h.nodup, by simp, fun a ha b hb => ?_⟩
      obtain rfl := List.mem_singleton.mp hb
      intro heq
      rw [heq] at ha
      exact hmem ha
    · rw [List.map_append, List.mem_append, List.mem_append, h.mem]
      rfl
    · rcases List.mem_append.mp hentry with hentry | hentry
      · exact h.keyed entry hentry
      · rw [List.mem_singleton.mp hentry]

theorem Indexed.fuseHits {ids : List κ} (hits : List T) (seen : List κ) (n : Nat) (f : Fusion T κ)
    (h : Indexed id f.entities ids) (hseen : ∀ i ∈ seen, i ∈ ids) : Indexed id (fuseHits id hits seen n f).entities (ids ++ hits.map id) := by
  induction hits generalizing seen n f ids with
  | nil => simpa [query.fuseHits] using h
  | cons hit hits ih =>
    unfold query.fuseHits
    split_ifs with hmem
    · have hrest := ih seen n f h hseen
      refine { nodup := hrest.nodup, mem := fun i => ?_, keyed := hrest.keyed }
      rw [hrest.mem, List.map_cons, List.mem_append, List.mem_append, List.mem_cons]
      constructor
      · exact Or.imp_right Or.inr
      · rintro (hi | rfl | hi)
        · exact Or.inl hi
        · exact Or.inl (hseen _ hmem)
        · exact Or.inr hi
    · rw [List.map_cons, List.append_cons]
      refine ih (id hit :: seen) (n + 1) _ (h.setdefault hit) fun i hi => ?_
      rcases List.mem_cons.mp hi with rfl | hi
      · simp
      · exact List.mem_append_left _ (hseen i hi)

theorem fuse_indexed (lists : List (List T)) : Indexed id (fuse id lists).entities (lists.flatten.map id) := by
  have hfold : ∀ (f : Fusion T κ) (ids : List κ), Indexed id f.entities ids →
      Indexed id (lists.foldl (fun f hits => fuseHits id hits [] 0 f) f).entities (ids ++ lists.flatten.map id) := by
    induction lists with
    | nil => intro f ids h; simpa using h
    | cons hits lists ih =>
      intro f ids h
      have hrest := ih _ _ (Indexed.fuseHits hits [] 0 f h (by simp))
      rw [List.foldl_cons, List.flatten_cons, List.map_append, ← List.append_assoc]
      exact hrest
  exact hfold _ [] { nodup := by simp, mem := by simp, keyed := by simp }

/-- The ids of the result. -/
def ids (id : T → κ) (lists : List (List T)) : List κ := (fuse_ranked id lists).map id

theorem ids_eq (lists : List (List T)) :
    ids id lists = sorted (sortKey (score id lists)) ((fuse id lists).entities.map Prod.fst) := by
  have hscores : (fuse id lists).scores = score id lists := funext fun i => fuse_scores lists
  have hindexed := @fuse_indexed T κ _ id lists
  unfold ids fuse_ranked
  simp only [hscores]
  generalize hkeys : sorted (sortKey (score id lists)) ((fuse id lists).entities.map Prod.fst) = keys
  have hmem : ∀ key ∈ keys, key ∈ (fuse id lists).entities.map Prod.fst := by
    intro key hkey
    rw [← hkeys] at hkey
    exact (sorted_perm _).mem_iff.mp hkey
  clear hkeys
  induction keys with
  | nil => rfl
  | cons key keys ih =>
    obtain ⟨entry, hentry, hfst⟩ := List.mem_map.mp (hmem key List.mem_cons_self)
    obtain ⟨hit, hlookup⟩ : ∃ hit, (fuse id lists).entities.lookup key = some hit := by
      rw [← Option.isSome_iff_exists, List.lookup_isSome_iff]
      exact ⟨entry, hentry, by simp [hfst]⟩
    have hid : id hit = key := by
      obtain ⟨first, rest, hsplit, -⟩ := List.lookup_eq_some_iff.mp hlookup
      exact hindexed.keyed (key, hit) (by rw [hsplit]; simp)
    rw [List.filterMap_cons, hlookup, List.map_cons, hid, ih fun k hk => hmem k (List.mem_cons_of_mem _ hk)]

theorem ids_perm (lists : List (List T)) : (ids id lists).Perm ((fuse id lists).entities.map Prod.fst) := by
  rw [ids_eq]
  exact sorted_perm _

theorem ids_nodup (lists : List (List T)) : (ids id lists).Nodup :=
  (ids_perm lists).nodup_iff.mpr (fuse_indexed lists).nodup

theorem mem_ids : i ∈ ids id lists ↔ ∃ hits ∈ lists, i ∈ hits.map id := by
  rw [(ids_perm lists).mem_iff, (fuse_indexed lists).mem]
  simp only [List.mem_map, List.mem_flatten]
  grind

theorem sortKey_lt {scores : κ → ℚ} {i j : κ} :
    sortKey scores i < sortKey scores j ↔ scores j < scores i ∨ scores i = scores j ∧ i < j := by
  simp [sortKey, Prod.Lex.toLex_lt_toLex]

omit [LinearOrder κ] in
theorem sortKey_injective (scores : κ → ℚ) : Function.Injective (sortKey scores) :=
  fun _ _ h => congrArg (fun key => (ofLex key).2) h

/-- The ids stand in the order of their scores, and of themselves where those are equal. -/
theorem ids_pairwise (lists : List (List T)) :
    (ids id lists).Pairwise fun i j => sortKey (score id lists) i < sortKey (score id lists) j := by
  have hle : (ids id lists).Pairwise fun i j => sortKey (score id lists) i ≤ sortKey (score id lists) j := by
    rw [ids_eq]
    exact sorted_pairwise _
  refine (hle.and (ids_nodup lists)).imp fun h => ?_
  exact lt_of_le_of_ne h.1 fun heq => h.2 (sortKey_injective _ heq)

/-- The same ids with the same scores give the same result. -/
theorem ids_congr {lists' : List (List T)} (hmem : ∀ i, i ∈ ids id lists ↔ i ∈ ids id lists')
    (hscore : ∀ i, score id lists i = score id lists' i) : ids id lists = ids id lists' := by
  have hperm : (ids id lists).Perm (ids id lists') :=
    (List.perm_ext_iff_of_nodup (ids_nodup lists) (ids_nodup lists')).mpr hmem
  have hpairwise := @ids_pairwise T κ _ id lists'
  rw [← funext hscore] at hpairwise
  refine hperm.eq_of_pairwise (fun a b _ _ hab hba => ?_) (ids_pairwise lists) hpairwise
  exact absurd hab (lt_asymm hba)

/-- The place of an id is the number of ids that come before it. -/
theorem idxOf_eq {keys : List κ} {scores : κ → ℚ} (h : keys.Pairwise fun i j => sortKey scores i < sortKey scores j)
    (hi : i ∈ keys) : keys.idxOf i = keys.countP fun j => sortKey scores j < sortKey scores i := by
  induction keys with
  | nil => cases hi
  | cons j keys ih =>
    obtain ⟨hj, hrest⟩ := List.pairwise_cons.mp h
    by_cases heq : j = i
    · subst heq
      have hnone : keys.countP (fun k => sortKey scores k < sortKey scores j) = 0 := by
        rw [List.countP_eq_zero]
        intro k hk
        simpa using (hj k hk).le
      simp [hnone]
    · have hmem : i ∈ keys := (List.mem_cons.mp hi).resolve_left (Ne.symm heq)
      rw [List.idxOf_cons_ne _ heq, ih hrest hmem, List.countP_cons]
      simp [hj i hmem]

/-- An id whose score does not fall, while no other score rises, keeps its place or
comes earlier. -/
theorem idxOf_le {lists' : List (List T)} (hmem : ∀ j, j ∈ ids id lists ↔ j ∈ ids id lists') (hi : i ∈ ids id lists)
    (hscore : score id lists i ≤ score id lists' i) (hothers : ∀ j ≠ i, score id lists' j ≤ score id lists j) :
    (ids id lists').idxOf i ≤ (ids id lists).idxOf i := by
  have hperm : (ids id lists').Perm (ids id lists) :=
    (List.perm_ext_iff_of_nodup (ids_nodup lists') (ids_nodup lists)).mpr fun j => (hmem j).symm
  rw [idxOf_eq (ids_pairwise lists') ((hmem i).mp hi), idxOf_eq (ids_pairwise lists) hi, hperm.countP_eq]
  refine List.countP_mono_left fun j _ hj => ?_
  rw [decide_eq_true_eq, sortKey_lt] at hj ⊢
  have hne : j ≠ i := by
    rintro rfl
    rcases hj with hlt | ⟨-, hlt⟩
    · exact lt_irrefl _ hlt
    · exact lt_irrefl _ hlt
  have hothers' := hothers j hne
  rcases hj with hlt | ⟨heq, hlt⟩
  · exact Or.inl (lt_of_le_of_lt hscore (lt_of_lt_of_le hlt hothers'))
  · rcases lt_or_eq_of_le (hscore.trans (heq.symm.le.trans hothers')) with hlt' | heq'
    · exact Or.inl hlt'
    · exact Or.inr ⟨heq'.symm, hlt⟩

theorem share_nonneg (keys : List κ) (i : κ) : 0 ≤ share keys i := by
  unfold share
  split_ifs
  · positivity
  · exact le_rfl

/-- Fewer distinct ids in front give a larger share. -/
theorem share_le {keys keys' : List κ} (hmem : i ∈ keys ↔ i ∈ keys') (h : before keys' i ⊆ before keys i) :
    share keys i ≤ share keys' i := by
  have hcard := Finset.card_le_card h
  unfold share
  by_cases hi : i ∈ keys
  · rw [if_pos hi, if_pos (hmem.mp hi)]
    have hrank : (rank keys' i : ℚ) ≤ rank keys i := by
      exact_mod_cast Nat.succ_le_succ hcard
    exact one_div_le_one_div_of_le (by positivity) (by linarith)
  · rw [if_neg hi, if_neg fun h => hi (hmem.mpr h)]

omit [LinearOrder κ] in
theorem Copied.mem {hits hits' : List T} (h : Copied id hits hits') (i : κ) : i ∈ hits.map id ↔ i ∈ hits'.map id := by
  induction h with
  | refl => exact Iff.rfl
  | copy first rest hit _ hseen ih =>
    rw [ih]
    simp only [List.map_append, List.map_cons, List.mem_append, List.mem_cons]
    constructor
    · rintro (hfirst | hrest)
      · exact Or.inl hfirst
      · exact Or.inr (Or.inr hrest)
    · rintro (hfirst | rfl | hrest)
      · exact Or.inl hfirst
      · exact Or.inl hseen
      · exact Or.inr hrest

/-- Further copies add nothing to what stands before an id. -/
theorem Copied.before {hits hits' : List T} (h : Copied id hits hits') (i : κ) :
    before (hits.map id) i = before (hits'.map id) i := by
  induction h with
  | refl => rfl
  | copy first rest hit _ hseen ih =>
    rw [ih, List.map_append, List.map_append, before_append, before_append]
    split_ifs with hi
    · rfl
    · have hne : id hit ≠ i := fun heq => hi (heq ▸ hseen)
      have hcons : query.before ((hit :: rest).map id) i = insert (id hit) (query.before (rest.map id) i) := by
        simp [query.before, hne]
      rw [hcons, Finset.union_insert, Finset.insert_eq_of_mem]
      exact Finset.mem_union_left _ (List.mem_toFinset.mpr hseen)

theorem before_cons {keys : List κ} {j : κ} (h : j ≠ i) : before (j :: keys) i = insert j (before keys i) := by
  simp [before, h]

/-- What is moved forwards has fewer ids in front of it. -/
theorem before_moved {keys more rest : List κ} : before (keys ++ i :: more ++ rest) i ⊆ before (keys ++ more ++ i :: rest) i := by
  rw [List.append_assoc, List.append_assoc, before_append keys (i :: more ++ rest), before_append keys (more ++ i :: rest)]
  split_ifs
  · exact Finset.Subset.refl _
  · have hnone : before (i :: more ++ rest) i = ∅ := by simp [before]
    rw [hnone, Finset.union_empty]
    exact Finset.subset_union_left

/-- What is moved forwards adds to what stands in front of others. -/
theorem before_others {keys more rest : List κ} {j : κ} (h : j ≠ i) :
    before (keys ++ more ++ j :: rest) i ⊆ before (keys ++ j :: more ++ rest) i := by
  rw [List.append_assoc, List.append_assoc, before_append keys (more ++ j :: rest), before_append keys (j :: more ++ rest)]
  split_ifs
  · exact Finset.Subset.refl _
  · refine Finset.union_subset_union (Finset.Subset.refl _) ?_
    rw [List.cons_append, before_cons h, before_append more (j :: rest), before_append more rest]
    split_ifs
    · exact Finset.subset_insert _ _
    · rw [before_cons h, Finset.union_insert]

theorem score_split (earlier later : List (List T)) (hits : List T) :
    score id (earlier ++ hits :: later) i = score id earlier i + (share (hits.map id) i + score id later i) := by
  simp [score]

/-- A hit that is moved forwards in one list does not lose its place. -/
theorem idxOf_moved (earlier later : List (List T)) (first more rest : List T) (hit : T) :
    (ids id (earlier ++ (first ++ hit :: more ++ rest) :: later)).idxOf (id hit) ≤
      (ids id (earlier ++ (first ++ more ++ hit :: rest) :: later)).idxOf (id hit) := by
  have hmem : ∀ j, j ∈ (first ++ more ++ hit :: rest).map id ↔ j ∈ (first ++ hit :: more ++ rest).map id := by
    intro j
    simp only [List.map_append, List.map_cons, List.mem_append, List.mem_cons]
    tauto
  refine idxOf_le (fun j => ?_) ?_ ?_ fun j hne => ?_
  · rw [mem_ids, mem_ids]
    constructor
    · rintro ⟨hits, hhits, hj⟩
      rcases List.mem_append.mp hhits with hhits | hhits
      · exact ⟨hits, List.mem_append_left _ hhits, hj⟩
      rcases List.mem_cons.mp hhits with rfl | hhits
      · exact ⟨_, List.mem_append_right _ List.mem_cons_self, (hmem j).mp hj⟩
      · exact ⟨hits, List.mem_append_right _ (List.mem_cons_of_mem _ hhits), hj⟩
    · rintro ⟨hits, hhits, hj⟩
      rcases List.mem_append.mp hhits with hhits | hhits
      · exact ⟨hits, List.mem_append_left _ hhits, hj⟩
      rcases List.mem_cons.mp hhits with rfl | hhits
      · exact ⟨_, List.mem_append_right _ List.mem_cons_self, (hmem j).mpr hj⟩
      · exact ⟨hits, List.mem_append_right _ (List.mem_cons_of_mem _ hhits), hj⟩
  · exact mem_ids.mpr ⟨_, List.mem_append_right _ List.mem_cons_self, by simp⟩
  · rw [score_split, score_split]
    have hshare : share ((first ++ more ++ hit :: rest).map id) (id hit) ≤
        share ((first ++ hit :: more ++ rest).map id) (id hit) := by
      refine share_le (hmem _) ?_
      simp only [List.map_append, List.map_cons]
      exact before_moved
    linarith
  · rw [score_split, score_split]
    have hshare : share ((first ++ hit :: more ++ rest).map id) j ≤
        share ((first ++ more ++ hit :: rest).map id) j := by
      refine share_le (hmem j).symm ?_
      simp only [List.map_append, List.map_cons]
      exact before_others hne.symm
    linarith

/-- The law of the fusion: each id once, in the order of the scores and then of the
ids; lists may be exchanged, and ids may be repeated within them, without an effect;
and a hit does not lose its place when it moves forwards. -/
theorem fuse_ranked_law (id : T → κ) (lists : List (List T)) :
    (ids id lists).Nodup ∧ (∀ i, i ∈ ids id lists ↔ ∃ hits ∈ lists, i ∈ hits.map id) ∧
      (ids id lists).Pairwise (fun i j =>
        score id lists j < score id lists i ∨ score id lists i = score id lists j ∧ i < j) ∧
      (∀ lists', lists.Perm lists' → ids id lists' = ids id lists) ∧
      (∀ lists', List.Forall₂ (Copied id) lists lists' → ids id lists' = ids id lists) ∧
      ∀ earlier first more rest later hit, lists = earlier ++ (first ++ more ++ hit :: rest) :: later →
        (ids id (earlier ++ (first ++ hit :: more ++ rest) :: later)).idxOf (id hit) ≤ (ids id lists).idxOf (id hit) := by
  refine ⟨ids_nodup lists, fun i => mem_ids, ?_, ?_, ?_, ?_⟩
  · exact (ids_pairwise lists).imp fun h => sortKey_lt.mp h
  · intro lists' hperm
    refine (ids_congr (fun i => ?_) fun i => ?_).symm
    · rw [mem_ids, mem_ids]
      exact exists_congr fun hits => and_congr_left fun _ => hperm.mem_iff
    · exact (hperm.map _).sum_eq
  · intro lists' hcopied
    have hboth : ∀ i, ((∃ hits ∈ lists, i ∈ hits.map id) ↔ ∃ hits ∈ lists', i ∈ hits.map id) ∧
        score id lists i = score id lists' i := by
      intro i
      induction hcopied with
      | nil => exact ⟨Iff.rfl, rfl⟩
      | cons hhits _ ih =>
        constructor
        · simp only [List.exists_mem_cons_iff, hhits.mem i, ih.1]
        · simp only [score, List.map_cons, List.sum_cons, share, rank, hhits.mem i, hhits.before i]
          exact congrArg _ ih.2
    refine (ids_congr (fun i => ?_) fun i => (hboth i).2).symm
    rw [mem_ids, mem_ids]
    exact (hboth i).1
  · rintro earlier first more rest later hit rfl
    exact idxOf_moved earlier later first more rest hit

example : ids (fun i : Nat => i) [[1, 1, 1, 2], [2]] = [2, 1] := by decide +kernel

end incidentdesk.query
