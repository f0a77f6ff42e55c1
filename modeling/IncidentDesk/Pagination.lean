import Mathlib.Data.List.Dedup
import Mathlib.Data.List.Sort

namespace pagination

section Keyset

variable {ρ κ : Type} [LinearOrder κ] (key : ρ → κ)

/-- Rows in the order of their keys. -/
def sorted (rows : List ρ) : List ρ := rows.insertionSort fun a b => key a ≤ key b

/-- The rows behind a position, in the order of their keys. -/
def unread (rows : List ρ) (pos : κ) : List ρ := sorted key (rows.filter fun row => pos < key row)

variable {key} {rows read rest : List ρ} {pos : κ} {r : ρ}

theorem sorted_perm (rows : List ρ) : (sorted key rows).Perm rows := List.perm_insertionSort _ _

theorem sorted_pairwise (rows : List ρ) : (sorted key rows).Pairwise fun a b => key a ≤ key b :=
  haveI : Std.Total fun a b : ρ => key a ≤ key b := ⟨fun a b => le_total (key a) (key b)⟩
  haveI : IsTrans ρ fun a b => key a ≤ key b := ⟨fun _ _ _ => le_trans⟩
  List.pairwise_insertionSort _ _

theorem unread_perm (rows : List ρ) (pos : κ) : (unread key rows pos).Perm (rows.filter fun row => pos < key row) :=
  sorted_perm _

theorem mem_unread : r ∈ unread key rows pos ↔ r ∈ rows ∧ pos < key r := by
  rw [(unread_perm rows pos).mem_iff, List.mem_filter, decide_eq_true_eq]

/-- Only how the keys compare matters. -/
theorem sorted_congr {κ' : Type} [LinearOrder κ'] {key' : ρ → κ'}
    (h : ∀ a ∈ rows, ∀ b ∈ rows, key a ≤ key b ↔ key' a ≤ key' b) : sorted key rows = sorted key' rows := by
  have hsort := List.map_insertionSort (fun a b => key a ≤ key b) (fun a b => key' a ≤ key' b) id rows h
  rw [List.map_id, List.map_id] at hsort
  exact hsort

theorem unread_congr {κ' : Type} [LinearOrder κ'] {key' : ρ → κ'} {pos' : κ'}
    (h : ∀ a ∈ rows, ∀ b ∈ rows, key a ≤ key b ↔ key' a ≤ key' b) (hpos : ∀ a ∈ rows, pos < key a ↔ pos' < key' a) :
    unread key rows pos = unread key' rows pos' := by
  have hfilter : (rows.filter fun row => pos < key row) = rows.filter fun row => pos' < key' row :=
    List.filter_congr fun row hrow => decide_eq_decide.mpr (hpos row hrow)
  rw [unread, unread, hfilter]
  apply sorted_congr
  intro a ha b hb
  exact h a (List.mem_filter.mp ha).1 b (List.mem_filter.mp hb).1

/-- Rows whose keys differ keep their order when some are left out. -/
theorem sorted_filter (hkeys : (rows.map key).Nodup) (p : ρ → Bool) :
    sorted key (rows.filter p) = (sorted key rows).filter p := by
  have hperm : (sorted key (rows.filter p)).Perm ((sorted key rows).filter p) :=
    (sorted_perm _).trans ((sorted_perm rows).filter p).symm
  refine hperm.eq_of_pairwise ?_ (sorted_pairwise _) ((sorted_pairwise rows).filter p)
  intro a b ha hb hab hba
  have hrows {r : ρ} (hr : r ∈ rows.filter p) : r ∈ rows := (List.mem_filter.mp hr).1
  refine List.inj_on_of_nodup_map hkeys (hrows ((sorted_perm _).mem_iff.mp ha)) ?_ (le_antisymm hab hba)
  exact (sorted_perm rows).mem_iff.mp (List.mem_filter.mp hb).1

/-- There is only one order of rows whose keys differ. -/
theorem unread_strict (hkeys : (rows.map key).Nodup) : (unread key rows pos).Pairwise fun a b => key a < key b := by
  have hnodup : (unread key rows pos).Nodup :=
    (unread_perm rows pos).nodup_iff.mpr ((List.Nodup.of_map key hkeys).filter _)
  refine ((sorted_pairwise _).and hnodup).imp_of_mem ?_
  intro a b ha hb h
  have hne : key a ≠ key b := fun heq =>
    h.2 (List.inj_on_of_nodup_map hkeys (mem_unread.mp ha).1 (mem_unread.mp hb).1 heq)
  exact lt_of_le_of_ne h.1 hne

/-- Behind the last row of a page lie the rows that the page has left out. -/
theorem unread_last (hkeys : (rows.map key).Nodup) (h : unread key rows pos = read ++ rest)
    (hlast : read.getLast? = some r) : unread key rows (key r) = rest := by
  obtain ⟨init, rfl⟩ := List.getLast?_eq_some_iff.mp hlast
  have hmem : r ∈ unread key rows pos := by
    rw [h]
    simp
  have hstrict : (unread key rows pos).Pairwise fun a b => key a < key b := unread_strict hkeys
  rw [h, List.pairwise_append] at hstrict
  obtain ⟨hread, hrest, hacross⟩ := hstrict
  have hfilter : (init ++ [r] ++ rest).filter (fun row => key r < key row) = rest := by
    rw [List.filter_append, List.filter_eq_nil_iff.mpr, List.nil_append, List.filter_eq_self.mpr]
    · exact fun row hrow => by simpa using hacross r (by simp) row hrow
    · intro row hrow
      obtain hinit | hsingle := List.mem_append.mp hrow
      · have := (List.pairwise_append.mp hread).2.2 row hinit r (by simp)
        simpa using this.le
      · rw [List.mem_singleton.mp hsingle]
        simp
  have hperm : (unread key rows (key r)).Perm rest := by
    rw [← hfilter, ← h]
    refine (unread_perm rows (key r)).trans ?_
    refine .trans ?_ ((unread_perm rows pos).filter _).symm
    rw [List.filter_filter]
    refine .of_eq (List.filter_congr fun row _ => ?_)
    have hpos := (mem_unread.mp hmem).2
    rw [← Bool.decide_and, decide_eq_decide]
    exact ⟨fun hlt => ⟨hlt, hpos.trans hlt⟩, And.left⟩
  refine hperm.eq_of_pairwise ?_ (unread_strict hkeys) hrest
  exact fun a b _ _ hab hba => absurd hab hba.asymm

end Keyset

section Follow

variable {γ π : Type} (query : Option γ → Option (π × Option γ))

/-- The pages that a reader sees who follows the cursors from one on until there
is none. -/
inductive Follows : Option γ → List π → Prop where
  | last {c p} (h : query c = some (p, none)) : Follows c [p]
  | more {c p c' ps} (h : query c = some (p, some c')) (rest : Follows (some c') ps) : Follows c (p :: ps)

/-- The cursors that such a reader meets. -/
inductive Issued : γ → Prop where
  | first {p c} (h : query none = some (p, some c)) : Issued c
  | next {p c c'} (h : query (some c) = some (p, some c')) (before : Issued c) : Issued c'

variable {query} {τ σ : Type} {rows : π → List τ} {remaining : σ → List τ} {size : σ → Nat}
  {I : Option γ → σ → Prop} {Q : π → Prop}

/-- The rule for readers: if every page takes its rows out of what remains, and
every page but the last makes it smaller, then the reader comes to an end, and has
read all of it. -/
theorem exists_follows
    (step : ∀ c s, I c s → ∃ p next, query c = some (p, next) ∧ Q p ∧
      (next = none ∧ (rows p).Perm (remaining s) ∨
        ∃ c' s', next = some c' ∧ I (some c') s' ∧ size s' < size s ∧
          (rows p ++ remaining s').Perm (remaining s)))
    (c : Option γ) (s : σ) (h : I c s) :
    ∃ pages, Follows query c pages ∧ (pages.flatMap rows).Perm (remaining s) ∧ ∀ p ∈ pages, Q p := by
  induction hn : size s using Nat.strong_induction_on generalizing c s with
  | _ n ih =>
    obtain ⟨p, next, hquery, hp, ⟨rfl, hrows⟩ | ⟨c', s', rfl, hs', hsize, hrows⟩⟩ := step c s h
    · exact ⟨[p], .last hquery, by simpa using hrows, by simpa using hp⟩
    · obtain ⟨pages, hpages, hperm, hall⟩ := ih (size s') (hn ▸ hsize) (some c') s' hs' rfl
      refine ⟨p :: pages, .more hquery hpages, ?_, List.forall_mem_cons.mpr ⟨hp, hall⟩⟩
      rw [List.flatMap_cons]
      exact (hperm.append_left _).trans hrows

/-- There is only one way to follow the cursors. -/
theorem Follows.unique {c : Option γ} {pages pages' : List π} (h : Follows query c pages)
    (h' : Follows query c pages') : pages = pages' := by
  induction h generalizing pages' with
  | last h =>
    cases h' with
    | last h' => rw [h] at h'; cases h'; rfl
    | more h' => rw [h] at h'; cases h'
  | more h _ ih =>
    cases h' with
    | last h' => rw [h] at h'; cases h'
    | more h' rest' => rw [h] at h'; cases h'; rw [ih rest']

end Follow

section Repeat

variable {γ π : Type} {query : Option γ → Option (π × Option γ)}

/-- Readers of two queries that give the same pages in different words. -/
theorem Follows.simulates {γ' π' : Type} {query' : Option γ' → Option (π' × Option γ')} {write : γ → γ'}
    {R : π → π' → Prop} (h : ∀ c p next, query c = some (p, next) →
      ∃ p', query' (c.map write) = some (p', next.map write) ∧ R p p')
    {c : Option γ} {pages : List π} (hfollows : Follows query c pages) :
    ∃ pages', Follows query' (c.map write) pages' ∧ List.Forall₂ R pages pages' := by
  induction hfollows with
  | last hlast =>
    obtain ⟨p', hp', hR⟩ := h _ _ _ hlast
    exact ⟨[p'], .last hp', .cons hR .nil⟩
  | more hmore _ ih =>
    obtain ⟨p', hp', hR⟩ := h _ _ _ hmore
    obtain ⟨pages', hpages', hall⟩ := ih
    exact ⟨p' :: pages', .more hp' hpages', .cons hR hall⟩

/-- A reader who is always told that there is more never comes to an end. -/
theorem not_follows (h : ∀ c p next, query c = some (p, next) → next ≠ none) (c : Option γ) (pages : List π) :
    ¬Follows query c pages := by
  intro hfollows
  induction hfollows with
  | last hlast => exact h _ _ _ hlast rfl
  | more _ _ ih => exact ih

end Repeat

section Marks

variable {ρ κ : Type} [LinearOrder κ] (mark : ρ → κ)

/-- A page of the rows whose marks are greater than one, with the mark of its last
row when there are more. -/
def pageAfter (rows : List ρ) (limit : Nat) (c : κ) : List ρ × Option κ :=
  let rest := rows.filter fun row => c < mark row
  (rest.take limit, if limit < rest.length then (rest[limit - 1]?).map mark else none)

/-- The mark grows wherever a page of full length ends. -/
def GrowsAtPages (rows : List ρ) (limit : Nat) : Prop :=
  ∀ k, 0 < k → ∀ a b, rows[k * limit - 1]? = some a → rows[k * limit]? = some b → mark a < mark b

variable {mark} {rows : List ρ} {limit : Nat} {c : κ}

theorem filter_filter_mark {a : κ} (h : c ≤ a) :
    (rows.filter fun row => c < mark row).filter (fun row => a < mark row) = rows.filter fun row => a < mark row := by
  rw [List.filter_filter]
  refine List.filter_congr fun row _ => ?_
  rw [← Bool.decide_and, decide_eq_decide]
  exact ⟨And.left, fun hlt => ⟨hlt, lt_of_le_of_lt h hlt⟩⟩

/-- The rows behind the last row of a page are those that follow it, without the
ones that share its mark. -/
theorem filter_last (hsorted : rows.Pairwise fun a b => mark a ≤ mark b) {a : ρ} (hlimit : 0 < limit)
    (ha : rows[limit - 1]? = some a) :
    rows.filter (fun row => mark a < mark row) = (rows.drop limit).filter fun row => mark a < mark row := by
  have htake : (rows.take limit).filter (fun row => mark a < mark row) = [] := by
    refine List.filter_eq_nil_iff.mpr fun row hrow => ?_
    obtain ⟨i, hi, rfl⟩ := List.mem_iff_getElem.mp hrow
    obtain ⟨hlast, rfl⟩ := List.getElem?_eq_some_iff.mp ha
    rw [List.length_take] at hi
    rw [List.getElem_take, decide_eq_true_eq, not_lt]
    rcases Nat.lt_or_ge i (limit - 1) with hlt | hge
    · exact List.pairwise_iff_getElem.mp hsorted i (limit - 1) (by omega) hlast hlt
    · have heq : i = limit - 1 := by omega
      subst heq
      exact le_refl _
  conv_lhs => rw [← List.take_append_drop limit rows]
  rw [List.filter_append, htake, List.nil_append]

theorem getElem?_mul_succ (rows : List ρ) (hlimit : 0 < limit) {k : Nat} (hk : 0 < k) :
    rows[(k + 1) * limit - 1]? = (rows.drop limit)[k * limit - 1]? ∧
      rows[(k + 1) * limit]? = (rows.drop limit)[k * limit]? := by
  have hpos := Nat.mul_pos hk hlimit
  have hmul : (k + 1) * limit = limit + k * limit := by rw [Nat.add_mul, Nat.one_mul, Nat.add_comm]
  rw [List.getElem?_drop, List.getElem?_drop, hmul]
  exact ⟨by rw [Nat.add_sub_assoc hpos], rfl⟩

theorem grows_iff (hlimit : 0 < limit) : GrowsAtPages mark rows limit ↔
    (∀ a b, rows[limit - 1]? = some a → rows[limit]? = some b → mark a < mark b) ∧
      GrowsAtPages mark (rows.drop limit) limit := by
  constructor
  · intro h
    refine ⟨fun a b ha hb => h 1 Nat.one_pos a b (by rwa [Nat.one_mul]) (by rwa [Nat.one_mul]), ?_⟩
    intro k hk a b ha hb
    obtain ⟨hbefore, hafter⟩ := getElem?_mul_succ rows hlimit hk
    exact h (k + 1) (Nat.succ_pos k) a b (hbefore.trans ha) (hafter.trans hb)
  · rintro ⟨hfirst, hrest⟩ k hk a b ha hb
    obtain rfl | hk' := Nat.eq_or_lt_of_le (Nat.succ_le_of_lt hk)
    · rw [Nat.succ_eq_add_one, Nat.zero_add, Nat.one_mul] at ha hb
      exact hfirst a b ha hb
    · obtain ⟨k, rfl⟩ : ∃ m, k = m + 1 := ⟨k - 1, by omega⟩
      obtain ⟨hbefore, hafter⟩ := getElem?_mul_succ (k := k) rows hlimit (by omega)
      exact hrest k (by omega) a b (hbefore.symm.trans ha) (hafter.symm.trans hb)

/-- The mark grows where the first page ends exactly if the rows that follow it are
all behind its last row. -/
theorem filter_drop_eq_iff (hsorted : rows.Pairwise fun a b => mark a ≤ mark b) {a : ρ}
    (ha : rows[limit - 1]? = some a) :
    (rows.drop limit).filter (fun row => mark a < mark row) = rows.drop limit ↔
      ∀ a b, rows[limit - 1]? = some a → rows[limit]? = some b → mark a < mark b := by
  rw [List.filter_eq_self]
  constructor
  · intro h a' b ha' hb
    obtain rfl : a = a' := Option.some.inj (ha.symm.trans ha')
    have hmem : b ∈ rows.drop limit := by
      have hdrop : (rows.drop limit)[0]? = some b := by rw [List.getElem?_drop, Nat.add_zero, hb]
      exact List.mem_of_getElem? hdrop
    exact of_decide_eq_true (h b hmem)
  · intro h row hrow
    obtain ⟨i, hi, rfl⟩ := List.mem_iff_getElem.mp hrow
    rw [List.length_drop] at hi
    have hfirst : limit < rows.length := by omega
    have hgrow := h a rows[limit] ha (List.getElem?_eq_getElem hfirst)
    rw [List.getElem_drop, decide_eq_true_eq]
    refine lt_of_lt_of_le hgrow ?_
    rcases Nat.eq_zero_or_pos i with rfl | hpos
    · exact le_refl _
    · exact List.pairwise_iff_getElem.mp hsorted limit (limit + i) hfirst (by omega) (by omega)

/-- Following the marks comes to an end, with all rows behind the first mark or with
fewer, if the mark does not grow where a page ends. -/
theorem follows_marks (hsorted : rows.Pairwise fun a b => mark a ≤ mark b) (hlimit : 0 < limit) (c₀ : κ)
    (c : Option κ) : ∃ pages, Follows (fun c => some (pageAfter mark rows limit (c.getD c₀))) c pages ∧
      pages.flatten.length ≤ (rows.filter fun row => c.getD c₀ < mark row).length ∧
      (GrowsAtPages mark (rows.filter fun row => c.getD c₀ < mark row) limit →
        pages.flatten = rows.filter fun row => c.getD c₀ < mark row) ∧
      (pages.flatten.length = (rows.filter fun row => c.getD c₀ < mark row).length →
        GrowsAtPages mark (rows.filter fun row => c.getD c₀ < mark row) limit) := by
  induction hn : (rows.filter fun row => c.getD c₀ < mark row).length using Nat.strong_induction_on generalizing c with
  | _ n ih =>
    generalize hrest : (rows.filter fun row => c.getD c₀ < mark row) = rest at hn ⊢
    have hrestSorted : rest.Pairwise fun a b => mark a ≤ mark b := hrest ▸ hsorted.filter _
    rcases Nat.lt_or_ge limit rest.length with hmore | hlast
    · obtain ⟨a, ha⟩ : ∃ a, rest[limit - 1]? = some a := ⟨_, List.getElem?_eq_getElem (by omega)⟩
      have hle : c.getD c₀ ≤ mark a := by
        have hmem := List.mem_of_getElem? ha
        rw [← hrest, List.mem_filter, decide_eq_true_eq] at hmem
        exact hmem.2.le
      have hnext : (rows.filter fun row => mark a < mark row) = (rest.drop limit).filter fun row => mark a < mark row := by
        rw [← filter_filter_mark hle, hrest, filter_last hrestSorted hlimit ha]
      have hshorter := List.length_filter_le (fun row => Decidable.decide (mark a < mark row)) (rest.drop limit)
      rw [List.length_drop] at hshorter
      obtain ⟨pages, hfollows, hlength, hall, hgrows⟩ := ih _ (by rw [Option.getD_some, hnext]; omega) (some (mark a)) rfl
      rw [Option.getD_some, hnext] at hlength hall hgrows
      have hpage : pageAfter mark rows limit (c.getD c₀) = (rest.take limit, some (mark a)) := by
        rw [pageAfter, hrest, if_pos hmore, ha]
        rfl
      have htake : (rest.take limit).length = limit := by
        rw [List.length_take]
        omega
      have hiff := filter_drop_eq_iff hrestSorted ha
      refine ⟨rest.take limit :: pages, .more (by rw [hpage]) hfollows, ?_, ?_, ?_⟩
      · rw [List.flatten_cons, List.length_append, htake]
        omega
      · intro hgrow
        obtain ⟨hfirst, hdrop⟩ := (grows_iff hlimit).mp hgrow
        rw [hiff.mpr hfirst] at hall
        rw [List.flatten_cons, hall hdrop, List.take_append_drop]
      · intro heq
        rw [List.flatten_cons, List.length_append, htake] at heq
        have hfull : (rest.drop limit).filter (fun row => mark a < mark row) = rest.drop limit := by
          refine List.length_filter_eq_length_iff.mp ?_ |> List.filter_eq_self.mpr
          rw [List.length_drop]
          omega
        rw [hfull] at hgrows hlength
        refine (grows_iff hlimit).mpr ⟨hiff.mp hfull, hgrows ?_⟩
        rw [List.length_drop]
        omega
    · have hpage : pageAfter mark rows limit (c.getD c₀) = (rest, none) := by
        rw [pageAfter, hrest, if_neg (by omega), List.take_of_length_le hlast]
      refine ⟨[rest], .last (by rw [hpage]), by simp [hn], by simp, fun _ k hk a b _ hb => ?_⟩
      have hout : rest[k * limit]? = none := by
        refine List.getElem?_eq_none ?_
        exact hlast.trans (Nat.le_mul_of_pos_left limit hk)
      rw [hout] at hb
      cases hb

/-- A reader who follows the marks reads every row, in order, if all marks are
greater than the first one, and the mark grows wherever a page ends. -/
theorem follows_marks_all (hsorted : rows.Pairwise fun a b => mark a ≤ mark b) (hlimit : 0 < limit) {c₀ : κ}
    (hmarks : ∀ row ∈ rows, c₀ < mark row) (hgrows : GrowsAtPages mark rows limit) :
    ∃ pages, Follows (fun c => some (pageAfter mark rows limit (c.getD c₀))) none pages ∧ pages.flatten = rows := by
  obtain ⟨pages, hfollows, -, hall, -⟩ := follows_marks hsorted hlimit c₀ none
  have hfilter : rows.filter (fun row => Decidable.decide (c₀ < mark row)) = rows :=
    List.filter_eq_self.mpr fun row hrow => decide_eq_true (hmarks row hrow)
  rw [Option.getD_none, hfilter] at hall
  exact ⟨pages, hfollows, hall hgrows⟩

/-- Only then does the reader see as many rows as there are. -/
theorem grows_of_follows (hsorted : rows.Pairwise fun a b => mark a ≤ mark b) (hlimit : 0 < limit) {c₀ : κ}
    {pages : List (List ρ)} (h : Follows (fun c => some (pageAfter mark rows limit (c.getD c₀))) none pages)
    (hlength : rows.length ≤ pages.flatten.length) :
    (∀ row ∈ rows, c₀ < mark row) ∧ GrowsAtPages mark rows limit := by
  obtain ⟨pages', hfollows, hshort, -, hgrows⟩ := follows_marks hsorted hlimit c₀ none
  obtain rfl := hfollows.unique h
  rw [Option.getD_none] at hshort hgrows
  have hle := List.length_filter_le (fun row => Decidable.decide (c₀ < mark row)) rows
  have hmarks := List.length_filter_eq_length_iff.mp (by omega : (rows.filter fun row =>
    Decidable.decide (c₀ < mark row)).length = rows.length)
  rw [List.filter_eq_self.mpr hmarks] at hgrows hshort
  exact ⟨fun row hrow => of_decide_eq_true (hmarks row hrow), hgrows (by omega)⟩

end Marks

end pagination
