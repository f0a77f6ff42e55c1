import Mathlib.Data.List.Induction
import Mathlib.Data.List.Nodup

namespace dict

variable {κ ν : Type} [DecidableEq κ]

/-- `d[key] = value`: a new key comes last, and an old one keeps its place. -/
def put (d : List (κ × ν)) (key : κ) (value : ν) : List (κ × ν) :=
  if key ∈ d.map Prod.fst then d.map fun entry => if entry.1 = key then (key, value) else entry else d ++ [(key, value)]

variable {d : List (κ × ν)} {key other : κ} {value : ν}

theorem keys_put : (put d key value).map Prod.fst =
    if key ∈ d.map Prod.fst then d.map Prod.fst else d.map Prod.fst ++ [key] := by
  unfold put
  split_ifs with h
  · rw [List.map_map]
    refine List.map_congr_left fun entry _ => ?_
    by_cases heq : entry.1 = key <;> simp [heq]
  · simp

theorem mem_keys_put : other ∈ (put d key value).map Prod.fst ↔ other ∈ d.map Prod.fst ∨ other = key := by
  rw [keys_put]
  split_ifs with h
  · constructor
    · exact Or.inl
    · rintro (hother | rfl)
      · exact hother
      · exact h
  · simp

theorem nodup_put (h : (d.map Prod.fst).Nodup) : ((put d key value).map Prod.fst).Nodup := by
  rw [keys_put]
  split_ifs with hmem
  · exact h
  · rw [List.nodup_append]
    refine ⟨h, by simp, fun a ha b hb => ?_⟩
    obtain rfl := List.mem_singleton.mp hb
    intro heq
    rw [heq] at ha
    exact hmem ha

theorem lookup_append {e : List (κ × ν)} :
    (d ++ e).lookup key = (d.lookup key).or (e.lookup key) := by
  induction d with
  | nil => simp
  | cons entry d ih =>
    rw [List.cons_append, List.lookup_cons, List.lookup_cons, ih]
    cases key == entry.1 <;> simp

theorem lookup_isSome : (d.lookup key).isSome ↔ key ∈ d.map Prod.fst := by
  rw [List.lookup_isSome_iff]
  constructor
  · rintro ⟨entry, hentry, heq⟩
    exact List.mem_map.mpr ⟨entry, hentry, (beq_iff_eq.mp heq).symm⟩
  · intro h
    obtain ⟨entry, hentry, rfl⟩ := List.mem_map.mp h
    exact ⟨entry, hentry, beq_self_eq_true _⟩

theorem lookup_eq_none : d.lookup key = none ↔ key ∉ d.map Prod.fst := by
  rw [← lookup_isSome]
  cases d.lookup key <;> simp

theorem lookup_put : (put d key value).lookup other = if other = key then some value else d.lookup other := by
  unfold put
  split_ifs with hmem heq heq
  · subst heq
    induction d with
    | nil => cases hmem
    | cons entry d ih =>
      rw [List.map_cons, List.lookup_cons]
      by_cases hentry : entry.1 = other
      · simp [hentry]
      · have hrest : other ∈ d.map Prod.fst := (List.mem_cons.mp hmem).resolve_left (Ne.symm hentry)
        have hbeq : (other == entry.1) = false := beq_eq_false_iff_ne.mpr (Ne.symm hentry)
        simp [hentry, hbeq, ih hrest]
  · clear hmem
    induction d with
    | nil => rfl
    | cons entry d ih =>
      rw [List.map_cons, List.lookup_cons, List.lookup_cons, ih]
      by_cases hentry : entry.1 = key
      · subst hentry
        have hbeq : (other == entry.1) = false := beq_eq_false_iff_ne.mpr heq
        simp [hbeq]
      · simp [hentry]
  · subst heq
    rw [lookup_append, lookup_eq_none.mpr hmem]
    simp
  · have hbeq : (other == key) = false := beq_eq_false_iff_ne.mpr heq
    rw [lookup_append]
    simp [List.lookup_cons, hbeq]

theorem mem_of_lookup {α : Type} [BEq α] [LawfulBEq α] {entries : List (α × ν)} {k : α}
    (h : entries.lookup k = some value) : (k, value) ∈ entries := by
  obtain ⟨before, after, hsplit, -⟩ := List.lookup_eq_some_iff.mp h
  rw [hsplit]
  simp

theorem mem_put {entry : κ × ν} (h : entry ∈ put d key value) : entry = (key, value) ∨ entry ∈ d := by
  unfold put at h
  split_ifs at h with hmem
  · obtain ⟨old, hold, rfl⟩ := List.mem_map.mp h
    split_ifs
    · exact .inl rfl
    · exact .inr hold
  · rcases List.mem_append.mp h with h | h
    · exact .inr h
    · exact .inl (List.mem_singleton.mp h)

/-- An entry is what its key gives. -/
theorem mem_iff_lookup (h : (d.map Prod.fst).Nodup) : (key, value) ∈ d ↔ d.lookup key = some value := by
  constructor
  · intro hmem
    obtain ⟨found, hfound⟩ := Option.isSome_iff_exists.mp (lookup_isSome.mpr (List.mem_map.mpr ⟨_, hmem, rfl⟩))
    obtain ⟨before, after, hsplit, -⟩ := List.lookup_eq_some_iff.mp hfound
    have hmem' : (key, found) ∈ d := by
      rw [hsplit]
      simp
    have heq := List.inj_on_of_nodup_map h hmem hmem' rfl
    rw [hfound, (Prod.mk.inj heq).2]
  · intro hlookup
    obtain ⟨before, after, hsplit, -⟩ := List.lookup_eq_some_iff.mp hlookup
    rw [hsplit]
    simp

/-- Values in groups by a key of theirs, each group in their order. -/
def group (f : ν → κ) (values : List ν) : List (κ × List ν) :=
  values.foldl (fun d value => put d (f value) ((d.lookup (f value)).getD [] ++ [value])) []

theorem group_append (f : ν → κ) (values : List ν) (value : ν) :
    group f (values ++ [value]) =
      put (group f values) (f value) (((group f values).lookup (f value)).getD [] ++ [value]) := by
  simp [group]

theorem nodup_group (f : ν → κ) (values : List ν) : ((group f values).map Prod.fst).Nodup := by
  induction values using List.reverseRecOn with
  | nil => simp [group]
  | append_singleton values value ih =>
    rw [group_append]
    exact nodup_put ih

theorem lookup_group (f : ν → κ) (values : List ν) (key : κ) : (group f values).lookup key =
    if (values.filter fun value => f value = key) = [] then none else some (values.filter fun value => f value = key) := by
  induction values using List.reverseRecOn with
  | nil => simp [group]
  | append_singleton values value ih =>
    rw [group_append, lookup_put, List.filter_append]
    by_cases h : key = f value
    · subst h
      rw [ih]
      by_cases hnone : (values.filter fun v => f v = f value) = []
      · simp [hnone]
      · simp [hnone]
    · simp [ih, h, Ne.symm h]

theorem mem_keys_group (f : ν → κ) (values : List ν) : key ∈ (group f values).map Prod.fst ↔ ∃ value ∈ values, f value = key := by
  rw [← lookup_isSome, lookup_group]
  split_ifs with h
  · simp only [Option.isSome_none, Bool.false_eq_true, false_iff]
    rintro ⟨value, hvalue, heq⟩
    have hmem : value ∈ values.filter fun value => f value = key := List.mem_filter.mpr ⟨hvalue, by simp [heq]⟩
    rw [h] at hmem
    cases hmem
  · simp only [Option.isSome_some, true_iff]
    obtain ⟨value, hvalue⟩ := List.exists_mem_of_ne_nil _ h
    exact ⟨value, (List.mem_filter.mp hvalue).1, of_decide_eq_true (List.mem_filter.mp hvalue).2⟩

section Entries

variable {entries : List (κ × ν)}

/-- Entries with keys of their own come in their order. -/
theorem foldl_put_of_nodup (h : ((d ++ entries).map Prod.fst).Nodup) :
    entries.foldl (fun d entry => put d entry.1 entry.2) d = d ++ entries := by
  induction entries generalizing d with
  | nil => rw [List.append_nil, List.foldl_nil]
  | cons entry entries ih =>
    have hnew : entry.1 ∉ d.map Prod.fst := by
      intro hmem
      rw [List.map_append, List.nodup_append] at h
      exact h.2.2 entry.1 hmem entry.1 (by simp) rfl
    have happend : d ++ [entry] ++ entries = d ++ entry :: entries := by simp
    have hput : put d entry.1 entry.2 = d ++ [entry] := if_neg hnew
    rw [List.foldl_cons, hput, ih (by rwa [happend]), happend]

theorem mem_keys_foldl_put {key : κ} :
    key ∈ (entries.foldl (fun d entry => put d entry.1 entry.2) d).map Prod.fst ↔
      key ∈ d.map Prod.fst ∨ key ∈ entries.map Prod.fst := by
  induction entries generalizing d with
  | nil => simp
  | cons entry entries ih =>
    rw [List.foldl_cons, ih, mem_keys_put, List.map_cons, List.mem_cons, or_assoc]

theorem mem_foldl_put {entry : κ × ν} (h : entry ∈ entries.foldl (fun d entry => put d entry.1 entry.2) d) :
    entry ∈ d ∨ entry ∈ entries := by
  induction entries generalizing d with
  | nil => exact .inl h
  | cons first entries ih =>
    obtain hput | hentries := ih h
    · obtain heq | hd := mem_put hput
      · exact .inr (heq ▸ List.mem_cons_self)
      · exact .inl hd
    · exact .inr (List.mem_cons_of_mem _ hentries)

end Entries

end dict
