import IncidentDesk.Regex

namespace masking

variable {α : Type}

/-- What a rule finds at the beginning of a text: the part that is kept, and the
text after the part that is hidden. -/
abbrev Rule (α : Type) := List α → Option (List α × List α)

/-- What is kept is there, and something is read. -/
structure Rule.Sound (m : Rule α) : Prop where
  keeps : ∀ {w g rest}, m w = some (g, rest) → g <+: w ∧ g ≠ []
  ends : ∀ {w g rest}, m w = some (g, rest) → rest <:+ w
  reads : ∀ {w g rest}, m w = some (g, rest) → rest.length < w.length

/-- A text is gone over from the left, and `mark` put in place of what is hidden. -/
inductive Masks (mark : List α) (m : Rule α) : List α → List α → Prop
  | nil : Masks mark m [] []
  | keep {c : α} {x y : List α} (hnone : m (c :: x) = none) (h : Masks mark m x y) : Masks mark m (c :: x) (c :: y)
  | hide {x g rest y : List α} (hsome : m x = some (g, rest)) (h : Masks mark m rest y) :
      Masks mark m x (g ++ mark ++ y)

/-- Wherever the rule finds something, it is hidden already. -/
def Clean (mark : List α) (m : Rule α) (y : List α) : Prop :=
  ∀ w g rest, w <:+ y → m w = some (g, rest) → w = g ++ mark ++ rest

section Rules

variable {mark : List α} {m : Rule α} {x x' y y' w p t : List α} {c : α}

theorem Rule.Sound.nil (hm : m.Sound) : m [] = none := by
  cases h : m [] with
  | none => rfl
  | some found =>
    obtain ⟨hstarts, hne⟩ := hm.keeps h
    exact absurd (List.prefix_nil.mp hstarts) hne

theorem Masks.of_some (hm : m.Sound) {g rest : List α} (h : Masks mark m x y) (hsome : m x = some (g, rest)) :
    ∃ y', Masks mark m rest y' ∧ y = g ++ mark ++ y' := by
  cases h with
  | nil => cases hm.nil.symm.trans hsome
  | keep hnone => cases hnone.symm.trans hsome
  | hide hsome' h =>
    cases hsome.symm.trans hsome'
    exact ⟨_, h, rfl⟩

theorem Masks.unique (hm : m.Sound) (h : Masks mark m x y) (h' : Masks mark m x y') : y = y' := by
  induction h generalizing y' with
  | nil =>
    cases h' with
    | nil => rfl
    | hide hsome => cases hm.nil.symm.trans hsome
  | keep hnone h ih =>
    cases h' with
    | keep _ h' => rw [ih h']
    | hide hsome => cases hnone.symm.trans hsome
  | hide hsome h ih =>
    obtain ⟨z, hmasks, rfl⟩ := h'.of_some hm hsome
    rw [ih hmasks]

/-- A clean text stays as it is. -/
theorem Clean.masks (hm : m.Sound) (h : Clean mark m y) : Masks mark m y y := by
  induction hlength : y.length using Nat.strongRecOn generalizing y with
  | ind length ih =>
    cases hfound : m y with
    | none =>
      cases y with
      | nil => exact .nil
      | cons c y =>
        refine .keep hfound (ih y.length (by simp [← hlength]) ?_ rfl)
        exact fun w g rest hw => h w g rest (hw.trans (List.suffix_cons c y))
    | some found =>
      obtain ⟨g, rest⟩ := found
      have hy := h y g rest (List.suffix_refl y) hfound
      have hrest : rest <:+ y := hy ▸ List.suffix_append (g ++ mark) rest
      have hclean : Clean mark m rest := fun w g' rest' hw => h w g' rest' (hw.trans hrest)
      have hmasks := Masks.hide hfound (ih rest.length (hlength ▸ hm.reads hfound) hclean rfl)
      rwa [← hy] at hmasks

theorem Clean.suffix (h : Clean mark m y) (hw : w <:+ y) : Clean mark m w :=
  fun w' g rest hw' => h w' g rest (hw'.trans hw)

theorem suffix_append_cases {u v : List α} (hw : w <:+ u ++ v) :
    w <:+ v ∨ ∃ u', u' <:+ u ∧ u' ≠ [] ∧ w = u' ++ v := by
  induction u with
  | nil => exact .inl hw
  | cons c u ih =>
    obtain rfl | hw := List.suffix_cons_iff.mp hw
    · exact .inr ⟨c :: u, List.suffix_refl _, List.cons_ne_nil c u, rfl⟩
    · exact (ih hw).imp_right fun ⟨u', hu', hne, hsplit⟩ => ⟨u', hu'.trans (List.suffix_cons c u), hne, hsplit⟩

/-- What a masked text goes on with: it is masked from some place on, or it begins
inside a part that is kept, or inside a mark. -/
theorem Masks.suffix_cases (hm : m.Sound) (h : Masks mark m x y) (hw : w <:+ y) :
    (∃ x', x' <:+ x ∧ Masks mark m x' w) ∨
      (∃ x' g g' rest t, m x' = some (g, rest) ∧ g' <:+ g ∧ g' ≠ [] ∧ g' ≠ g ∧ w = g' ++ t) ∨
      ∃ tail t, tail <:+ mark ∧ tail ≠ [] ∧ w = tail ++ t := by
  induction h with
  | nil => exact .inl ⟨[], List.suffix_refl _, by rw [List.suffix_nil.mp hw]; exact .nil⟩
  | @keep c x y hnone h ih =>
    obtain rfl | hw := List.suffix_cons_iff.mp hw
    · exact .inl ⟨c :: x, List.suffix_refl _, .keep hnone h⟩
    · obtain ⟨x', hx', hmasks⟩ | hinside := ih hw
      · exact .inl ⟨x', hx'.trans (List.suffix_cons c x), hmasks⟩
      · exact .inr hinside
  | @hide x g rest y hsome h ih =>
    rw [List.append_assoc] at hw
    obtain hw | ⟨g', hg', hne, rfl⟩ := suffix_append_cases hw
    · obtain hw | ⟨tail, htail, hne, rfl⟩ := suffix_append_cases hw
      · obtain ⟨x', hx', hmasks⟩ | hinside := ih hw
        · exact .inl ⟨x', hx'.trans (hm.ends hsome), hmasks⟩
        · exact .inr hinside
      · exact .inr (.inr ⟨tail, y, htail, hne, rfl⟩)
    · by_cases hwhole : g' = g
      · refine .inl ⟨x, List.suffix_refl _, ?_⟩
        rw [hwhole, ← List.append_assoc]
        exact .hide hsome h
      · exact .inr (.inl ⟨x, g, g', rest, mark ++ y, hsome, hg', hne, hwhole, rfl⟩)

/-- Masking keeps the first character. -/
theorem Masks.head?_eq (hm : m.Sound) (h : Masks mark m x y) : y.head? = x.head? := by
  cases h with
  | nil => rfl
  | keep => rfl
  | hide hsome =>
    obtain ⟨⟨t, rfl⟩, hne⟩ := hm.keeps hsome
    obtain ⟨c, g, rfl⟩ := List.exists_cons_of_ne_nil hne
    rfl

/-- A text that is masked to one that begins without a mark begins so. -/
theorem Masks.begins (hm : m.Sound) {first : α} {more : List α} (hmark : mark = first :: more)
    (h : Masks mark m x (p ++ t)) (hp : first ∉ p) : p <+: x := by
  generalize hy : p ++ t = y at h
  induction h generalizing p with
  | nil =>
    obtain ⟨rfl, -⟩ := List.append_eq_nil_iff.mp hy
    exact List.prefix_refl _
  | @keep c x y hnone h ih =>
    cases p with
    | nil => exact List.nil_prefix
    | cons d p =>
      obtain ⟨rfl, hrest⟩ := List.cons.inj hy
      exact (List.prefix_cons_inj d).mpr (ih (fun hmem => hp (List.mem_cons_of_mem _ hmem)) hrest)
  | @hide x g rest y hsome h ih =>
    rw [List.append_assoc] at hy
    obtain ⟨u, rfl, -⟩ | ⟨u, rfl, hmore⟩ := List.append_eq_append_iff.mp hy
    · exact (List.prefix_append p u).trans (hm.keeps hsome).1
    · cases u with
      | nil =>
        rw [List.append_nil]
        exact (hm.keeps hsome).1
      | cons d u =>
        -- the part that is kept is over, and the mark begins
        rw [hmark] at hmore
        obtain ⟨rfl, -⟩ := List.cons.inj hmore
        exact absurd (List.mem_append_right g List.mem_cons_self) hp

/-- Where nothing is found in a part of a text, it is kept. -/
theorem Masks.passes (hnone : ∀ p', p' <:+ p → p' ≠ [] → m (p' ++ x') = none) (h : Masks mark m (p ++ x') y) :
    ∃ y', y = p ++ y' ∧ Masks mark m x' y' := by
  induction p generalizing y with
  | nil => exact ⟨y, rfl, h⟩
  | cons c p ih =>
    have hhere := hnone (c :: p) (List.suffix_refl _) (List.cons_ne_nil c p)
    cases h with
    | keep _ h =>
      obtain ⟨y', rfl, hmasks⟩ := ih (fun p' hp' => hnone p' (hp'.trans (List.suffix_cons c p))) h
      exact ⟨y', rfl, hmasks⟩
    | hide hsome => cases hhere.symm.trans hsome

section Sub

open regex

variable {r : Regex} {m : Rule Char} {mark : List Char}

/-- Replacing what a pattern matches by its first group and a mark is masking, by the
rule that finds what the pattern matches. -/
theorem masks_sub (hreads : r.reads = true)
    (hrun : ∀ before rest, ((r.run { before, rest, groups := [] }).head?).map (fun t => (t.group 1, t.rest)) = m rest)
    (x : List Char) : Masks mark m x (sub r (fun _ t => t.group 1 ++ mark) x) := by
  have hfrom : ∀ fuel (s : Pos), s.groups = [] → s.rest.length ≤ fuel →
      Masks mark m s.rest (subFrom r (fun _ t => t.group 1 ++ mark) fuel s) := by
    intro fuel
    induction fuel with
    | zero =>
      intro s hs hlength
      have hrest : s.rest = [] := List.length_eq_zero_iff.mp (by omega)
      rw [subFrom, hrest]
      exact .nil
    | succ fuel ih =>
      rintro ⟨before, rest, groups⟩ rfl hlength
      have hfound := hrun before rest
      rw [subFrom]
      cases hhead : (r.run { before, rest, groups := [] }).head? with
      | none =>
        rw [hhead] at hfound
        cases rest with
        | nil => exact .nil
        | cons c rest => exact .keep hfound.symm (ih { before := c :: before, rest, groups := [] } rfl (Nat.le_of_succ_le_succ hlength))
      | some t =>
        rw [hhead] at hfound
        have hlt := Regex.run_reads hreads (List.mem_of_mem_head? hhead)
        simp only [hlt, if_true]
        exact .hide hfound.symm (ih { t with groups := [] } rfl (by simp only at hlt hlength ⊢; omega))
  exact hfrom _ (Pos.start x) rfl (Nat.le_succ _)

end Sub

end Rules

end masking
