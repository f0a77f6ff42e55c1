import IncidentDesk.JsonText
import Mathlib.Data.List.TakeWhile

namespace incidentdesk.Json

section Digits

variable {text more : List Char}

/-- The digits at the beginning of a text end where something else follows. -/
theorem takeWhile_digits_append (hmore : ∀ c ∈ more.head?, c.isDigit = false) :
    (text.takeWhile Char.isDigit ++ more).takeWhile Char.isDigit = text.takeWhile Char.isDigit := by
  rw [List.takeWhile_append_of_pos fun c hc => List.mem_takeWhile_imp hc]
  cases more with
  | nil => rw [List.takeWhile_nil, List.append_nil]
  | cons c more => rw [List.takeWhile_cons_of_neg (by rw [hmore c rfl]; decide), List.append_nil]

theorem dropWhile_digits_append (hmore : ∀ c ∈ more.head?, c.isDigit = false) :
    (text.takeWhile Char.isDigit ++ more).dropWhile Char.isDigit = more := by
  have hsplit := List.takeWhile_append_dropWhile (p := Char.isDigit) (l := text.takeWhile Char.isDigit ++ more)
  rw [takeWhile_digits_append hmore] at hsplit
  exact List.append_cancel_left hsplit

theorem whole_append (hwhole : whole text ≠ []) (hmore : ∀ c ∈ more.head?, c.isDigit = false) :
    whole (whole text ++ more) = whole text := by
  by_cases hzero : ∃ rest, text = '0' :: rest
  · obtain ⟨rest, rfl⟩ := hzero
    rfl
  · have htext : whole text = text.takeWhile Char.isDigit := by
      unfold whole
      split
      · exact (hzero ⟨_, rfl⟩).elim
      · rfl
    rw [htext] at hwhole ⊢
    have hfirst : ∀ rest, text.takeWhile Char.isDigit ++ more ≠ '0' :: rest := by
      intro rest heq
      cases text with
      | nil => exact hwhole rfl
      | cons c text =>
        by_cases hdigit : c.isDigit = true
        · rw [List.takeWhile_cons_of_pos hdigit] at heq
          exact hzero ⟨text, by rw [(List.cons.inj heq).1]⟩
        · exact hwhole (List.takeWhile_cons_of_neg hdigit)
    unfold whole
    split
    · exact (hfirst _ ‹_›).elim
    · exact takeWhile_digits_append hmore

theorem whole_append_drop (text : List Char) : whole text ++ text.drop (whole text).length = text := by
  refine List.prefix_iff_eq_append.mp ?_
  unfold whole
  split
  · exact ⟨_, rfl⟩
  · exact List.takeWhile_prefix _

theorem fraction_of_head_ne (h : ∀ c ∈ text.head?, c ≠ '.') : fraction text = ([], text) := by
  unfold fraction
  split
  · exact absurd rfl (h '.' rfl)
  · rfl

/-- What is read of a fraction is read where something follows that belongs neither to
it nor to the number before it. -/
theorem fraction_append (text : List Char) : ∃ front, text = front ++ (fraction text).2 ∧
    (∀ c ∈ front.head?, c = '.') ∧
    ∀ more, (∀ c ∈ more.head?, c.isDigit = false ∧ c ≠ '.') → fraction (front ++ more) = ((fraction text).1, more) := by
  have hnone {text : List Char} (h : fraction text = ([], text)) : ∃ front, text = front ++ (fraction text).2 ∧
      (∀ c ∈ front.head?, c = '.') ∧ ∀ more : List Char,
      (∀ c ∈ more.head?, c.isDigit = false ∧ c ≠ '.') → fraction (front ++ more) = ((fraction text).1, more) := by
    rw [h]
    exact ⟨[], rfl, fun _ hc => (by cases hc), fun more hmore => fraction_of_head_ne fun c hc => (hmore c hc).2⟩
  by_cases hpoint : ∃ rest, text = '.' :: rest
  · obtain ⟨rest, rfl⟩ := hpoint
    by_cases hdigits : rest.takeWhile Char.isDigit = []
    · exact hnone (by rw [fraction, if_pos hdigits])
    · refine ⟨'.' :: rest.takeWhile Char.isDigit, ?_, ?_, fun more hmore => ?_⟩
      · rw [fraction, if_neg hdigits, List.cons_append, List.takeWhile_append_dropWhile]
      · rintro c ⟨⟩
        rfl
      · have hmore (c : Char) (hc : c ∈ more.head?) := (hmore c hc).1
        rw [List.cons_append, fraction, fraction, takeWhile_digits_append hmore, dropWhile_digits_append hmore,
          if_neg hdigits, if_neg hdigits]
  · refine hnone (fraction_of_head_ne fun c hc hpt => hpoint ?_)
    cases text with
    | nil => cases hc
    | cons c' rest =>
      obtain rfl := Option.some.inj hc
      exact ⟨rest, by rw [hpt]⟩

/-- What follows the sign of an exponent, if it has one. -/
def unsign (text : List Char) : List Char :=
  match text with
  | '+' :: more | '-' :: more => more
  | _ => text

theorem exponent_cons (e : Char) (rest : List Char) : exponent (e :: rest) =
    if (e ≠ 'e' ∧ e ≠ 'E') ∨ (unsign rest).takeWhile Char.isDigit = [] then ([], e :: rest)
    else ((unsign rest).takeWhile Char.isDigit, (unsign rest).dropWhile Char.isDigit) :=
  rfl

theorem unsign_split (text : List Char) : ∃ sign, text = sign ++ unsign text ∧
    ∀ more, (∀ c ∈ more.head?, c.isDigit = true) → unsign (sign ++ more) = more := by
  have hdigit {more : List Char} (h : ∀ c ∈ more.head?, c.isDigit = true) : unsign more = more := by
    unfold unsign
    split
    · cases h '+' rfl
    · cases h '-' rfl
    · rfl
  unfold unsign
  split
  · exact ⟨['+'], rfl, fun _ _ => rfl⟩
  · exact ⟨['-'], rfl, fun _ _ => rfl⟩
  · exact ⟨[], rfl, fun _ hmore => hdigit hmore⟩

/-- The same of an exponent. -/
theorem exponent_append (text : List Char) : ∃ front, text = front ++ (exponent text).2 ∧
    (∀ c ∈ front.head?, c = 'e' ∨ c = 'E') ∧
    ∀ more, Ends more → exponent (front ++ more) = ((exponent text).1, more) := by
  have hnone {text : List Char} (h : exponent text = ([], text)) : ∃ front, text = front ++ (exponent text).2 ∧
      (∀ c ∈ front.head?, c = 'e' ∨ c = 'E') ∧
      ∀ more, Ends more → exponent (front ++ more) = ((exponent text).1, more) := by
    rw [h]
    exact ⟨[], rfl, fun _ hc => (by cases hc), fun more hmore => exponent_of_ends hmore⟩
  cases text with
  | nil => exact hnone rfl
  | cons e rest =>
    by_cases hstop : (e ≠ 'e' ∧ e ≠ 'E') ∨ (unsign rest).takeWhile Char.isDigit = []
    · exact hnone ((exponent_cons e rest).trans (if_pos hstop))
    · have hexponent := (exponent_cons e rest).trans (if_neg hstop)
      obtain ⟨hletter, hdigits⟩ := not_or.mp hstop
      obtain ⟨sign, hrest, hunsign⟩ := unsign_split rest
      rw [hexponent]
      refine ⟨e :: (sign ++ (unsign rest).takeWhile Char.isDigit), ?_, ?_, fun more hmore => ?_⟩
      · rw [List.cons_append, List.append_assoc, List.takeWhile_append_dropWhile, ← hrest]
      · rintro c ⟨⟩
        by_contra h
        exact hletter (not_or.mp h)
      · have hmore (c : Char) (hc : c ∈ more.head?) := (hmore c hc).1
        have hhead : ∀ c ∈ ((unsign rest).takeWhile Char.isDigit ++ more).head?, c.isDigit = true := by
          intro c hc
          rw [List.head?_append_of_ne_nil _ hdigits] at hc
          exact List.mem_takeWhile_imp (List.mem_of_mem_head? hc)
        rw [List.cons_append, List.append_assoc, exponent_cons, hunsign _ hhead, takeWhile_digits_append hmore,
          dropWhile_digits_append hmore, if_neg hstop]

theorem whole_cons (h : whole text ≠ []) : ∃ c tail, whole text = c :: tail ∧ c.isDigit = true := by
  have hall : ∀ c ∈ whole text, c.isDigit = true := by
    unfold whole
    split
    · exact List.forall_mem_singleton.mpr rfl
    · exact fun c hc => List.mem_takeWhile_imp hc
  obtain ⟨c, tail, hwhole⟩ := List.exists_cons_of_ne_nil h
  exact ⟨c, tail, hwhole, hall c (hwhole ▸ List.mem_cons_self)⟩

theorem unsigned_append {sign : Int} {v : Json} {rest : List Char} (h : unsigned sign text = some (v, rest)) :
    ∃ c tail, text = c :: tail ++ rest ∧ c.isDigit = true ∧
      ∀ more, Ends more → unsigned sign (c :: tail ++ more) = some (v, more) := by
  unfold unsigned at h
  split at h
  · cases h
  · rename_i hwhole
    obtain ⟨point, hpoint, hdot, hfraction⟩ := fraction_append (text.drop (whole text).length)
    obtain ⟨power, hpower, hletter, hexponent⟩ := exponent_append (fraction (text.drop (whole text).length)).2
    have htext := whole_append_drop text
    simp only [Option.some.injEq, Prod.mk.injEq] at h
    obtain ⟨rfl, rfl⟩ := h
    obtain ⟨c, tail, hcons, hdigit⟩ := whole_cons hwhole
    have hfront (more : List Char) : c :: (tail ++ (point ++ power)) ++ more = whole text ++ (point ++ (power ++ more)) := by
      simp only [hcons, List.cons_append, List.append_assoc]
    refine ⟨c, tail ++ (point ++ power), ?_, hdigit, fun more hmore => ?_⟩
    · rw [hfront, ← hpower, ← hpoint, htext]
    · have hafter : ∀ c ∈ (power ++ more).head?, c.isDigit = false ∧ c ≠ '.' := by
        intro c hc
        cases power with
        | nil => exact ⟨(hmore c hc).1, (hmore c hc).2.1⟩
        | cons c' power =>
          obtain rfl := Option.some.inj hc
          obtain rfl | rfl := hletter c' rfl
          · decide
          · decide
      have hpointed : ∀ c ∈ (point ++ (power ++ more)).head?, c.isDigit = false := by
        intro c hc
        cases point with
        | nil => exact (hafter c hc).1
        | cons c' point =>
          obtain rfl := Option.some.inj hc
          obtain rfl := hdot c' rfl
          decide
      have hfirst := whole_append hwhole hpointed
      have hsecond := hfraction (power ++ more) hafter
      have hthird := hexponent more hmore
      rw [hfront]
      unfold unsigned
      rw [hfirst, if_neg hwhole, List.drop_left, hsecond]
      simp only [hthird]

theorem number_append {v : Json} {rest : List Char} (h : number text = some (v, rest)) :
    ∃ c tail, text = c :: tail ++ rest ∧ (c.isDigit = true ∨ c = '-' ∧ ∃ d more, tail = d :: more ∧ d.isDigit = true) ∧
      ∀ more, Ends more → number (c :: tail ++ more) = some (v, more) := by
  unfold number at h
  split at h
  · obtain ⟨d, tail, rfl, hdigit, happend⟩ := unsigned_append h
    exact ⟨'-', d :: tail, rfl, .inr ⟨rfl, d, tail, rfl, hdigit⟩, happend⟩
  · obtain ⟨c, tail, rfl, hdigit, happend⟩ := unsigned_append h
    refine ⟨c, tail, rfl, .inl hdigit, fun more hmore => ?_⟩
    have hsign : c ≠ '-' := by
      rintro rfl
      cases hdigit
    rw [List.cons_append, number]
    · exact happend more hmore
    · rintro more heq
      exact hsign (List.cons.inj heq).1

end Digits

theorem unquote_append {text rest : List Char} {units : List Nat} (h : unquote text = some (units, rest)) :
    ∃ front, text = front ++ rest ∧ ∀ more, unquote (front ++ more) = some (units, more) := by
  fun_induction unquote text generalizing units with
  | case1 tail =>
    cases h
    exact ⟨['"'], rfl, fun _ => rfl⟩
  | case2 a b c d tail ih =>
    obtain ⟨n, hn, h⟩ := Option.bind_eq_some_iff.mp h
    obtain ⟨⟨tailUnits, tailRest⟩, htail, h⟩ := Option.bind_eq_some_iff.mp h
    cases h
    obtain ⟨front, hfront, happend⟩ := ih htail
    refine ⟨'\\' :: 'u' :: a :: b :: c :: d :: front, by rw [hfront]; rfl, fun more => ?_⟩
    simp only [List.cons_append]
    rw [unquote, hn, happend]
    rfl
  | case3 c tail hshort ih =>
    obtain ⟨letter, hletter, h⟩ := Option.bind_eq_some_iff.mp h
    obtain ⟨⟨tailUnits, tailRest⟩, htail, h⟩ := Option.bind_eq_some_iff.mp h
    cases h
    obtain ⟨front, hfront, happend⟩ := ih htail
    have hu : c ≠ 'u' := by
      rintro rfl
      cases hletter
    refine ⟨'\\' :: c :: front, by rw [hfront]; rfl, fun more => ?_⟩
    simp only [List.cons_append]
    rw [unquote, hletter, happend]
    · rfl
    · exact fun _ _ _ _ _ heq _ => hu heq
  | case4 => cases h
  | case5 c tail hquote hunicode hescape hplain ih =>
    obtain ⟨⟨tailUnits, tailRest⟩, htail, h⟩ := Option.bind_eq_some_iff.mp h
    cases h
    obtain ⟨front, hfront, happend⟩ := ih htail
    have hbackslash : c ≠ '\\' := fun heq => hplain (.inr heq)
    refine ⟨c :: front, by rw [hfront]; rfl, fun more => ?_⟩
    rw [List.cons_append, unquote, if_neg hplain, happend]
    · rfl
    · exact hquote
    · exact fun _ _ _ _ _ heq _ => hbackslash heq
    · exact fun _ _ heq _ => hbackslash heq
  | case6 => cases h

section Spaces

variable {text rest : List Char} {c : Char}

/-- The spaces before the first character that is none. -/
theorem skipSpaces_eq_cons (h : skipSpaces text = c :: rest) : ∃ spaces, text = spaces ++ c :: rest ∧
    (∀ c ∈ spaces, isSpace c = true) ∧ isSpace c = false := by
  refine ⟨text.takeWhile isSpace, ?_, fun _ hc => List.mem_takeWhile_imp hc, ?_⟩
  · rw [← h]
    exact List.takeWhile_append_dropWhile.symm
  · have hhead := List.head?_dropWhile_not isSpace text
    unfold skipSpaces at h
    rw [h] at hhead
    simpa using hhead

theorem skipSpaces_spaces {spaces : List Char} (hspaces : ∀ c ∈ spaces, isSpace c = true) (hc : isSpace c = false)
    (more : List Char) : skipSpaces (spaces ++ c :: more) = c :: more := by
  rw [skipSpaces_append hspaces, skipSpaces_cons hc]

/-- The spaces before what is read next. -/
theorem skipSpaces_eq_append {front : List Char} (h : skipSpaces text = front ++ rest) (hfront : front ≠ []) :
    ∃ spaces, text = spaces ++ (front ++ rest) ∧ (∀ c ∈ spaces, isSpace c = true) ∧
      ∀ more, skipSpaces (spaces ++ (front ++ more)) = front ++ more := by
  obtain ⟨c, tail, rfl⟩ := List.exists_cons_of_ne_nil hfront
  obtain ⟨spaces, htext, hspaces, hc⟩ := skipSpaces_eq_cons h
  exact ⟨spaces, htext, hspaces, fun more => skipSpaces_spaces hspaces hc _⟩

theorem ends_of_isSpace (h : isSpace c = true) : Ends (c :: rest) := by
  apply ends_cons
  simp only [isSpace, Bool.or_eq_true, decide_eq_true_eq] at h
  obtain ((rfl | rfl) | rfl) | rfl := h <;> decide

theorem ends_spaces {spaces : List Char} (hspaces : ∀ c ∈ spaces, isSpace c = true) (hrest : Ends rest) :
    Ends (spaces ++ rest) := by
  cases spaces with
  | nil => exact hrest
  | cons c spaces => exact ends_of_isSpace (hspaces c List.mem_cons_self)

end Spaces

/-- A value that was read from a text is read from what it took of the text, whatever
follows, unless that would go on with a number. -/
structure Takes (fuel : Nat) (text : List Char) (v : Json) (rest front : List Char) : Prop where
  split : text = front ++ rest
  nonempty : front ≠ []
  closed : front.head? = some '{' → ∃ body, front = body ++ ['}']
  again : ∀ more, Ends more ∨ front.head? = some '{' → ∀ fuel' ≥ fuel, value fuel' (front ++ more) = some (v, more)

/-- The same of the rest of an array and of the rest of an object. -/
structure ElementsTake (fuel : Nat) (text : List Char) (items : List Json) (rest front : List Char) : Prop where
  split : text = front ++ rest
  nonempty : front ≠ []
  again : ∀ more, ∀ fuel' ≥ fuel, value.elements fuel' (front ++ more) = some (items, more)

structure MembersTake (fuel : Nat) (text : List Char) (pairs : List (String × Json)) (rest front : List Char) : Prop where
  split : text = front ++ rest
  closed : ∃ body, front = body ++ ['}']
  again : ∀ more, ∀ fuel' ≥ fuel, value.members fuel' (front ++ more) = some (pairs, more)

section Steps

variable {fuel : Nat} {text rest : List Char}
  (hvalue : ∀ text v rest, value fuel text = some (v, rest) → ∃ front, Takes fuel text v rest front)

include hvalue

theorem elements_take {items : List Json}
    (helements : ∀ text items rest, value.elements fuel text = some (items, rest) →
      ∃ front, ElementsTake fuel text items rest front)
    (h : value.elements (fuel + 1) text = some (items, rest)) :
    ∃ front, ElementsTake (fuel + 1) text items rest front := by
  simp only [value.elements, bind, Option.bind_eq_some_iff] at h
  obtain ⟨⟨item, tail⟩, hitem, h⟩ := h
  obtain ⟨front, hfront⟩ := hvalue _ _ _ hitem
  have hnonempty (more : List Char) : front ++ more ≠ [] := List.append_ne_nil_of_left_ne_nil hfront.nonempty _
  split at h
  · rename_i hspaces
    cases h
    obtain ⟨spaces, rfl, hall, hc⟩ := skipSpaces_eq_cons hspaces
    refine ⟨front ++ (spaces ++ [']']), ?_, hnonempty _, fun more fuel' hfuel => ?_⟩
    · rw [hfront.split]
      simp only [List.append_assoc, List.singleton_append]
    · obtain _ | fuel' := fuel'
      · omega
      · have hagain := hfront.again (spaces ++ ']' :: more) (.inl (ends_spaces hall ends_bracket)) fuel' (by omega)
        simp only [List.append_assoc, List.singleton_append]
        rw [value.elements, hagain]
        simp only [bind, Option.bind, skipSpaces_spaces hall hc]
  · rename_i hspaces
    obtain ⟨⟨items, rest⟩, hitems, h⟩ := Option.map_eq_some_iff.mp h
    cases h
    obtain ⟨spaces, rfl, hall, hc⟩ := skipSpaces_eq_cons hspaces
    obtain ⟨front', hfront'⟩ := helements _ _ _ hitems
    obtain ⟨spaces', rfl, -, hskip⟩ := skipSpaces_eq_append hfront'.split hfront'.nonempty
    refine ⟨front ++ (spaces ++ ',' :: (spaces' ++ front')), ?_, hnonempty _, fun more fuel' hfuel => ?_⟩
    · rw [hfront.split]
      simp only [List.append_assoc, List.cons_append]
    · obtain _ | fuel' := fuel'
      · omega
      · have hagain := hfront.again (spaces ++ ',' :: (spaces' ++ (front' ++ more)))
          (.inl (ends_spaces hall ends_comma)) fuel' (by omega)
        simp only [List.append_assoc, List.cons_append]
        rw [value.elements, hagain]
        simp only [bind, Option.bind, skipSpaces_spaces hall hc, hskip, hfront'.again more fuel' (by omega),
          Option.map_some]
  · cases h

theorem members_take {pairs : List (String × Json)}
    (hmembers : ∀ text pairs rest, value.members fuel text = some (pairs, rest) →
      ∃ front, MembersTake fuel text pairs rest front)
    (h : value.members (fuel + 1) text = some (pairs, rest)) :
    ∃ front, MembersTake (fuel + 1) text pairs rest front := by
  simp only [value.members, bind, Option.bind_eq_some_iff] at h
  obtain ⟨⟨key, tail⟩, hkey, h⟩ := h
  obtain ⟨name, rfl, hname⟩ := unquote_append hkey
  split at h
  · rename_i hcolon
    obtain ⟨⟨item, tail'⟩, hitem, h⟩ := Option.bind_eq_some_iff.mp h
    obtain ⟨spaces, rfl, hall, hc⟩ := skipSpaces_eq_cons hcolon
    obtain ⟨front, hfront⟩ := hvalue _ _ _ hitem
    obtain ⟨spaces', rfl, -, hskip⟩ := skipSpaces_eq_append hfront.split hfront.nonempty
    split at h
    · rename_i hbrace
      cases h
      obtain ⟨spaces'', rfl, hall'', hc''⟩ := skipSpaces_eq_cons hbrace
      refine ⟨name ++ (spaces ++ ':' :: (spaces' ++ (front ++ (spaces'' ++ ['}'])))), ?_, ?_, fun more fuel' hfuel => ?_⟩
      · simp only [List.append_assoc, List.cons_append, List.nil_append]
      · exact ⟨name ++ (spaces ++ ':' :: (spaces' ++ (front ++ spaces''))), by
          simp only [List.append_assoc, List.cons_append]⟩
      · obtain _ | fuel' := fuel'
        · omega
        · have hagain := hfront.again (spaces'' ++ '}' :: more) (.inl (ends_spaces hall'' ends_brace)) fuel' (by omega)
          simp only [List.append_assoc, List.cons_append, List.nil_append]
          rw [value.members, hname]
          simp only [bind, Option.bind, skipSpaces_spaces hall hc, hskip, hagain, skipSpaces_spaces hall'' hc'']
    · rename_i hcomma
      split at h
      · rename_i hquote
        obtain ⟨⟨pairs, rest⟩, hpairs, h⟩ := Option.map_eq_some_iff.mp h
        cases h
        obtain ⟨spaces'', rfl, hall'', hc''⟩ := skipSpaces_eq_cons hcomma
        obtain ⟨spaces₃, rfl, hall₃, hc₃⟩ := skipSpaces_eq_cons hquote
        obtain ⟨front', hfront'⟩ := hmembers _ _ _ hpairs
        obtain ⟨body, rfl⟩ := hfront'.closed
        refine ⟨name ++ (spaces ++ ':' :: (spaces' ++ (front ++ (spaces'' ++ ',' :: (spaces₃ ++ '"' :: (body ++ ['}'])))))),
          ?_, ?_, fun more fuel' hfuel => ?_⟩
        · simp only [hfront'.split, List.append_assoc, List.cons_append]
        · exact ⟨name ++ (spaces ++ ':' :: (spaces' ++ (front ++ (spaces'' ++ ',' :: (spaces₃ ++ '"' :: body))))), by
            simp only [List.append_assoc, List.cons_append]⟩
        · obtain _ | fuel' := fuel'
          · omega
          · have hagain := hfront.again (spaces'' ++ ',' :: (spaces₃ ++ '"' :: (body ++ '}' :: more)))
              (.inl (ends_spaces hall'' ends_comma)) fuel' (by omega)
            have hmore := hfront'.again more fuel' (by omega)
            simp only [List.append_assoc, List.cons_append, List.nil_append] at hmore ⊢
            rw [value.members, hname]
            simp only [bind, Option.bind, skipSpaces_spaces hall hc, hskip, hagain, skipSpaces_spaces hall'' hc'',
              skipSpaces_spaces hall₃ hc₃, hmore, Option.map_some]
      · cases h
    · cases h
  · cases h

end Steps

/-- How a number begins. -/
def Signed : List Char → Prop
  | [] => False
  | c :: tail => c.isDigit = true ∨ c = '-' ∧ ∃ d more, tail = d :: more ∧ d.isDigit = true

theorem Signed.ne {c d : Char} {tail more : List Char} (h : Signed (c :: tail)) (hd : d.isDigit = false)
    (hsign : d ≠ '-') : c :: tail ≠ d :: more := by
  intro heq
  obtain rfl := (List.cons.inj heq).1
  obtain hdigit | ⟨hminus, -⟩ := h
  · cases hd.symm.trans hdigit
  · exact hsign hminus

theorem value_of_signed {text : List Char} (h : Signed text) (fuel : Nat) : value (fuel + 1) text = number text := by
  cases text with
  | nil => exact h.elim
  | cons c tail =>
    unfold value
    split
    case h_9 heq =>
      obtain ⟨rfl, rfl⟩ := List.cons.inj heq
      obtain hdigit | ⟨-, d, more, heq, hdigit⟩ := h
      · cases hdigit
      · obtain ⟨rfl, -⟩ := List.cons.inj heq
        cases hdigit
    case h_10 => rfl
    all_goals
      rename_i heq
      refine (h.ne ?_ ?_ heq).elim
      · decide
      · decide

theorem takes_cons {fuel : Nat} {c : Char} {tail rest : List Char} {v : Json} (hc : c ≠ '{')
    (hagain : ∀ more, Ends more → ∀ fuel' ≥ fuel, value fuel' (c :: tail ++ more) = some (v, more)) :
    Takes fuel (c :: tail ++ rest) v rest (c :: tail) where
  split := rfl
  nonempty := List.cons_ne_nil _ _
  closed h := (hc (Option.some.inj h)).elim
  again more hmore := hagain more (hmore.resolve_right fun h => hc (Option.some.inj h))

theorem value_take {fuel : Nat} {text rest : List Char} {v : Json}
    (helements : ∀ text items rest, value.elements fuel text = some (items, rest) →
      ∃ front, ElementsTake fuel text items rest front)
    (hmembers : ∀ text pairs rest, value.members fuel text = some (pairs, rest) →
      ∃ front, MembersTake fuel text pairs rest front)
    (h : value (fuel + 1) text = some (v, rest)) : ∃ front, Takes (fuel + 1) text v rest front := by
  have hliteral {c : Char} {rest : List Char} {v : Json} (tail : List Char) (hc : c ≠ '{')
      (hagain : ∀ fuel more, value (fuel + 1) (c :: tail ++ more) = some (v, more)) :
      ∃ front, Takes (fuel + 1) (c :: tail ++ rest) v rest front := by
    refine ⟨_, takes_cons hc fun more _ fuel' hfuel => ?_⟩
    obtain _ | fuel' := fuel'
    · omega
    · exact hagain fuel' more
  unfold value at h
  split at h
  · obtain ⟨⟨units, rest⟩, hunits, h⟩ := Option.map_eq_some_iff.mp h
    cases h
    obtain ⟨name, rfl, hname⟩ := unquote_append hunits
    refine ⟨'"' :: name, takes_cons (by decide) fun more _ fuel' hfuel => ?_⟩
    obtain _ | fuel' := fuel'
    · omega
    · rw [List.cons_append, value, hname, Option.map_some]
  · split at h
    · rename_i hbrace
      cases h
      obtain ⟨spaces, rfl, hall, hc⟩ := skipSpaces_eq_cons hbrace
      refine ⟨'{' :: (spaces ++ ['}']), by simp, List.cons_ne_nil _ _, fun _ => ⟨'{' :: spaces, rfl⟩,
        fun more _ fuel' hfuel => ?_⟩
      obtain _ | fuel' := fuel'
      · omega
      · simp only [List.cons_append, List.append_assoc, List.nil_append]
        rw [value, skipSpaces_spaces hall hc]
        rfl
    · rename_i hquote
      obtain ⟨⟨pairs, rest⟩, hpairs, h⟩ := Option.map_eq_some_iff.mp h
      cases h
      obtain ⟨spaces, rfl, hall, hc⟩ := skipSpaces_eq_cons hquote
      obtain ⟨front, hfront⟩ := hmembers _ _ _ hpairs
      obtain ⟨body, hbody⟩ := hfront.closed
      refine ⟨'{' :: (spaces ++ '"' :: front), by simp [hfront.split], List.cons_ne_nil _ _,
        fun _ => ⟨'{' :: (spaces ++ '"' :: body), by simp [hbody]⟩, fun more _ fuel' hfuel => ?_⟩
      obtain _ | fuel' := fuel'
      · omega
      · simp only [List.cons_append, List.append_assoc]
        rw [value, skipSpaces_spaces hall hc]
        simp only [hfront.again more fuel' (by omega), Option.map_some]
    · cases h
  · split at h
    · rename_i hbracket
      cases h
      obtain ⟨spaces, rfl, hall, hc⟩ := skipSpaces_eq_cons hbracket
      have htext : '[' :: (spaces ++ ']' :: rest) = '[' :: (spaces ++ [']']) ++ rest := by simp
      rw [htext]
      refine ⟨_, takes_cons (by decide) fun more _ fuel' hfuel => ?_⟩
      obtain _ | fuel' := fuel'
      · omega
      · simp only [List.cons_append, List.append_assoc, List.nil_append]
        rw [value, skipSpaces_spaces hall hc]
        rfl
    · rename_i hbracket
      obtain ⟨⟨items, rest⟩, hitems, h⟩ := Option.map_eq_some_iff.mp h
      cases h
      obtain ⟨front, hfront⟩ := helements _ _ _ hitems
      obtain ⟨spaces, rfl, -, hskip⟩ := skipSpaces_eq_append hfront.split hfront.nonempty
      have htext : '[' :: (spaces ++ (front ++ rest)) = '[' :: (spaces ++ front) ++ rest := by simp
      rw [htext]
      refine ⟨_, takes_cons (by decide) fun more _ fuel' hfuel => ?_⟩
      obtain _ | fuel' := fuel'
      · omega
      · obtain ⟨c, tail, rfl⟩ := List.exists_cons_of_ne_nil hfront.nonempty
        have hagain := hfront.again more fuel' (by omega)
        have hskip := hskip more
        have hfirst : c ≠ ']' := fun heq => hbracket (tail ++ rest) (by rw [hfront.split, heq]; rfl)
        simp only [List.cons_append, List.append_assoc] at hskip hagain ⊢
        rw [value, hskip]
        split
        · rename_i heq
          exact (hfirst (List.cons.inj heq).1).elim
        · rw [hagain, Option.map_some]
  · cases h
    exact hliteral ['u', 'l', 'l'] (by decide) fun _ _ => rfl
  · cases h
    exact hliteral ['r', 'u', 'e'] (by decide) fun _ _ => rfl
  · cases h
    exact hliteral ['a', 'l', 's', 'e'] (by decide) fun _ _ => rfl
  · cases h
    exact hliteral ['a', 'N'] (by decide) fun _ _ => rfl
  · cases h
    exact hliteral "nfinity".toList (by decide) fun _ _ => rfl
  · cases h
    exact hliteral "Infinity".toList (by decide) fun _ _ => rfl
  · obtain ⟨c, tail, rfl, hsigned, happend⟩ := number_append h
    have hbrace : c ≠ '{' := by
      rintro rfl
      obtain hdigit | ⟨hminus, -⟩ := hsigned
      · cases hdigit
      · cases hminus
    refine ⟨_, takes_cons hbrace fun more hmore fuel' hfuel => ?_⟩
    obtain _ | fuel' := fuel'
    · omega
    · have hstart : Signed (c :: tail ++ more) := by
        obtain hdigit | ⟨hminus, d, more', rfl, hdigit⟩ := hsigned
        · exact .inl hdigit
        · exact .inr ⟨hminus, d, more' ++ more, rfl, hdigit⟩
      rw [value_of_signed hstart]
      exact happend more hmore

/-- What is read from a text depends on what it takes of it only. -/
theorem value_takes (fuel : Nat) :
    (∀ text v rest, value fuel text = some (v, rest) → ∃ front, Takes fuel text v rest front) ∧
      (∀ text items rest, value.elements fuel text = some (items, rest) →
        ∃ front, ElementsTake fuel text items rest front) ∧
      (∀ text pairs rest, value.members fuel text = some (pairs, rest) →
        ∃ front, MembersTake fuel text pairs rest front) := by
  induction fuel with
  | zero => exact ⟨fun _ _ _ h => (by cases h), fun _ _ _ h => (by cases h), fun _ _ _ h => (by cases h)⟩
  | succ fuel ih =>
    obtain ⟨hvalue, helements, hmembers⟩ := ih
    exact ⟨fun _ _ _ h => value_take helements hmembers h, fun _ _ _ h => elements_take hvalue helements h,
      fun _ _ _ h => members_take hvalue hmembers h⟩

theorem chars_obj (fmt : Format) (fields : List (String × Json)) : ∃ more, (obj fields).chars fmt = '{' :: more :=
  ⟨_, by rw [chars]⟩

/-- An object is not read from a part of its text, not even with something else behind
it. -/
theorem loads_cut {fmt : Format} (hfmt : fmt.Proper) {fields : List (String × Json)} (hv : (obj fields).Distinct)
    {front back : List Char} (hcut : (obj fields).chars fmt = front ++ back) (hback : back ≠ []) {tail : List Char}
    (htail : ∀ c ∈ tail, isSpace c = false ∧ c ≠ '}') (hfront : front = [] → tail = []) :
    loads (front ++ tail) = none := by
  obtain ⟨more, hbrace⟩ := chars_obj fmt fields
  cases front with
  | nil =>
    rw [hfront rfl]
    rfl
  | cons c front =>
    obtain rfl : c = '{' := (List.cons.inj (hcut.symm.trans hbrace)).1
    by_contra hsome
    obtain ⟨w, hloads⟩ := Option.ne_none_iff_exists'.mp hsome
    simp only [loads, bind, Option.bind_eq_some_iff] at hloads
    obtain ⟨⟨v, rest⟩, hvalue, hrest⟩ := hloads
    rw [List.cons_append, skipSpaces_cons (by rfl)] at hvalue
    obtain ⟨taken, htaken⟩ := (value_takes _).1 _ _ _ hvalue
    have hspaces : ∀ c ∈ rest, isSpace c = true := by
      split at hrest
      · rename_i hskip
        exact List.dropWhile_eq_nil_iff.mp hskip
      · cases hrest
    have hhead : taken.head? = some '{' := by
      obtain ⟨c, taken, rfl⟩ := List.exists_cons_of_ne_nil htaken.nonempty
      rw [(List.cons.inj htaken.split).1]
      rfl
    have hnil : tail = [] := by
      obtain htail' | ⟨init, last, rfl⟩ := List.eq_nil_or_concat' tail
      · exact htail'
      have hlast := htail last (List.mem_append_right _ (List.mem_singleton_self _))
      have hsplit := htaken.split
      rw [← List.append_assoc, ← List.cons_append] at hsplit
      obtain rfl | ⟨init', last', rfl⟩ := List.eq_nil_or_concat' rest
      · obtain ⟨body, rfl⟩ := htaken.closed hhead
        rw [List.append_nil] at hsplit
        have heq := List.singleton_inj.mp (List.append_inj' hsplit rfl).2
        exact (hlast.2 heq).elim
      · rw [← List.append_assoc] at hsplit
        have heq := List.singleton_inj.mp (List.append_inj' hsplit rfl).2
        have hspace := hspaces last' (List.mem_append_right _ (List.mem_singleton_self _))
        rw [← heq, hlast.1] at hspace
        cases hspace
    subst hnil
    rw [List.append_nil] at htaken
    obtain ⟨fuel, htakenFuel, hfuel⟩ : ∃ fuel, ('{' :: front).length + 1 ≤ fuel ∧ ((obj fields).chars fmt).length < fuel :=
      ⟨_, Nat.le_max_left _ (((obj fields).chars fmt).length + 1), Nat.le_max_right _ _⟩
    have hread := htaken.again (rest ++ back) (.inr hhead) fuel htakenFuel
    have hwritten := value_chars hfmt (obj fields) hv fuel [] hfuel fun _ h => by cases h
    rw [List.append_nil, hcut, htaken.split, List.append_assoc] at hwritten
    have hend := Option.some.inj (hread.symm.trans hwritten)
    exact hback (List.append_eq_nil_iff.mp (Prod.mk.inj hend).2).2

section Visible

/-- No control characters. -/
def Visible (text : List Char) : Prop := ∀ c ∈ text, 31 < c.toNat

theorem Plain.visible {text : List Char} (h : Plain text) : Visible text := fun c hc => (h c hc).1

theorem visible_append {text more : List Char} : Visible (text ++ more) ↔ Visible text ∧ Visible more :=
  List.forall_mem_append

theorem visible_cons {c : Char} {text : List Char} : Visible (c :: text) ↔ 31 < c.toNat ∧ Visible text :=
  List.forall_mem_cons

theorem visible_escape (ascii : Bool) (c : Char) : Visible (escape ascii c) := by
  unfold escape
  cases hletter : shortEscapes.lookup c with
  | some letter =>
    obtain ⟨before, after, hmem, -⟩ := List.lookup_eq_some_iff.mp hletter
    have hshort : ∀ e ∈ shortEscapes, 31 < e.2.toNat := by decide
    exact visible_cons.mpr ⟨by decide, visible_cons.mpr ⟨hshort (c, letter) (by simp [hmem]), List.forall_mem_nil _⟩⟩
  | none =>
    dsimp only
    split
    · split
      · exact (plain_unicodeEscape _).visible
      · exact visible_append.mpr ⟨(plain_unicodeEscape _).visible, (plain_unicodeEscape _).visible⟩
    · rename_i hplain
      simp only [Bool.or_eq_true, decide_eq_true_eq, not_or, not_lt] at hplain
      exact visible_cons.mpr ⟨by omega, List.forall_mem_nil _⟩

theorem visible_quoted (ascii : Bool) (text : String) : Visible (quoted ascii text) := by
  rw [quoted, visible_cons, visible_append, visible_cons]
  refine ⟨by decide, ?_, by decide, List.forall_mem_nil _⟩
  intro c hc
  obtain ⟨d, -, hd⟩ := List.mem_flatMap.mp hc
  exact visible_escape ascii d c hd

theorem visible_intercalate {comma : List Char} (hcomma : Visible comma) {texts : List (List Char)}
    (h : ∀ text ∈ texts, Visible text) : Visible (comma.intercalate texts) := by
  induction texts with
  | nil => exact List.forall_mem_nil _
  | cons text texts ih =>
    obtain ⟨htext, htexts⟩ := List.forall_mem_cons.mp h
    cases texts with
    | nil => rwa [List.intercalate_singleton]
    | cons next texts =>
      rw [List.intercalate_cons_cons, visible_append, visible_append]
      exact ⟨⟨htext, hcomma⟩, ih htexts⟩

/-- What stands between items and after keys is visible. -/
def Format.Visible (fmt : Format) : Prop := Json.Visible fmt.comma ∧ Json.Visible fmt.colon

variable {fmt : Format}

mutual

/-- A document is written without control characters. -/
theorem visible_chars (hfmt : fmt.Visible) : (v : Json) → Visible (v.chars fmt)
  | .null => (show Plain ['n', 'u', 'l', 'l'] by decide).visible
  | .bool true => (show Plain ['t', 'r', 'u', 'e'] by decide).visible
  | .bool false => (show Plain ['f', 'a', 'l', 's', 'e'] by decide).visible
  | .num n => (plain_digits n).visible
  | .str text => visible_quoted _ text
  | .arr items => by
    rw [chars, visible_cons, visible_append, visible_cons]
    exact ⟨by decide, visible_intercalate hfmt.1 (visible_items hfmt items), by decide, List.forall_mem_nil _⟩
  | .obj fields => by
    rw [chars, visible_cons, visible_append, visible_cons]
    exact ⟨by decide, visible_intercalate hfmt.1 (visible_members hfmt fields), by decide, List.forall_mem_nil _⟩

theorem visible_items (hfmt : fmt.Visible) : (items : List Json) → ∀ text ∈ chars.itemTexts fmt items, Visible text
  | [] => List.forall_mem_nil _
  | item :: items => List.forall_mem_cons.mpr ⟨visible_chars hfmt item, visible_items hfmt items⟩

theorem visible_members (hfmt : fmt.Visible) : (fields : List (String × Json)) → ∀ text ∈ chars.memberTexts fmt fields, Visible text
  | [] => List.forall_mem_nil _
  | (key, v) :: fields => by
    refine List.forall_mem_cons.mpr ⟨?_, visible_members hfmt fields⟩
    rw [visible_append, visible_append]
    exact ⟨⟨visible_quoted _ key, hfmt.2⟩, visible_chars hfmt v⟩

end

end Visible

end incidentdesk.Json
