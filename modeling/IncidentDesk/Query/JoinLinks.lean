import IncidentDesk.Query.JoinKeys
import Mathlib.Data.List.Basic
import Mathlib.Data.Nat.Basic
import Mathlib.Logic.Relation

namespace incidentdesk.query

open joins (Joined)
open Relation (EqvGen)

namespace Node

def HasColumn (z : Node) (column : String) : Prop :=
  ∃ name columns, z.cls.table? = some name ∧ COLUMNS.lookup name = some columns ∧ column ∈ columns

/-- A column of one of some sources, with the alias of the source. -/
def Qualified (left : List Node) (p : String × String) : Prop :=
  p.1 ≠ "" ∧ ∃ z ∈ left, p.1 = z.cls.alias_or_name ∧ z.HasColumn p.2

/-- An equality of two columns of some sources. -/
def Equates (left : List Node) (c : Node) (p q : String × String) : Prop :=
  c.cls = .EQ ∧ c.columns? = some (p, q) ∧ Qualified left p ∧ Qualified left q

/-- Inner joins of tables with different names, on conjunctions of equalities of their
columns and of conditions that are always true. -/
structure Conjunctive {V : Type} [DecidableEq V] (server : Server V) (select : Node) : Prop extends select.Plain where
  tables : ∀ z ∈ select.sources, ∃ name columns, z.cls.table? = some name ∧ COLUMNS.lookup name = some columns
  names : (select.sources.map fun source => source.cls.alias_or_name).Nodup
  inner : ∀ join ∈ select.getAll "joins", join.cls = .Join .inner
  conditions : ∀ before join after, select.getAll "joins" = before ++ join :: after → ∃ on, join.get "on" = some on ∧
    ∀ c ∈ on.conjuncts, (∃ p q, Equates (select.sourcesOf (before ++ [join])) c p q) ∨
      ∀ I e, truth server I e c = some true

/-- Two columns that a conjunct of one of the first joins equates. -/
def Edge (select : Node) (joins : List Node) (p q : String × String) : Prop :=
  ∃ before join after on c, joins = before ++ join :: after ∧ join.get "on" = some on ∧ c ∈ on.conjuncts ∧
    Equates (select.sourcesOf (before ++ [join])) c p q

/-- The equalities of a select link the keys of the fact table and of a dimension. -/
def Linked (select : Node) : Prop :=
  ∀ x ∈ select.sources, ∀ y ∈ select.sources, ∀ key, keyOf x.cls.table? y.cls.table? = some key →
    EqvGen (select.Edge (select.getAll "joins")) (x.cls.alias_or_name, key) (y.cls.alias_or_name, key)

end Node

section Links

variable {V : Type} [DecidableEq V] {server : Server V} {I : Instance V} {select join x y : Node} {e f : Env V}
  {p q : String × String}

omit [DecidableEq V] in
theorem value_append {table column : String} {v : Option V} (h : e.value table column = some v) :
    Env.value (e ++ f) table column = some v := by
  unfold Env.value at h ⊢
  split_ifs at h ⊢ with hempty
  obtain ⟨source, hsource, hvalue⟩ := Option.map_eq_some_iff.mp h
  rw [List.find?_append, hsource]
  exact congrArg some hvalue

/-- Two columns have the same value, which is not null. -/
def Holds (e : Env V) (p q : String × String) : Prop :=
  ∃ v, e.value p.1 p.2 = some (some v) ∧ e.value q.1 q.2 = some (some v)

theorem edge_append {before : List Node} (h : select.Edge (before ++ [join]) p q) :
    select.Edge before p q ∨ ∃ on c, join.get "on" = some on ∧ c ∈ on.conjuncts ∧
      Node.Equates (select.sourcesOf (before ++ [join])) c p q := by
  obtain ⟨first, other, rest, on, c, hsplit, hon, hc, hequates⟩ := h
  rcases List.eq_nil_or_concat rest with rfl | ⟨rest, last, rfl⟩
  · obtain ⟨rfl, hlast⟩ := List.append_inj' hsplit rfl
    obtain ⟨rfl, -⟩ := List.cons.inj hlast
    exact Or.inr ⟨on, c, hon, hc, hequates⟩
  · have hassoc : before ++ [join] = (first ++ other :: rest) ++ [last] := by simpa using hsplit
    exact Or.inl ⟨first, other, rest, on, c, (List.append_inj' hassoc rfl).1, hon, hc, hequates⟩

omit [DecidableEq V] in
/-- The value of a column with the alias of a source that is present. -/
theorem value_of_qualified {left : List Node} (hnames : e.map Prod.fst = left)
    (hnodup : (left.map fun source => source.cls.alias_or_name).Nodup) (hpresent : ∀ source ∈ e, source.2 ≠ none)
    (hp : Node.Qualified left p) :
    ∃ z a, (z, some a) ∈ e ∧ p.1 = z.cls.alias_or_name ∧ z.HasColumn p.2 ∧ e.value p.1 p.2 = some (a p.2) := by
  obtain ⟨hne, z, hz, halias, hcolumn⟩ := hp
  rw [← hnames] at hz hnodup
  obtain ⟨⟨z, row⟩, hmem, rfl⟩ := List.mem_map.mp hz
  obtain ⟨a, rfl⟩ := Option.ne_none_iff_exists'.mp (hpresent _ hmem)
  rw [List.map_map] at hnodup
  exact ⟨z, a, hmem, halias, hcolumn, value_of_mem hnodup hmem halias hne⟩

/-- What is joined to the earlier sources of a select of inner joins. -/
theorem joinedTo_inner (h : select.Conjunctive server) {before after : List Node}
    (hsplit : select.getAll "joins" = before ++ join :: after) :
    ∃ y on rows, join.get "this" = some y ∧ select.sourcesOf (before ++ [join]) = select.sourcesOf before ++ [y] ∧
      join.get "on" = some on ∧ (∀ name, y.cls.table? = some name → rows = I.tables name) ∧
      (∀ c ∈ on.conjuncts, (∃ p q, Node.Equates (select.sourcesOf (before ++ [join])) c p q) ∨
        ∀ I e, truth server I e c = some true) ∧
      joinedTo server I select (before ++ [join]) =
        (joinedTo server I select before).join .inner (meets server I join) (Joined.single y rows) := by
  have hmem : join ∈ select.getAll "joins" := by rw [hsplit]; simp
  obtain ⟨-, hjoins, y, hthis, hsingle⟩ := h.joins join hmem
  have hinner := h.inner join hmem
  obtain ⟨rows, hjoined, hrows⟩ := joined_single server I hsingle
  obtain ⟨on, hon, hconditions⟩ := h.conditions before join after hsplit
  refine ⟨y, on, rows, hthis, by simp [Node.sourcesOf, hthis], hon, hrows, hconditions, ?_⟩
  rw [joinedTo_append hinner, joined_this (Or.inr ⟨_, hinner⟩) hjoins hthis, hjoined]

theorem nodup_initial (h : select.Conjunctive server) {before after : List Node}
    (hsplit : select.getAll "joins" = before ++ after) :
    ((select.sourcesOf before).map fun source => source.cls.alias_or_name).Nodup := by
  have hnames := h.names
  rw [Node.sources, hsplit, Node.sourcesOf, List.filterMap_append, ← List.append_assoc, List.map_append] at hnames
  exact (List.nodup_append.mp hnames).1

/-- In joined rows of inner joins every source is present, and the equalities hold. -/
theorem edges_hold (h : select.Conjunctive server) (before after : List Node)
    (hsplit : select.getAll "joins" = before ++ after) :
    ∀ e ∈ (joinedTo server I select before).rows, e.map Prod.fst = select.sourcesOf before ∧
      (∀ source ∈ e, source.2 ≠ none) ∧ ∀ p q, select.Edge before p q → Holds e p q := by
  induction before using List.reverseRecOn generalizing after with
  | nil =>
    intro e he
    have hstart := joinedBy_start server I h.toPlain
    refine ⟨(hstart.proper e he).trans hstart.names, ?_, ?_⟩
    · unfold joinedTo at he
      cases hfrom : select.get "from_" with
      | none =>
        obtain rfl : e = [] := by simpa [hfrom, joinAll, Joined.unit] using he
        intro source hsource
        cases hsource
      | some node =>
        obtain ⟨hcls, hjoins, source, hthis, hsingle⟩ := h.start node hfrom
        obtain ⟨rows, hjoined, -⟩ := joined_single server I hsingle
        rw [hfrom, Option.map_some, Option.getD_some, joined_this (Or.inl hcls) hjoins hthis, hjoined] at he
        obtain ⟨row, -, rfl⟩ := List.mem_map.mp he
        intro other hother
        rw [List.mem_singleton.mp hother]
        exact Option.some_ne_none row
    · rintro p q ⟨first, other, rest, -, -, hnil, -⟩
      cases first <;> cases hnil
  | append_singleton before join ih =>
    have hsplit' : select.getAll "joins" = before ++ join :: after := by simpa using hsplit
    obtain ⟨y, on, rows, -, hsources, hon, -, -, heq⟩ := joinedTo_inner (I := I) h hsplit'
    intro e he
    rw [heq] at he
    obtain ⟨e₁, he₁, e₂, he₂, hmeets, rfl⟩ := Joined.mem_inner he
    obtain ⟨row, -, rfl⟩ := List.mem_map.mp he₂
    obtain ⟨hnames, hpresent, hholds⟩ := ih (join :: after) hsplit' e₁ he₁
    have hnames' : (e₁ ++ [(y, some row)]).map Prod.fst = select.sourcesOf (before ++ [join]) := by
      rw [List.map_append, hnames, hsources]
      rfl
    have hpresent' : ∀ source ∈ e₁ ++ [(y, some row)], source.2 ≠ none := by
      intro source hsource
      rcases List.mem_append.mp hsource with hsource | hsource
      · exact hpresent source hsource
      · rw [List.mem_singleton.mp hsource]
        exact Option.some_ne_none row
    refine ⟨hnames', hpresent', fun p q hedge => ?_⟩
    rcases edge_append hedge with hedge | ⟨on', c, hon', hc, hcls, hcolumns, hp, hq⟩
    · obtain ⟨v, hpv, hqv⟩ := hholds p q hedge
      exact ⟨v, value_append hpv, value_append hqv⟩
    · obtain rfl : on = on' := Option.some.inj (hon.symm.trans hon')
      have htruth : truth server I (e₁ ++ [(y, some row)]) on = some true := by simpa [meets, hon] using hmeets
      have hequal := (truth_conjuncts on).mp htruth c hc
      obtain ⟨z, a, -, -, -, hpa⟩ := value_of_qualified hnames' (nodup_initial h hsplit) hpresent' hp
      obtain ⟨u, b, -, -, -, hqb⟩ := value_of_qualified hnames' (nodup_initial h hsplit) hpresent' hq
      rw [truth_equality hcls hcolumns hpa hqb] at hequal
      obtain ⟨hsame, hne⟩ := equal_eq_true.mp hequal
      obtain ⟨v, hv⟩ := Option.ne_none_iff_exists'.mp hne
      exact ⟨v, hv ▸ hpa, (hsame.symm.trans hv) ▸ hqb⟩

omit [DecidableEq V] in
/-- What equalities link is equal. -/
theorem eqvGen_holds {r : String × String → String × String → Prop} (hr : ∀ p q, r p q → Holds e p q)
    (h : EqvGen r p q) : p = q ∨ Holds e p q := by
  induction h with
  | rel p q hpq => exact Or.inr (hr p q hpq)
  | refl p => exact Or.inl rfl
  | symm p q _ ih =>
    rcases ih with rfl | ⟨v, hp, hq⟩
    · exact Or.inl rfl
    · exact Or.inr ⟨v, hq, hp⟩
  | trans p q s _ _ ih₁ ih₂ =>
    rcases ih₁ with rfl | ⟨v, hp, hq⟩
    · exact ih₂
    rcases ih₂ with rfl | ⟨w, hq', hs⟩
    · exact Or.inr ⟨v, hp, hq⟩
    · obtain rfl : v = w := Option.some.inj (Option.some.inj (hq.symm.trans hq'))
      exact Or.inr ⟨v, hp, hs⟩

theorem keyed_of_linked (h : select.Conjunctive server) (hcls : select.cls = .Select) (hlinked : select.Linked) :
    select.KeyedBy server := by
  intro I e he hnodup
  rw [← joinedTo_all hcls] at he
  obtain ⟨hnames, -, hholds⟩ := edges_hold h _ [] (List.append_nil _).symm e he
  intro x a hx y b hy key hkey
  have hxs : x ∈ select.sources := by
    rw [Node.sources, ← hnames]
    exact List.mem_map.mpr ⟨(x, some a), hx, rfl⟩
  have hys : y ∈ select.sources := by
    rw [Node.sources, ← hnames]
    exact List.mem_map.mpr ⟨(y, some b), hy, rfl⟩
  rcases eqvGen_holds hholds (hlinked x hxs y hys key hkey) with heq | ⟨v, hxv, hyv⟩
  · have hsame := List.inj_on_of_nodup_map hnodup hx hy (Prod.mk.inj heq).1
    obtain rfl : x = y := (Prod.mk.inj hsame).1
    rw [keyOf_self] at hkey
    cases hkey
  · have hxne : x.cls.alias_or_name ≠ "" := fun hempty => by simp [Env.value, hempty] at hxv
    have hyne : y.cls.alias_or_name ≠ "" := fun hempty => by simp [Env.value, hempty] at hyv
    rw [value_of_mem hnodup hx rfl hxne] at hxv
    rw [value_of_mem hnodup hy rfl hyne] at hyv
    have hxv' := Option.some.inj hxv
    have hyv' := Option.some.inj hyv
    exact ⟨hxv'.trans hyv'.symm, by simp [hxv']⟩

open Classical in
/-- A row in which the columns that are linked to one column have one value, and all
others another one. -/
noncomputable def linkedRow (select : Node) (v w : V) (p : String × String) (z : Node) : Row V := fun column =>
  if z.HasColumn column then
    if EqvGen (select.Edge (select.getAll "joins")) p (z.cls.alias_or_name, column) then some v else some w
  else none

/-- One such row for each source. -/
noncomputable def linkedInstance (select : Node) (v w : V) (p : String × String) : Instance V where
  tables name := (select.sources.filter fun z => z.cls.table? = some name).map (linkedRow select v w p)
  proper := by
    intro name columns hcolumns row hrow column hne
    obtain ⟨z, hz, rfl⟩ := List.mem_map.mp hrow
    have htable : z.cls.table? = some name := of_decide_eq_true (List.mem_filter.mp hz).2
    unfold linkedRow at hne
    split_ifs at hne with hhas
    · obtain ⟨name', columns', htable', hcolumns', hmem⟩ := hhas
      obtain rfl := Option.some.inj (htable.symm.trans htable')
      obtain rfl := Option.some.inj (hcolumns.symm.trans hcolumns')
      exact hmem
    · obtain ⟨name', columns', htable', hcolumns', hmem⟩ := hhas
      obtain rfl := Option.some.inj (htable.symm.trans htable')
      obtain rfl := Option.some.inj (hcolumns.symm.trans hcolumns')
      exact hmem
    · exact absurd rfl hne

omit [DecidableEq V] in
theorem linkedRow_mem {v w : V} {z : Node} (hz : z ∈ select.sources) (name : String) (htable : z.cls.table? = some name) :
    linkedRow select v w p z ∈ (linkedInstance select v w p).tables name :=
  List.mem_map.mpr ⟨z, List.mem_filter.mpr ⟨hz, by simp [htable]⟩, rfl⟩

/-- The rows together. -/
noncomputable def linkedEnv (select : Node) (v w : V) (p : String × String) (left : List Node) : Env V :=
  left.map fun z => (z, some (linkedRow select v w p z))

/-- They are joined, since they satisfy every equality. -/
theorem linkedEnv_mem (h : select.Conjunctive server) (v w : V) (p : String × String) (before after : List Node)
    (hsplit : select.getAll "joins" = before ++ after) :
    linkedEnv select v w p (select.sourcesOf before) ∈
      (joinedTo server (linkedInstance select v w p) select before).rows := by
  induction before using List.reverseRecOn generalizing after with
  | nil =>
    unfold joinedTo
    cases hfrom : select.get "from_" with
    | none => simp [Node.sourcesOf, Node.first, hfrom, linkedEnv, joinAll, Joined.unit]
    | some node =>
      obtain ⟨hcls, hjoins, source, hthis, hsingle⟩ := h.start node hfrom
      obtain ⟨rows, hjoined, hrows⟩ := joined_single server (linkedInstance select v w p) hsingle
      have hmem : source ∈ select.sources := by simp [Node.sources, Node.sourcesOf, Node.first, hfrom, hthis]
      obtain ⟨name, -, htable, -⟩ := h.tables source hmem
      have hsources : select.sourcesOf [] = [source] := by simp [Node.sourcesOf, Node.first, hfrom, hthis]
      rw [Option.map_some, Option.getD_some, joined_this (Or.inl hcls) hjoins hthis, hjoined, hsources, hrows name htable]
      exact List.mem_map.mpr ⟨_, linkedRow_mem hmem name htable, rfl⟩
  | append_singleton before join ih =>
    have hsplit' : select.getAll "joins" = before ++ join :: after := by simpa using hsplit
    obtain ⟨y, on, rows, hthis, hsources, hon, hrows, hconditions, heq⟩ := joinedTo_inner h hsplit'
    have hmem : y ∈ select.sources := by
      rw [Node.sources, hsplit', Node.sourcesOf]
      simp [hthis]
    obtain ⟨name, -, htable, -⟩ := h.tables y hmem
    have henv : linkedEnv select v w p (select.sourcesOf (before ++ [join])) =
        linkedEnv select v w p (select.sourcesOf before) ++ [(y, some (linkedRow select v w p y))] := by
      rw [hsources, linkedEnv, List.map_append]
      rfl
    rw [heq, henv]
    refine Joined.join_mem (ih (join :: after) hsplit')
      (List.mem_map.mpr ⟨_, hrows name htable ▸ linkedRow_mem hmem name htable, rfl⟩) ?_
    simp only [meets, hon, decide_eq_true_eq]
    rw [← henv, truth_conjuncts]
    intro c hc
    rcases hconditions c hc with ⟨q, s, hcls, hcolumns, hq, hs⟩ | htrue
    · have hnames : (linkedEnv select v w p (select.sourcesOf (before ++ [join]))).map Prod.fst =
          select.sourcesOf (before ++ [join]) := by simp [linkedEnv, Function.comp_def]
      have hpresent : ∀ source ∈ linkedEnv select v w p (select.sourcesOf (before ++ [join])), source.2 ≠ none := by
        intro source hsource
        obtain ⟨z, -, rfl⟩ := List.mem_map.mp hsource
        exact Option.some_ne_none _
      have hrow : ∀ z a, (z, some a) ∈ linkedEnv select v w p (select.sourcesOf (before ++ [join])) →
          a = linkedRow select v w p z := by
        intro z a hza
        obtain ⟨u, -, hu⟩ := List.mem_map.mp hza
        obtain ⟨rfl, hrow⟩ := Prod.mk.inj hu
        exact (Option.some.inj hrow).symm
      obtain ⟨z, a, hza, hzalias, hzcolumn, hqa⟩ := value_of_qualified hnames (nodup_initial h hsplit) hpresent hq
      obtain ⟨u, b, hub, hualias, hucolumn, hsb⟩ := value_of_qualified hnames (nodup_initial h hsplit) hpresent hs
      obtain rfl := hrow z a hza
      obtain rfl := hrow u b hub
      rw [truth_equality hcls hcolumns hqa hsb, equal_eq_true]
      have hedge : EqvGen (select.Edge (select.getAll "joins")) q s :=
        .rel q s ⟨before, join, after, on, c, hsplit', hon, hc, hcls, hcolumns, hq, hs⟩
      have hiff : EqvGen (select.Edge (select.getAll "joins")) p (z.cls.alias_or_name, q.2) ↔
          EqvGen (select.Edge (select.getAll "joins")) p (u.cls.alias_or_name, s.2) := by
        rw [← hzalias, ← hualias]
        exact ⟨fun hpq => hpq.trans _ _ _ hedge, fun hps => hps.trans _ _ _ (hedge.symm _ _)⟩
      by_cases hlinked : EqvGen (select.Edge (select.getAll "joins")) p (z.cls.alias_or_name, q.2)
      · simp [linkedRow, hzcolumn, hucolumn, hlinked, hiff.mp hlinked]
      · have hlinked' := hlinked
        rw [hiff] at hlinked'
        simp [linkedRow, hzcolumn, hucolumn, hlinked, hlinked']
    · exact htrue _ _

/-- The keys are columns of both tables. -/
theorem hasColumn_key {key : String} (hkey : keyOf x.cls.table? y.cls.table? = some key) : x.HasColumn key := by
  have hdimension : ∀ name, dimensionKey name = some key →
      (∃ columns, COLUMNS.lookup name = some columns ∧ key ∈ columns) ∧
        ∃ columns, COLUMNS.lookup "fact_order" = some columns ∧ key ∈ columns := by
    intro name hname
    obtain ⟨first, rest, hkeys, -⟩ := List.lookup_eq_some_iff.mp hname
    have hmem : (name, key) ∈ KEYS := by
      rw [hkeys]
      simp
    simp only [KEYS, List.mem_cons, Prod.mk.injEq, List.not_mem_nil, or_false] at hmem
    rcases hmem with ⟨rfl, rfl⟩ | ⟨rfl, rfl⟩ | ⟨rfl, rfl⟩ | ⟨rfl, rfl⟩ <;>
      exact ⟨⟨_, rfl, by decide⟩, ⟨_, rfl, by decide⟩⟩
  rcases keyOf_eq_some hkey with ⟨hfact, hbind⟩ | ⟨-, hbind⟩
  · obtain ⟨name, -, hname⟩ := Option.bind_eq_some_iff.mp hbind
    obtain ⟨-, columns, hcolumns, hmem⟩ := hdimension name hname
    exact ⟨"fact_order", columns, hfact, hcolumns, hmem⟩
  · obtain ⟨name, htable, hname⟩ := Option.bind_eq_some_iff.mp hbind
    obtain ⟨⟨columns, hcolumns, hmem⟩, -⟩ := hdimension name hname
    exact ⟨name, columns, htable, hcolumns, hmem⟩

theorem linked_of_keyed [Nontrivial V] (h : select.Conjunctive server) (hcls : select.cls = .Select)
    (hkeyed : select.KeyedBy server) : select.Linked := by
  intro x hx y hy key hkey
  obtain ⟨v, w, hne⟩ := exists_pair_ne V
  have hmem := linkedEnv_mem h v w (x.cls.alias_or_name, key) _ [] (List.append_nil _).symm
  rw [joinedTo_all hcls] at hmem
  have hnodup : ((linkedEnv select v w (x.cls.alias_or_name, key) select.sources).map
      fun source => source.1.cls.alias_or_name).Nodup := by
    simpa [linkedEnv, Function.comp_def] using h.names
  have hxmem : (x, some (linkedRow select v w (x.cls.alias_or_name, key) x)) ∈
      linkedEnv select v w (x.cls.alias_or_name, key) select.sources := List.mem_map.mpr ⟨x, hx, rfl⟩
  have hymem : (y, some (linkedRow select v w (x.cls.alias_or_name, key) y)) ∈
      linkedEnv select v w (x.cls.alias_or_name, key) select.sources := List.mem_map.mpr ⟨y, hy, rfl⟩
  obtain ⟨hsame, -⟩ := hkeyed _ _ hmem hnodup x _ hxmem y _ hymem key hkey
  have hxcolumn := hasColumn_key hkey
  have hycolumn : y.HasColumn key := hasColumn_key (by rw [keyOf_symm]; exact hkey)
  by_contra hnot
  simp only [linkedRow, hxcolumn, hycolumn, if_true, EqvGen.refl, hnot, if_false] at hsame
  exact hne (Option.some.inj hsame)

end Links

/-- What the check accepts joins by the keys if the check sees the fact table compared
with each dimension. Where all conditions are conjunctions of equalities, it does so
exactly if these link the keys. -/
theorem keyed_of_checked {V : Type} [DecidableEq V] [Nontrivial V] (server : Server V) {tree : Node}
    (h : validate_relations tree = .ok ()) :
    ((∀ select ∈ tree.selects, select.Checked) → tree.Keyed server) ∧
      ((∀ select ∈ tree.selects, select.Conjunctive server) →
        (tree.Keyed server ↔ ∀ select ∈ tree.selects, select.Linked)) := by
  have hcls : ∀ select ∈ tree.selects, select.cls = .Select := by
    intro select hselect
    exact of_decide_eq_true (List.mem_filter.mp hselect).2
  constructor
  · intro hchecked select hselect
    exact (hchecked select hselect).keyedBy (hcls select hselect) (forM_ok (forM_ok h select hselect))
  · intro hconjunctive
    constructor
    · exact fun hkeyed select hselect =>
        linked_of_keyed (hconjunctive select hselect) (hcls select hselect) (hkeyed select hselect)
    · exact fun hlinked select hselect =>
        keyed_of_linked (hconjunctive select hselect) (hcls select hselect) (hlinked select hselect)

/-- `SELECT * FROM fact_order o JOIN dim_product p ON a = b`. -/
def productJoin (a b : Class) : Node :=
  .mk .Select [("from_", .mk .From [("this", .mk (.Table "fact_order" "o") [])]),
    ("joins", .mk (.Join .inner) [("this", .mk (.Table "dim_product" "p") []),
      ("on", .mk .EQ [("this", .mk a []), ("expression", .mk b [])])])]

/-- A server on which equalities of constants are true. -/
def constants : Server Nat where
  derived _ _ := []
  condition _ _ _ := some true

theorem productJoin_keyed :
    (productJoin (.Column "o" "product_id") (.Column "p" "product_id")).Keyed constants := by
  have haccepted : validate_relations (productJoin (.Column "o" "product_id") (.Column "p" "product_id")) = .ok () := rfl
  refine (keyed_of_checked constants haccepted).1 fun select hselect => ?_
  obtain rfl : select = productJoin (.Column "o" "product_id") (.Column "p" "product_id") := List.mem_singleton.mp hselect
  refine { start := ?_, joins := ?_, compares := ?_ }
  · rintro node ⟨⟩
    exact ⟨rfl, rfl, _, rfl, rfl⟩
  · intro join hjoin
    obtain rfl := List.mem_singleton.mp hjoin
    exact ⟨⟨.inner, rfl⟩, rfl, _, rfl, rfl⟩
  · intro before join after hsplit x hx y hy _
    obtain ⟨rfl, hrest⟩ : before = [] ∧ _ = join :: after := by
      cases before with
      | nil => exact ⟨rfl, hsplit⟩
      | cons first before => cases before <;> cases hsplit
    obtain rfl := (List.cons.inj hrest).1
    obtain rfl := List.mem_singleton.mp hx
    cases hy
    refine Or.inl ⟨_, _, ("o", "product_id"), ("p", "product_id"), rfl, List.mem_cons_self, rfl, rfl, Or.inl ⟨?_, ?_⟩⟩
    · exact ⟨rfl, by decide, rfl⟩
    · exact ⟨rfl, by decide, rfl⟩

/-- An order of one product and another product. -/
def twoProducts : Instance Nat where
  tables name :=
    if name = "fact_order" then [fun column => if column = "product_id" then some 1 else none]
    else if name = "dim_product" then [fun column => if column = "product_id" then some 2 else none]
    else []
  proper := by
    intro name columns hcolumns row hrow column hne
    split_ifs at hrow with hfact hproduct
    · obtain rfl := List.mem_singleton.mp hrow
      obtain rfl : column = "product_id" := by
        by_contra hother
        exact hne (if_neg hother)
      subst hfact
      cases hcolumns
      decide
    · obtain rfl := List.mem_singleton.mp hrow
      obtain rfl : column = "product_id" := by
        by_contra hother
        exact hne (if_neg hother)
      subst hproduct
      cases hcolumns
      decide
    · cases hrow

/-- A join on `1 = 1` is let through. -/
theorem cartesian_not_keyed :
    validate_relations (productJoin .other .other) = .ok () ∧ ¬ (productJoin .other .other).Keyed constants := by
  refine ⟨rfl, fun hkeyed => ?_⟩
  have hmem := hkeyed _ (List.mem_singleton.mpr rfl) twoProducts _ List.mem_cons_self (by decide)
    (.mk (.Table "fact_order" "o") []) _ List.mem_cons_self (.mk (.Table "dim_product" "p") []) _
    (List.mem_cons_of_mem _ List.mem_cons_self) "product_id" rfl
  exact absurd hmem.1 (by decide)

end incidentdesk.query
