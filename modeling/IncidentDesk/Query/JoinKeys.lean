import IncidentDesk.Query.Relations
import Mathlib.Data.List.Induction
import Mathlib.Data.List.Nodup

namespace incidentdesk.query

open joins (Related Joined)

namespace Node

/-- `select.args["from_"].this`. -/
def first (select : Node) : Option Node := (select.get "from_").bind fun node => node.get "this"

/-- The source that a `FROM` clause starts with, and those of some joins. -/
def sourcesOf (select : Node) (joins : List Node) : List Node :=
  select.first.toList ++ joins.filterMap fun join => join.get "this"

def sources (select : Node) : List Node := select.sourcesOf (select.getAll "joins")

/-- A table or a subquery, as opposed to a group of joins. -/
def single (node : Node) : Bool :=
  (node.getAll "joins").isEmpty &&
    match node.cls with
    | .Table _ _ => true
    | .Select | .From | .Join _ => false
    | _ => !node.reference

/-- A `FROM` clause whose joins all belong to the select itself. -/
structure Plain (select : Node) : Prop where
  start : ∀ node, select.get "from_" = some node → node.cls = .From ∧ node.getAll "joins" = [] ∧
    ∃ source, node.get "this" = some source ∧ source.single = true
  joins : ∀ join ∈ select.getAll "joins", (∃ side, join.cls = .Join side) ∧ join.getAll "joins" = [] ∧
    ∃ source, join.get "this" = some source ∧ source.single = true

/-- The conditions that a condition is the conjunction of. -/
def conjuncts : Node → List Node
  | .mk .And args => conjunctsArgs args
  | .mk .Paren args => conjunctsArgs args
  | .mk cls args => [.mk cls args]
where
  conjunctsArgs : List (String × Node) → List Node
    | [] => []
    | (_, node) :: more => node.conjuncts ++ conjunctsArgs more

/-- A column with the alias of a source, which the check resolves to the table of the
source. -/
def Stands (select : Node) (p : String × String) (x : Node) : Prop :=
  p.1 = x.cls.alias_or_name ∧ p.1 ≠ "" ∧ select.aliases.lookup p.1 = x.cls.table?

/-- A table of the warehouse that does not have a column. -/
def Lacks (column : String) (z : Node) : Prop :=
  ∃ name columns, z.cls.table? = some name ∧ COLUMNS.lookup name = some columns ∧ column ∉ columns

/-- The join of `y` to some sources compares a column of `x`, one of them, with a column
of `y` in a way that the check sees. -/
def Compares (select join : Node) (left : List Node) (x y : Node) : Prop :=
  (∃ on c p q, join.get "on" = some on ∧ c ∈ on.conjuncts ∧ c.cls = .EQ ∧ c.columns? = some (p, q) ∧
    (select.Stands p x ∧ select.Stands q y ∨ select.Stands p y ∧ select.Stands q x)) ∨
  (join.get "on" = none ∧ ∃ key, y.cls.table?.bind dimensionKey = some key ∧ ∀ z ∈ left, z = x ∨ z.Lacks key)

/-- The fact table and a dimension are always compared by the join that brings the
later of the two. -/
structure Checked (select : Node) : Prop extends select.Plain where
  compares : ∀ before join after, select.getAll "joins" = before ++ join :: after →
    ∀ x ∈ select.sourcesOf before, ∀ y, join.get "this" = some y → (keyOf x.cls.table? y.cls.table?).isSome →
      select.Compares join (select.sourcesOf before) x y

end Node

section Walk

theorem mem_beside {x : Node} {xs ys : List (List Node)} :
    x ∈ (Node.beside xs ys).flatten ↔ x ∈ xs.flatten ∨ x ∈ ys.flatten := by
  induction xs, ys using Node.beside.induct with
  | case1 ys => simp [Node.beside]
  | case2 xs h => cases xs <;> simp [Node.beside]
  | case3 a xs b ys ih =>
    rw [Node.beside, List.flatten_cons, List.mem_append, ih]
    simp only [List.mem_append, List.flatten_cons]
    tauto

theorem bfs_self (node : Node) : node ∈ node.bfs := by
  cases node with
  | mk cls args => simp [Node.bfs, Node.levels]

theorem mem_levelsArgs {x : Node} {args : List (String × Node)} :
    x ∈ (Node.levels.levelsArgs args).flatten ↔ ∃ arg ∈ args, x ∈ arg.2.bfs := by
  induction args with
  | nil => simp [Node.levels.levelsArgs]
  | cons arg args ih =>
    rw [Node.levels.levelsArgs, mem_beside, ih]
    simp [Node.bfs]

theorem mem_bfs {x : Node} {cls : Class} {args : List (String × Node)} :
    x ∈ (Node.mk cls args).bfs ↔ x = .mk cls args ∨ ∃ arg ∈ args, x ∈ arg.2.bfs := by
  rw [Node.bfs, Node.levels, List.flatten_cons, List.mem_append, List.mem_singleton, mem_levelsArgs]

mutual

/-- A conjunct is a part of the condition. -/
theorem conjuncts_subset : (node : Node) → node.conjuncts ⊆ node.bfs
  | .mk cls args => by
    intro x hx
    rw [mem_bfs]
    cases cls with
    | And => exact Or.inr (conjunctsArgs_subset args hx)
    | Paren => exact Or.inr (conjunctsArgs_subset args hx)
    | _ => exact Or.inl (List.mem_singleton.mp hx)

theorem conjunctsArgs_subset : (args : List (String × Node)) → {x : Node} →
    x ∈ Node.conjuncts.conjunctsArgs args → ∃ arg ∈ args, x ∈ arg.2.bfs
  | [], _, hx => by cases hx
  | (key, node) :: more, x, hx => by
    rw [Node.conjuncts.conjunctsArgs, List.mem_append] at hx
    rcases hx with hx | hx
    · exact ⟨(key, node), List.mem_cons_self, conjuncts_subset node hx⟩
    · obtain ⟨arg, harg, hmem⟩ := conjunctsArgs_subset more hx
      exact ⟨arg, List.mem_cons_of_mem _ harg, hmem⟩

end

end Walk

section Truth

variable {V : Type} [DecidableEq V] {server : Server V} {I : Instance V} {e : Env V}

theorem and3_eq_true {a b : Option Bool} : and3 a b = some true ↔ a = some true ∧ b = some true := by
  cases a with
  | none => cases b with
    | none => simp [and3]
    | some b => cases b <;> simp [and3]
  | some a => cases a <;> simp [and3]

mutual

/-- A condition is true if all of its conjuncts are. -/
theorem truth_conjuncts : (node : Node) →
    (truth server I e node = some true ↔ ∀ c ∈ node.conjuncts, truth server I e c = some true)
  | .mk cls args => by
    cases cls with
    | And => exact truth_conjunctsArgs args
    | Paren => exact truth_conjunctsArgs args
    | _ => simp [Node.conjuncts]

theorem truth_conjunctsArgs : (args : List (String × Node)) →
    (truth.truthArgs server I e args = some true ↔
      ∀ c ∈ Node.conjuncts.conjunctsArgs args, truth server I e c = some true)
  | [] => by simp [truth.truthArgs, Node.conjuncts.conjunctsArgs]
  | (_, node) :: more => by
    rw [truth.truthArgs, and3_eq_true, truth_conjuncts node, truth_conjunctsArgs more, Node.conjuncts.conjunctsArgs]
    simp only [List.mem_append]
    constructor
    · rintro ⟨hnode, hmore⟩ c (hc | hc)
      · exact hnode c hc
      · exact hmore c hc
    · exact fun h => ⟨fun c hc => h c (Or.inl hc), fun c hc => h c (Or.inr hc)⟩

end

theorem equal_eq_true {a b : Option V} : equal a b = some true ↔ a = b ∧ a ≠ none := by
  cases a <;> cases b <;> simp [equal]

/-- An equality of columns of two sources is true if their values are equal. -/
theorem truth_equality {c : Node} {p q : String × String} {x y : Option V} (hcls : c.cls = .EQ)
    (hcolumns : c.columns? = some (p, q)) (hx : e.value p.1 p.2 = some x) (hy : e.value q.1 q.2 = some y) :
    truth server I e c = equal x y := by
  cases c with
  | mk cls args =>
    obtain rfl : cls = .EQ := hcls
    simp [truth, hcolumns, hx, hy]

omit [DecidableEq V] in
/-- The value of a column of a source that is present. -/
theorem value_of_mem {x : Node} {a : Row V} {table column : String}
    (hnodup : (e.map fun source => source.1.cls.alias_or_name).Nodup) (hmem : (x, some a) ∈ e)
    (htable : table = x.cls.alias_or_name) (hne : table ≠ "") : e.value table column = some (a column) := by
  rw [Env.value, if_neg hne]
  have hfind : e.find? (fun source => source.1.cls.alias_or_name = table) = some (x, some a) := by
    induction e with
    | nil => cases hmem
    | cons source e ih =>
      rw [List.map_cons, List.nodup_cons] at hnodup
      rw [List.find?_cons]
      rcases List.mem_cons.mp hmem with rfl | hmem
      · simp [htable]
      · have hother : source.1.cls.alias_or_name ≠ table := by
          intro heq
          exact hnodup.1 (List.mem_map.mpr ⟨(x, some a), hmem, (heq.trans htable).symm⟩)
        simp only [hother, decide_false]
        exact ih hnodup.2 hmem
  rw [hfind]
  rfl

end Truth

section Joined

variable {V : Type} [DecidableEq V] {server : Server V} {I : Instance V}

theorem joinedArgs_eq (args : List (String × Node)) :
    joined.joinedArgs server I args = args.map fun arg => (arg.1, arg.2, joined server I arg.2) := by
  induction args with
  | nil => rfl
  | cons arg args ih => rw [joined.joinedArgs, ih, List.map_cons]

theorem lookup_joinedArgs (args : List (String × Node)) (key : String) :
    ((joined.joinedArgs server I args).lookup key).map Prod.snd = (args.lookup key).map (joined server I) := by
  rw [joinedArgs_eq]
  induction args with
  | nil => rfl
  | cons arg args ih =>
    rw [List.map_cons, List.lookup_cons, List.lookup_cons]
    cases key == arg.1 with
    | true => rfl
    | false => exact ih

theorem filter_joinedArgs (args : List (String × Node)) (key : String) :
    ((joined.joinedArgs server I args).filter fun part => part.1 = key).map Prod.snd =
      ((args.filter fun arg => arg.1 = key).map Prod.snd).map fun node => (node, joined server I node) := by
  rw [joinedArgs_eq, List.filter_map, List.map_map, List.map_map]
  rfl

/-- The joined rows of a select. -/
theorem joined_select {select : Node} (h : select.cls = .Select) :
    joined server I select = joinAll server I (((select.get "from_").map (joined server I)).getD Joined.unit)
      ((select.getAll "joins").map fun join => (join, joined server I join)) := by
  cases select with
  | mk cls args =>
    obtain rfl : cls = .Select := h
    rw [joined]
    simp only [lookup_joinedArgs, filter_joinedArgs]
    rfl

/-- A part of a `FROM` clause that stands for the source in it. -/
theorem joined_this {node source : Node} (h : node.cls = .From ∨ ∃ side, node.cls = .Join side)
    (hjoins : node.getAll "joins" = []) (hthis : node.get "this" = some source) :
    joined server I node = joined server I source := by
  cases node with
  | mk cls args =>
    have hthis' : args.lookup "this" = some source := hthis
    have hjoins' : (args.filter fun arg => arg.1 = "joins").map Prod.snd = [] := hjoins
    have hstart : joined server I (.mk cls args) = joinAll server I
        ((((joined.joinedArgs server I args).lookup "this").map Prod.snd).getD Joined.unit)
        (((joined.joinedArgs server I args).filter fun part => part.1 = "joins").map Prod.snd) := by
      rcases h with h | ⟨side, h⟩
      · obtain rfl : cls = .From := h
        rw [joined]
      · obtain rfl : cls = .Join side := h
        rw [joined]
    rw [hstart, lookup_joinedArgs, filter_joinedArgs, hthis', hjoins']
    rfl

theorem joined_derived {cls : Class} {args : List (String × Node)}
    (hjoins : (args.filter fun arg => arg.1 = "joins").map Prod.snd = [])
    (hcls : (match cls with
      | .Select | .From | .Join _ | .Table _ _ => false
      | _ => !(Node.mk cls args).reference) = true) :
    joined server I (.mk cls args) = Joined.single (.mk cls args) (server.derived I (.mk cls args)) := by
  cases cls with
  | Select | From | Join side | Table name label => cases hcls
  | _ =>
    have hgroup := (Bool.not_eq_true' _).mp hcls
    rw [joined]
    all_goals simp [filter_joinedArgs, hjoins, hgroup, joinAll]

variable (server I) in
/-- A source gives one row at a time, of its table if it is one. -/
theorem joined_single {source : Node} (h : source.single = true) :
    ∃ rows, joined server I source = Joined.single source rows ∧
      ∀ name, source.cls.table? = some name → rows = I.tables name := by
  cases source with
  | mk cls args =>
    obtain ⟨hjoins, hcls⟩ := (Bool.and_eq_true _ _).mp h
    have hjoins' : (args.filter fun arg => arg.1 = "joins").map Prod.snd = [] := List.isEmpty_iff.mp hjoins
    by_cases htable : ∃ name label, cls = .Table name label
    · obtain ⟨name, label, rfl⟩ := htable
      refine ⟨I.tables name, ?_, fun name' hname => by cases hname; rfl⟩
      rw [joined]
      simp only [filter_joinedArgs, hjoins']
      rfl
    · refine ⟨server.derived I (.mk cls args), joined_derived hjoins' ?_, fun name' hname => ?_⟩
      · cases cls <;> simp_all [Node.cls]
      · cases cls <;> simp_all [Node.cls, Class.table?]

end Joined

section Keys

variable {V : Type} [DecidableEq V]

/-- Rows of the fact table and of a dimension have the same key, which is not null. -/
def SameKey (x : Node) (a : Row V) (y : Node) (b : Row V) : Prop :=
  ∀ key, keyOf x.cls.table? y.cls.table? = some key → a key = b key ∧ a key ≠ none

/-- The joined rows of a select, whose sources have different names, agree on the keys
between the fact table and the dimensions. -/
def Node.KeyedBy (server : Server V) (select : Node) : Prop :=
  ∀ I : Instance V, ∀ e ∈ (joined server I select).rows,
    (e.map fun source => source.1.cls.alias_or_name).Nodup → Related SameKey e

/-- Every select of a statement, nested ones included, joins by the keys. -/
def Node.Keyed (server : Server V) (tree : Node) : Prop := ∀ select ∈ tree.selects, select.KeyedBy server

theorem dimensionKey_fact : dimensionKey "fact_order" = none := by decide

theorem keyOf_symm (s t : Option String) : keyOf s t = keyOf t s := by
  unfold keyOf
  by_cases hs : s = some "fact_order" <;> by_cases ht : t = some "fact_order"
  · simp [hs, ht, dimensionKey_fact]
  · subst hs
    cases hk : t.bind dimensionKey <;> simp [ht, dimensionKey_fact]
  · subst ht
    cases hk : s.bind dimensionKey <;> simp [hs, dimensionKey_fact]
  · simp [hs, ht]

/-- One of the two is the fact table, and the other one is a dimension with the key. -/
theorem keyOf_eq_some {s t : Option String} {key : String} (h : keyOf s t = some key) :
    (s = some "fact_order" ∧ t.bind dimensionKey = some key) ∨ (t = some "fact_order" ∧ s.bind dimensionKey = some key) := by
  unfold keyOf at h
  split_ifs at h with hs ht
  · exact Or.inl ⟨hs.1, h⟩
  · exact Or.inr ⟨ht, h⟩

/-- A row, if its source is a table, is one of the rows of that table. -/
def Drawn (I : Instance V) (x : Node) (a : Row V) : Prop := ∀ name, x.cls.table? = some name → a ∈ I.tables name

variable {server : Server V} {I : Instance V} {select join x y : Node} {a b : Row V} {e f : Env V}

theorem forM_ok {α : Type} {check : α → Except String Unit} {xs : List α} (h : xs.forM check = .ok ()) :
    ∀ x ∈ xs, check x = .ok () := by
  induction xs with
  | nil => simp
  | cons first xs ih =>
    have hboth : (check first >>= fun _ => xs.forM check) = .ok () := h
    cases hfirst : check first with
    | error why => simp [hfirst, bind, Except.bind] at hboth
    | ok u =>
      intro x hx
      rcases List.mem_cons.mp hx with rfl | hx
      · exact hfirst
      · exact ih (by simpa [hfirst, bind, Except.bind] using hboth) x hx

/-- What the check accepts in an `ON`. -/
theorem checkJoin_on {aliases : List (String × String)} {on c : Node} {p q : String × String} {key : String}
    (h : checkJoin aliases join = .ok ()) (hon : join.get "on" = some on) (hc : c ∈ on.conjuncts) (hcls : c.cls = .EQ)
    (hcolumns : c.columns? = some (p, q)) (hkey : keyOf (aliases.lookup p.1) (aliases.lookup q.1) = some key) :
    p.2 = key ∧ q.2 = key := by
  unfold checkJoin at h
  rw [hon] at h
  have hmem : c ∈ on.equalities := List.mem_filter.mpr ⟨conjuncts_subset on hc, by simp [hcls]⟩
  have hcheck : checkEquality aliases c = .ok () := forM_ok h c hmem
  obtain ⟨t, column⟩ := p
  obtain ⟨u, column'⟩ := q
  simp only [checkEquality, hcolumns, hkey] at hcheck
  by_contra hnot
  rw [if_pos (by grind)] at hcheck
  cases hcheck

/-- What the check accepts without an `ON`. -/
theorem checkJoin_using {aliases : List (String × String)} {key : String} (h : checkJoin aliases join = .ok ())
    (hon : join.get "on" = none) (hthis : join.get "this" = some y) (hkey : y.cls.table?.bind dimensionKey = some key) :
    join.using = [key] := by
  unfold checkJoin at h
  rw [hon] at h
  by_contra hnot
  have hbind : ((join.get "this").bind fun table => table.cls.table?).bind dimensionKey = some key := by
    rw [hthis]
    exact hkey
  simp only [hbind, Option.any_some, hnot, ne_eq, not_false_eq_true, decide_true, if_true] at h
  split_ifs at h
  cases h

omit [DecidableEq V] in
/-- A column that only one of the joined sources has is taken from that one. -/
theorem coalesce_eq {left : List Node} {key : String} {v : V} (hnames : e.map Prod.fst = left)
    (hnodup : (e.map fun source => source.1.cls.alias_or_name).Nodup) (hdrawn : Related (fun x a _ _ => Drawn I x a) e)
    (hlacks : ∀ z ∈ left, z = x ∨ z.Lacks key) (hx : (x, some a) ∈ e) (h : coalesce e key = some v) : a key = some v := by
  obtain ⟨⟨z, row⟩, hz, hrow⟩ := List.exists_of_findSome?_eq_some h
  obtain ⟨c, rfl, hc⟩ := Option.bind_eq_some_iff.mp hrow
  have hzleft : z ∈ left := hnames ▸ List.mem_map.mpr ⟨(z, some c), hz, rfl⟩
  rcases hlacks z hzleft with rfl | ⟨name, columns, htable, hcolumns, hmissing⟩
  · have heq : (z, some c) = (z, some a) := List.inj_on_of_nodup_map hnodup hz hx rfl
    cases heq
    exact hc
  · have hmem : c ∈ I.tables name := hdrawn z c hz z c hz name htable
    exact absurd (I.proper name columns hcolumns c hmem key (by simp [hc])) hmissing

/-- A join that the check lets through and that compares two sources in its way joins
rows with the same key. -/
theorem Node.Compares.sameKey {left : List Node} (hcompares : select.Compares join left x y)
    (haccepted : checkJoin select.aliases join = .ok ()) (hthis : join.get "this" = some y)
    (hnames : e.map Prod.fst = left)
    (hnodup : ((e ++ [(y, some b)]).map fun source => source.1.cls.alias_or_name).Nodup)
    (hdrawn : Related (fun x a _ _ => Drawn I x a) e) (hx : (x, some a) ∈ e)
    (hmeets : meets server I join e [(y, some b)] = true) : SameKey x a y b := by
  intro key hkey
  have hy : (y, some b) ∈ e ++ [(y, some b)] := List.mem_append_right _ List.mem_cons_self
  have hx' : (x, some a) ∈ e ++ [(y, some b)] := List.mem_append_left _ hx
  rcases hcompares with ⟨on, c, p, q, hon, hc, hcls, hcolumns, hstands⟩ | ⟨hon, key', hdimension, hlacks⟩
  · have htruth : truth server I (e ++ [(y, some b)]) on = some true := by simpa [meets, hon] using hmeets
    have hequal := (truth_conjuncts on).mp htruth c hc
    rcases hstands with ⟨⟨hp, hpne, hpx⟩, hq, hqne, hqy⟩ | ⟨⟨hp, hpne, hpy⟩, hq, hqne, hqx⟩
    · rw [truth_equality hcls hcolumns (value_of_mem hnodup hx' hp hpne) (value_of_mem hnodup hy hq hqne)] at hequal
      obtain ⟨heq, hne⟩ := equal_eq_true.mp hequal
      obtain ⟨hpk, hqk⟩ := checkJoin_on haccepted hon hc hcls hcolumns (by rw [hpx, hqy]; exact hkey)
      rw [hpk] at heq hne
      rw [hqk] at heq
      exact ⟨heq, hne⟩
    · rw [truth_equality hcls hcolumns (value_of_mem hnodup hy hp hpne) (value_of_mem hnodup hx' hq hqne)] at hequal
      obtain ⟨heq, hne⟩ := equal_eq_true.mp hequal
      obtain ⟨hpk, hqk⟩ := checkJoin_on haccepted hon hc hcls hcolumns (by rw [hpy, hqx, keyOf_symm]; exact hkey)
      rw [hpk] at heq hne
      rw [hqk] at heq
      exact ⟨heq.symm, heq ▸ hne⟩
  · have hsame : key' = key := by
      rcases keyOf_eq_some hkey with ⟨-, hother⟩ | ⟨hfact, -⟩
      · exact Option.some.inj (hdimension.symm.trans hother)
      · rw [hfact] at hdimension
        cases hdimension
    subst hsame
    have husing := checkJoin_using haccepted hon hthis hdimension
    have hequal : equal (coalesce e key') (coalesce [(y, some b)] key') = some true := by
      simpa [meets, hon, husing] using hmeets
    obtain ⟨heq, hne⟩ := equal_eq_true.mp hequal
    obtain ⟨v, hv⟩ := Option.ne_none_iff_exists'.mp hne
    have hnodup' : (e.map fun source => source.1.cls.alias_or_name).Nodup := by
      rw [List.map_append] at hnodup
      exact (List.nodup_append.mp hnodup).1
    have ha := coalesce_eq hnames hnodup' hdrawn hlacks hx hv
    have hb : b key' = some v := by
      rw [hv] at heq
      have hcoalesce : coalesce [(y, some b)] key' = b key' := by
        cases hbk : b key' <;> simp [coalesce, hbk]
      exact hcoalesce.symm.trans heq.symm
    exact ⟨ha.trans hb.symm, by simp [ha]⟩

theorem keyOf_self (s : Option String) : keyOf s s = none := by
  cases h : keyOf s s with
  | none => rfl
  | some key =>
    rcases keyOf_eq_some h with ⟨rfl, hkey⟩ | ⟨rfl, hkey⟩ <;> cases hkey

/-- The joined rows of the first joins of a select. -/
def joinedTo (server : Server V) (I : Instance V) (select : Node) (before : List Node) : Joined Node (Row V) :=
  joinAll server I (((select.get "from_").map (joined server I)).getD Joined.unit)
    (before.map fun join => (join, joined server I join))

theorem joinedTo_all (h : select.cls = .Select) :
    joinedTo server I select (select.getAll "joins") = joined server I select := (joined_select h).symm

theorem joinedTo_append {before : List Node} {side : joins.Side} (h : join.cls = .Join side) :
    joinedTo server I select (before ++ [join]) =
      (joinedTo server I select before).join side (meets server I join) (joined server I join) := by
  simp [joinedTo, joinAll, h]

/-- What is known of the joined rows of some sources. -/
structure JoinedBy (I : Instance V) (left : List Node) (j : Joined Node (Row V)) : Prop where
  names : j.names = left
  proper : j.Proper
  related : (left.map fun source => source.cls.alias_or_name).Nodup →
    ∀ e ∈ j.rows, Related (fun x a y b => Drawn I x a ∧ SameKey x a y b) e

omit [DecidableEq V] in
theorem joinedBy_single {rows : List (Row V)} (hrows : ∀ name, x.cls.table? = some name → rows = I.tables name) :
    JoinedBy I [x] (Joined.single x rows) where
  names := rfl
  proper := Joined.proper_single
  related := by
    intro _ e he z a hz u b hu
    obtain ⟨row, hrow, rfl⟩ := List.mem_map.mp he
    obtain ⟨rfl, ha⟩ := Prod.mk.inj (List.mem_singleton.mp hz)
    obtain ⟨rfl, -⟩ := Prod.mk.inj (List.mem_singleton.mp hu)
    obtain rfl := Option.some.inj ha
    refine ⟨fun name hname => ?_, fun key hkey => by rw [keyOf_self] at hkey; cases hkey⟩
    rw [← hrows name hname]
    exact hrow

variable (server I) in
theorem joinedBy_start (h : select.Plain) : JoinedBy I (select.sourcesOf []) (joinedTo server I select []) := by
  unfold joinedTo Node.sourcesOf Node.first
  cases hfrom : select.get "from_" with
  | none =>
    refine { names := rfl, proper := Joined.proper_unit, related := ?_ }
    intro _ e he x a hx
    obtain rfl : e = [] := List.mem_singleton.mp he
    cases hx
  | some node =>
    obtain ⟨hcls, hjoins, source, hthis, hsingle⟩ := h.start node hfrom
    obtain ⟨rows, hjoined, hrows⟩ := joined_single server I hsingle
    have heq : joined server I node = Joined.single source rows :=
      (joined_this (Or.inl hcls) hjoins hthis).trans hjoined
    simp only [Option.map_some, Option.getD_some, List.map_nil, joinAll, List.foldl_nil, heq, Option.bind_some, hthis,
      Option.toList_some, List.filterMap_nil, List.append_nil]
    exact joinedBy_single hrows

/-- A further join keeps what is known, if the check sees it compare its source with
the earlier ones. -/
theorem joinedBy_step {before : List Node} (hplain : select.Plain) (hmem : join ∈ select.getAll "joins")
    (haccepted : checkJoin select.aliases join = .ok ())
    (hcompares : ∀ x ∈ select.sourcesOf before, ∀ y, join.get "this" = some y →
      (keyOf x.cls.table? y.cls.table?).isSome → select.Compares join (select.sourcesOf before) x y)
    (h : JoinedBy I (select.sourcesOf before) (joinedTo server I select before)) :
    JoinedBy I (select.sourcesOf (before ++ [join])) (joinedTo server I select (before ++ [join])) := by
  obtain ⟨⟨side, hside⟩, hjoins, y, hthis, hsingle⟩ := hplain.joins join hmem
  obtain ⟨rows, hjoined, hrows⟩ := joined_single server I hsingle
  have heq : joined server I join = Joined.single y rows :=
    (joined_this (Or.inr ⟨side, hside⟩) hjoins hthis).trans hjoined
  have hsources : select.sourcesOf (before ++ [join]) = select.sourcesOf before ++ [y] := by
    simp [Node.sourcesOf, hthis]
  have hy : JoinedBy I [y] (Joined.single y rows) := joinedBy_single hrows
  rw [joinedTo_append hside, heq, hsources]
  refine { names := congrArg₂ _ h.names hy.names, proper := h.proper.join hy.proper, related := ?_ }
  intro hnodup
  have hleft := h.related (by rw [List.map_append] at hnodup; exact (List.nodup_append.mp hnodup).1)
  have hright := hy.related (by simp)
  refine Related.join hleft hright ?_
  intro e he f hf hmeets x a hx z b hz
  obtain ⟨row, hrow, rfl⟩ := List.mem_map.mp hf
  obtain ⟨rfl, hb⟩ := Prod.mk.inj (List.mem_singleton.mp hz)
  obtain rfl := Option.some.inj hb
  have hnames : e.map Prod.fst = select.sourcesOf before := (h.proper e he).trans h.names
  have hdrawn : Related (fun x a _ _ => Drawn I x a) e := fun x a hx y b hy => (hleft e he x a hx y b hy).1
  have hsame : SameKey x a z b := by
    intro key hkey
    have hxleft : x ∈ select.sourcesOf before := hnames ▸ List.mem_map.mpr ⟨(x, some a), hx, rfl⟩
    have hnodup' : ((e ++ [(z, some b)]).map fun source => source.1.cls.alias_or_name).Nodup := by
      have hmap : ((e ++ [(z, some b)]).map fun source => source.1.cls.alias_or_name) =
          (select.sourcesOf before ++ [z]).map fun source => source.cls.alias_or_name := by
        rw [← hnames]
        simp
      rw [hmap]
      exact hnodup
    exact (hcompares x hxleft z hthis (by simp [hkey])).sameKey haccepted hthis hnames hnodup' hdrawn hx hmeets key hkey
  refine ⟨⟨hdrawn x a hx x a hx, hsame⟩, (hright _ hf z b hz z b hz).1, ?_⟩
  intro key hkey
  obtain ⟨heq, hne⟩ := hsame key (by rw [keyOf_symm]; exact hkey)
  exact ⟨heq.symm, heq ▸ hne⟩

variable (server I) in
theorem joinedBy_run (hchecked : select.Checked)
    (haccepted : ∀ join ∈ select.getAll "joins", checkJoin select.aliases join = .ok ()) (before after : List Node)
    (h : select.getAll "joins" = before ++ after) :
    JoinedBy I (select.sourcesOf before) (joinedTo server I select before) := by
  induction before using List.reverseRecOn generalizing after with
  | nil => exact joinedBy_start server I hchecked.toPlain
  | append_singleton before join ih =>
    have hsplit : select.getAll "joins" = before ++ join :: after := by simpa using h
    have hmem : join ∈ select.getAll "joins" := by rw [hsplit]; simp
    exact joinedBy_step hchecked.toPlain hmem (haccepted join hmem) (hchecked.compares before join after hsplit)
      (ih (join :: after) hsplit)

/-- An accepted select in which the check sees each comparison joins by the keys. -/
theorem Node.Checked.keyedBy (hchecked : select.Checked) (hcls : select.cls = .Select)
    (haccepted : ∀ join ∈ select.getAll "joins", checkJoin select.aliases join = .ok ()) : select.KeyedBy server := by
  intro I e he hnodup
  have hrun := joinedBy_run server I hchecked haccepted _ [] (List.append_nil _).symm
  rw [joinedTo_all hcls] at hrun
  have hnames : e.map Prod.fst = select.sources := (hrun.proper e he).trans hrun.names
  have hnodup' : (select.sources.map fun source => source.cls.alias_or_name).Nodup := by
    rw [← hnames, List.map_map]
    exact hnodup
  exact fun x a hx y b hy => (hrun.related hnodup' e he x a hx y b hy).2

end Keys

end incidentdesk.query
