import IncidentDesk.Python
import Mathlib.Tactic.SplitIfs

namespace incidentdesk.query

/-- The classes of syntax nodes that the guard tells apart, with the names that
it reads from them. -/
inductive Expr where
  | Select
  | Union
  | Insert
  | Update
  | Delete
  | Create
  | Drop
  | Command
  | Into
  | Lock
  | Transaction
  | Set
  | Merge
  | Table (catalog db name : String)
  | Func (name : String)
  | Parameter
  | SessionParameter
  | Limit (name : Option String)
  | other
deriving DecidableEq

/-- A statement as the parser gives it: a node, the common table expressions of
its `WITH` clause, and what is below it. -/
inductive Tree where
  | mk (expr : Expr) (recursive : Bool) (ctes : List (String × Tree)) (args : List Tree)

namespace Tree

def expr : Tree → Expr
  | mk expr _ _ _ => expr

def ctes : Tree → List (String × Tree)
  | mk _ _ ctes _ => ctes

/-- `tree.walk()`. -/
def walk : Tree → List Tree
  | mk expr recursive ctes args => mk expr recursive ctes args :: (walkCtes ctes ++ walkArgs args)
where
  walkCtes : List (String × Tree) → List Tree
    | [] => []
    | (_, body) :: more => body.walk ++ walkCtes more
  walkArgs : List Tree → List Tree
    | [] => []
    | arg :: more => arg.walk ++ walkArgs more

end Tree

structure TableRef where
  catalog : String
  db : String
  name : String
deriving DecidableEq

/-- The table that a node names. -/
def Expr.table? : Expr → Option TableRef
  | Table catalog db name => some { catalog, db, name }
  | _ => none

def TABLES : List String := ["fact_order", "dim_region", "dim_customer", "dim_product", "dim_date"]

def MAX_ROWS : Nat := 500

def Expr.forbidden : Expr → Bool
  | Insert | Update | Delete | Create | Drop | Command | Into | Lock | Transaction | Set | Merge => true
  | _ => false

def forbiddenFunctions : List String :=
  ["sleep", "benchmark", "load_file", "get_lock", "release_lock", "release_all_locks", "master_pos_wait",
    "source_pos_wait"]

namespace Tree

/-- `{node.alias_or_name.lower() for node in tree.find_all(exp.CTE)}`. -/
def cteNames (py : Python) (tree : Tree) : List String :=
  tree.walk.flatMap fun node => node.ctes.map fun cte => py.lower cte.1

/-- `tree.find_all(exp.Table)`. -/
def tables (tree : Tree) : List TableRef := tree.walk.filterMap fun node => node.expr.table?

/-- `tree.args.get("limit")`, the name of its expression. -/
def limit? : Tree → Option (Option String)
  | mk _ _ _ args => args.findSome? fun arg =>
    match arg.expr with
    | .Limit name => some name
    | _ => none

/-- `tree.limit(n)`. -/
def limit (n : Nat) : Tree → Tree
  | mk expr recursive ctes args =>
    let others := args.filter fun arg =>
      match arg.expr with
      | .Limit _ => false
      | _ => true
    mk expr recursive ctes (others ++ [mk (.Limit (some (toString n))) false [] []])

end Tree

/-- The guard on the statements that the parser gives, where an empty one has no
tree, or on its failure. It returns the statement that is run. -/
def safe_sql (py : Python) (statements : Option (List (Option Tree))) : Except String Tree := do
  let some statements := statements | throw "SQL 无法解析，请明确查询条件后重试。"
  let [some tree] := statements | throw "只允许一条 SELECT 查询。"
  if tree.expr ≠ .Select ∧ tree.expr ≠ .Union then
    throw "只允许一条 SELECT 查询。"
  if tree.walk.any fun node => node.expr.forbidden then
    throw "查询不能修改数据、写文件或加锁。"
  let allowed := TABLES ++ tree.cteNames py
  if tree.tables.any fun ref => ref.catalog ≠ "" || ref.db ≠ "" || py.lower ref.name ∉ allowed then
    throw "查询只能访问当前电商数仓的五张业务表。"
  if tree.walk.any fun node =>
      match node.expr with
      | .Func name => py.lower name ∈ forbiddenFunctions
      | _ => false then
    throw "查询包含不允许的函数。"
  if tree.walk.any fun node => node.expr = .Parameter || node.expr = .SessionParameter then
    throw "查询不能访问数据库系统变量。"
  match tree.limit? with
  | none => return tree.limit MAX_ROWS
  | some name =>
    let some count := name.bind py.int | throw "LIMIT 必须是整数。"
    return if count < 0 ∨ count > MAX_ROWS then tree.limit MAX_ROWS else tree

/-- A name that a `WITH` clause can bind. -/
def TableRef.unqualified (ref : TableRef) : Bool := ref.catalog = "" && ref.db = ""

section Resolution

-- how the server compares identifiers
variable (fold : String → String)

def TableRef.bound (scope : List String) (ref : TableRef) : Bool := ref.unqualified && fold ref.name ∈ scope

/-- The references that are left when a name is bound. -/
def hide (name : String) (refs : List TableRef) : List TableRef :=
  refs.filter fun ref => !ref.bound fold [fold name]

namespace Tree

/-- The references that MySQL resolves to base tables, where the common table
expressions of `scope` are visible. A `WITH` clause makes each of its names
visible to the ones after it and to its query, and a recursive one also to its
own body. -/
def baseTables (scope : List String) : Tree → List TableRef
  | mk expr recursive ctes args =>
    expr.table?.toList.filter (fun ref => !ref.bound fold scope) ++ baseCtes recursive scope ctes ++
      baseArgs ((ctes.map fun cte => fold cte.1).reverse ++ scope) args
where
  baseCtes (recursive : Bool) (scope : List String) : List (String × Tree) → List TableRef
    | [] => []
    | (name, body) :: more =>
      body.baseTables (if recursive then fold name :: scope else scope) ++
        baseCtes recursive (fold name :: scope) more
  baseArgs (scope : List String) : List Tree → List TableRef
    | [] => []
    | arg :: more => arg.baseTables scope ++ baseArgs scope more

/-- The references of a statement that nothing in it binds. -/
def free : Tree → List TableRef
  | mk expr recursive ctes args => expr.table?.toList ++ freeCtes recursive (freeArgs args) ctes
where
  freeCtes (recursive : Bool) (query : List TableRef) : List (String × Tree) → List TableRef
    | [] => query
    | (name, body) :: more =>
      (if recursive then hide fold name body.free else body.free) ++ hide fold name (freeCtes recursive query more)
  freeArgs : List Tree → List TableRef
    | [] => []
    | arg :: more => arg.free ++ freeArgs more

end Tree

variable {fold} {scope : List String} {ref : TableRef} {tree : Tree}

theorem filter_hide (name : String) (refs : List TableRef) :
    (hide fold name refs).filter (fun ref => !ref.bound fold scope) =
      refs.filter fun ref => !ref.bound fold (fold name :: scope) := by
  rw [hide, List.filter_filter]
  refine List.filter_congr fun ref _ => ?_
  by_cases h : fold ref.name = fold name <;> cases hq : ref.unqualified <;> simp [TableRef.bound, h, hq]

theorem filter_hide_if (recursive : Bool) (name : String) (refs : List TableRef) :
    (if recursive then hide fold name refs else refs).filter (fun ref => !ref.bound fold scope) =
      refs.filter fun ref => !ref.bound fold (if recursive then fold name :: scope else scope) := by
  cases recursive with
  | true => exact filter_hide name refs
  | false => rfl

namespace Tree

mutual

/-- What resolves to a base table is what nothing binds, in the statement or
around it. -/
theorem baseTables_eq (scope : List String) :
    (tree : Tree) → tree.baseTables fold scope = (tree.free fold).filter fun ref => !ref.bound fold scope
  | mk expr recursive ctes args => by
    rw [baseTables, free, List.filter_append, List.append_assoc, baseArgs_eq, baseCtes_eq]

theorem baseCtes_eq (scope : List String) (recursive : Bool) (query : List TableRef) :
    (ctes : List (String × Tree)) →
      baseTables.baseCtes fold recursive scope ctes ++
          query.filter (fun ref => !ref.bound fold ((ctes.map fun cte => fold cte.1).reverse ++ scope)) =
        (free.freeCtes fold recursive query ctes).filter fun ref => !ref.bound fold scope
  | [] => rfl
  | (name, body) :: more => by
    rw [baseTables.baseCtes, free.freeCtes, List.filter_append, filter_hide, filter_hide_if, List.append_assoc,
      baseTables_eq _ body, ← baseCtes_eq (fold name :: scope) recursive query more]
    simp

theorem baseArgs_eq (scope : List String) : (args : List Tree) →
    baseTables.baseArgs fold scope args = (free.freeArgs fold args).filter fun ref => !ref.bound fold scope
  | [] => rfl
  | arg :: more => by
    rw [baseTables.baseArgs, free.freeArgs, List.filter_append, baseTables_eq scope arg, baseArgs_eq scope more]

end

mutual

theorem free_subset : (tree : Tree) → tree.free fold ⊆ tree.tables
  | mk expr recursive ctes args => by
    intro ref href
    rw [tables, walk, List.filterMap_cons, List.filterMap_append]
    rw [free, List.mem_append, Option.mem_toList] at href
    obtain href | href := href
    · simp [Tree.expr, Option.mem_def.mp href]
    · have hmem := freeCtes_subset recursive _ ctes href
      rw [List.mem_append] at hmem
      have hbelow : ref ∈ (walk.walkCtes ctes).filterMap (·.expr.table?) ++ (walk.walkArgs args).filterMap (·.expr.table?) :=
        List.mem_append.mpr (hmem.imp_right fun h => freeArgs_subset args h)
      cases (mk expr recursive ctes args).expr.table? with
      | none => exact hbelow
      | some own => exact List.mem_cons_of_mem _ hbelow

theorem freeCtes_subset (recursive : Bool) (query : List TableRef) : (ctes : List (String × Tree)) →
    free.freeCtes fold recursive query ctes ⊆ (walk.walkCtes ctes).filterMap (·.expr.table?) ++ query
  | [] => by simp [free.freeCtes]
  | (name, body) :: more => by
    intro ref href
    rw [walk.walkCtes, List.filterMap_append, List.append_assoc, List.mem_append]
    rw [free.freeCtes, List.mem_append] at href
    obtain href | href := href
    · refine .inl (free_subset body ?_)
      split at href
      · exact (List.mem_filter.mp href).1
      · exact href
    · exact .inr (freeCtes_subset recursive query more (List.mem_filter.mp href).1)

theorem freeArgs_subset : (args : List Tree) →
    free.freeArgs fold args ⊆ (walk.walkArgs args).filterMap (·.expr.table?)
  | [] => List.Subset.refl _
  | arg :: more => by
    rw [free.freeArgs, walk.walkArgs, List.filterMap_append]
    intro ref href
    exact List.mem_append.mpr ((List.mem_append.mp href).imp (free_subset arg ·) (freeArgs_subset more ·))

end

end Tree

end Resolution

section Guard

variable {py : Python} {fold : String → String} {tree out : Tree}

/-- A statement that is let through names no table but the five and the common
table expressions that occur somewhere in it. -/
theorem safe_sql_tables (h : safe_sql py (some [some tree]) = .ok out) : ∀ ref ∈ tree.tables,
    ref.unqualified = true ∧ (py.lower ref.name ∈ TABLES ∨ py.lower ref.name ∈ tree.cteNames py) := by
  have hany : (tree.tables.any fun ref =>
      ref.catalog ≠ "" || ref.db ≠ "" || py.lower ref.name ∉ TABLES ++ tree.cteNames py) = false := by
    rw [Bool.eq_false_iff]
    intro hany
    simp only [safe_sql, bind, Except.bind, throw, throwThe, MonadExceptOf.throw, pure, Except.pure, hany] at h
    grind
  intro ref href
  have href := List.any_eq_false.mp hany ref href
  simp only [TableRef.unqualified, Bool.and_eq_true, decide_eq_true_eq]
  simp only [Bool.or_eq_true, decide_eq_true_eq, not_or, Classical.not_not, List.mem_append] at href
  exact ⟨href.1, by grind⟩

theorem Tree.limit?_limit (n : Nat) (tree : Tree) : (tree.limit n).limit? = some (some (toString n)) := by
  cases tree with
  | mk expr recursive ctes args =>
    rw [limit, limit?, List.findSome?_append, List.findSome?_eq_none_iff.mpr]
    · rfl
    · intro arg harg
      have hother := (List.mem_filter.mp harg).2
      cases harg' : arg.expr <;> simp_all

theorem Tree.limit_limit (n : Nat) (tree : Tree) : (tree.limit n).limit n = tree.limit n := by
  cases tree with
  | mk expr recursive ctes args =>
    simp only [limit, List.filter_append, List.filter_filter, Bool.and_self]
    exact congrArg _ (congrArg (· ++ _) (List.append_nil _))

/-- Only one statement is let through. -/
theorem safe_sql_single {statements : Option (List (Option Tree))} (h : safe_sql py statements = .ok out) :
    ∃ tree, statements = some [some tree] := by
  rcases statements with _ | (_ | ⟨_ | tree, _ | _⟩)
  · cases h
  · cases h
  · cases h
  · cases h
  · exact ⟨tree, rfl⟩
  · cases h

/-- What the guard makes of the row limit of a statement that it lets through. -/
theorem safe_sql_limit (h : safe_sql py (some [some tree]) = .ok out) :
    tree.limit? = none ∧ out = tree.limit MAX_ROWS ∨
      ∃ name count, tree.limit? = some (some name) ∧ py.int name = some count ∧
        out = if count < 0 ∨ count > MAX_ROWS then tree.limit MAX_ROWS else tree := by
  simp only [safe_sql, bind, Except.bind, throw, throwThe, MonadExceptOf.throw, pure, Except.pure] at h
  split_ifs at h
  cases hlimit : tree.limit? with
  | none =>
    simp only [hlimit, Except.ok.injEq] at h
    exact .inl ⟨rfl, h.symm⟩
  | some name =>
    cases hcount : name.bind py.int with
    | none => simp only [hlimit, hcount, reduceCtorEq] at h
    | some count =>
      simp only [hlimit, hcount, Except.ok.injEq] at h
      obtain ⟨name, rfl, hname⟩ := Option.bind_eq_some_iff.mp hcount
      exact .inr ⟨name, count, rfl, hname, h.symm⟩

/-- The guard changes nothing in what it has let through. -/
theorem safe_sql_again {out' : Tree} (h : safe_sql py (some [some tree]) = .ok out)
    (h' : safe_sql py (some [some out]) = .ok out') : out' = out := by
  have hlimited : (out = tree.limit MAX_ROWS) → out' = out := by
    rintro rfl
    have hlimit := Tree.limit?_limit MAX_ROWS tree
    obtain ⟨hnone, -⟩ | ⟨_, _, -, -, rfl⟩ := safe_sql_limit h'
    · cases hnone.symm.trans hlimit
    · split
      · exact Tree.limit_limit MAX_ROWS tree
      · rfl
  obtain ⟨-, hout⟩ | ⟨name, count, hname, hcount, hout⟩ := safe_sql_limit h
  · exact hlimited hout
  · by_cases hrange : count < 0 ∨ count > MAX_ROWS
    · rw [if_pos hrange] at hout
      exact hlimited hout
    · rw [if_neg hrange] at hout
      subst hout
      obtain ⟨hnone, -⟩ | ⟨name', count', hname', hcount', rfl⟩ := safe_sql_limit h'
      · cases hnone.symm.trans hname
      · obtain rfl : name' = name := by simpa using hname'.symm.trans hname
        obtain rfl := Option.some.inj (hcount'.symm.trans hcount)
        rw [if_neg hrange]

/-- A statement that is let through reads the five tables only if and only if
none of its common table expressions, other than those that are named like one
of the five, is referred to where it is not visible. -/
theorem safe_sql_confined_iff (py : Python) (fold : String → String) (tree out : Tree)
    (h : safe_sql py (some [some tree]) = .ok out) :
    (∀ ref ∈ tree.baseTables fold [], ref.unqualified = true ∧ py.lower ref.name ∈ TABLES) ↔
      ∀ ref ∈ tree.free fold, py.lower ref.name ∈ tree.cteNames py → py.lower ref.name ∈ TABLES := by
  have hall : tree.baseTables fold [] = tree.free fold := by
    rw [Tree.baseTables_eq, List.filter_eq_self]
    simp [TableRef.bound]
  rw [hall]
  constructor
  · exact fun hconfined ref href _ => (hconfined ref href).2
  · intro hnames ref href
    obtain ⟨hunqualified, hname | hname⟩ := safe_sql_tables h ref (Tree.free_subset tree href)
    · exact ⟨hunqualified, hname⟩
    · exact ⟨hunqualified, hnames ref href hname⟩

end Guard

/-- `select * from name`, with a `WITH` clause. -/
def selectFrom (name : String) (ctes : List (String × Tree)) : Tree :=
  .mk .Select false ctes [.mk .other false [] [.mk (.Table "" "" name) false [] []]]

/-- `with totals as (select * from fact_order) select * from totals`. -/
def totals : Tree := selectFrom "totals" [("totals", selectFrom "fact_order" [])]

theorem totals_confined :
    (∀ ref ∈ totals.baseTables id [], ref.unqualified = true ∧ Python.ascii.lower ref.name ∈ TABLES) ↔
      ∀ ref ∈ totals.free id, Python.ascii.lower ref.name ∈ totals.cteNames Python.ascii →
        Python.ascii.lower ref.name ∈ TABLES :=
  safe_sql_confined_iff Python.ascii id totals (totals.limit MAX_ROWS) rfl

/-- `with unknown_table as (select * from unknown_table) select * from unknown_table`. -/
def disguised : Tree := selectFrom "unknown_table" [("unknown_table", selectFrom "unknown_table" [])]

/-- A table that is refused by its own name is read under the name of a common
table expression. -/
theorem disguised_reads_unknown_table :
    safe_sql Python.ascii (some [some disguised]) = .ok (disguised.limit MAX_ROWS) ∧
      (∃ error, safe_sql Python.ascii (some [some (selectFrom "unknown_table" [])]) = .error error) ∧
      { catalog := "", db := "", name := "unknown_table" } ∈ disguised.baseTables id [] ∧
      Python.ascii.lower "unknown_table" ∉ TABLES := by
  refine ⟨rfl, ⟨_, rfl⟩, ?_, ?_⟩ <;> decide

end incidentdesk.query
