import IncidentDesk.Joins

namespace incidentdesk.query

/-- The classes of syntax nodes that the check of the joins tells apart, with the
names that it reads from them. The label of a source is its alias. -/
inductive Class where
  | Select
  | From
  | Join (side : joins.Side)
  | Table (name label : String)
  | Subquery (label : String)
  | Column (table name : String)
  | Identifier (name : String)
  | EQ
  | And
  | Paren
  | other
deriving DecidableEq

/-- A syntax node with its arguments in their order, where a list of nodes is an
argument for each of them. -/
inductive Node where
  | mk (cls : Class) (args : List (String × Node))

namespace Class

/-- `t.name` of a table. -/
def table? : Class → Option String
  | Table name _ => some name
  | _ => none

def alias_or_name : Class → String
  | Table name label => if label = "" then name else label
  | Subquery label => label
  | _ => ""

/-- The table, if it is given, and the name of a column. -/
def column? : Class → Option (String × String)
  | Column table name => some (table, name)
  | _ => none

def identifier? : Class → Option String
  | Identifier name => some name
  | _ => none

end Class

namespace Node

def cls : Node → Class
  | mk cls _ => cls

def args : Node → List (String × Node)
  | mk _ args => args

/-- `node.args.get(key)`. -/
def get (node : Node) (key : String) : Option Node := node.args.lookup key

/-- `node.args.get(key, [])` of an argument that is a list. -/
def getAll (node : Node) (key : String) : List Node := (node.args.filter fun arg => arg.1 = key).map Prod.snd

/-- Two trees side by side, level by level. -/
def beside : List (List Node) → List (List Node) → List (List Node)
  | [], ys => ys
  | xs, [] => xs
  | x :: xs, y :: ys => (x ++ y) :: beside xs ys

def levels : Node → List (List Node)
  | mk cls args => [mk cls args] :: levelsArgs args
where
  levelsArgs : List (String × Node) → List (List Node)
    | [] => []
    | (_, node) :: more => beside node.levels (levelsArgs more)

/-- `node.walk()`, which goes level by level. -/
def bfs (node : Node) : List Node := node.levels.flatten

/-- `tree.find_all(exp.Select)`. -/
def selects (tree : Node) : List Node := tree.bfs.filter fun node => node.cls = .Select

/-- `on.find_all(exp.EQ)`. -/
def equalities (on : Node) : List Node := on.bfs.filter fun node => node.cls = .EQ

/-- `{t.alias_or_name: t.name for t in select.find_all(exp.Table)}`, the last one first. -/
def aliases (select : Node) : List (String × String) :=
  (select.bfs.filterMap fun t => t.cls.table?.map (t.cls.alias_or_name, ·)).reverse

/-- The columns that an equality compares, if it compares two. -/
def columns? (eq : Node) : Option ((String × String) × (String × String)) := do
  let a ← eq.get "this"
  let b ← eq.get "expression"
  let a ← a.cls.column?
  let b ← b.cls.column?
  return (a, b)

end Node

def KEYS : List (String × String) :=
  [("dim_region", "region_id"), ("dim_customer", "customer_id"), ("dim_product", "product_id"), ("dim_date", "date_id")]

/-- `KEYS.get(name)`. -/
def dimensionKey (name : String) : Option String := KEYS.lookup name

/-- The key between the fact table and a dimension. -/
def keyOf (ta tb : Option String) : Option String :=
  if ta = some "fact_order" ∧ (tb.bind dimensionKey).isSome then tb.bind dimensionKey
  else if tb = some "fact_order" then ta.bind dimensionKey
  else none

/-- The check of one equality in an `ON`. -/
def checkEquality (aliases : List (String × String)) (eq : Node) : Except String Unit := do
  let some ((table, a), (table', b)) := eq.columns? | return
  let some key := keyOf (aliases.lookup table) (aliases.lookup table') | return
  if a ≠ key ∨ b ≠ key then
    throw s!"关联错误：fact_order 与维度表必须使用 {key} = {key}，不能用名称代替 ID。"

/-- The names of a `USING`. -/
def Node.using (join : Node) : List String := (join.getAll "using").filterMap fun x => x.cls.identifier?

/-- The check of one join. -/
def checkJoin (aliases : List (String × String)) (join : Node) : Except String Unit :=
  match join.get "on" with
  | none => do
    if join.using = [] then
      throw "业务表关联必须使用显式外键，不能使用笛卡尔积。"
    let key := ((join.get "this").bind fun table => table.cls.table?).bind dimensionKey
    if key.any fun key => join.using ≠ [key] then
      throw "维度表必须按对应 ID 外键关联。"
  | some on => on.equalities.forM (checkEquality aliases)

def validate_relations (tree : Node) : Except String Unit :=
  tree.selects.forM fun select => (select.getAll "joins").forM (checkJoin select.aliases)

/-- The columns of the warehouse. -/
def COLUMNS : List (String × List String) :=
  [("dim_region", ["region_id", "province", "region_name", "country"]),
    ("dim_customer", ["customer_id", "customer_name", "gender", "member_level"]),
    ("dim_product", ["product_id", "product_name", "category", "brand"]),
    ("dim_date", ["date_id", "year", "quarter", "month", "day"]),
    ("fact_order", ["order_id", "customer_id", "product_id", "date_id", "region_id", "order_quantity", "order_amount"])]

/-- A row gives a value, or none for a null and for a column that it does not have. -/
abbrev Row (V : Type) := String → Option V

/-- The rows that the names of tables stand for. -/
structure Instance (V : Type) where
  tables : String → List (Row V)
  proper : ∀ name columns, COLUMNS.lookup name = some columns → ∀ row ∈ tables name, ∀ column, row column ≠ none →
    column ∈ columns

abbrev Env (V : Type) := joins.Env Node (Row V)

/-- The rest of the server: the rows of a subquery, and whether a condition on
joined rows that is no comparison of their columns is true, false or null. -/
structure Server (V : Type) where
  derived : Instance V → Node → List (Row V)
  condition : Instance V → Env V → Node → Option Bool

/-- The value of a column with a table, if that is one of the joined sources. -/
def Env.value {V : Type} (e : Env V) (table column : String) : Option (Option V) :=
  if table = "" then none
  else (e.find? fun source => source.1.cls.alias_or_name = table).map fun source => source.2.bind (· column)

/-- The conjunction of three truth values. -/
def and3 : Option Bool → Option Bool → Option Bool
  | some true, b => b
  | some false, _ => some false
  | none, some false => some false
  | none, _ => none

/-- `a = b`, which is null where one of the two is. -/
def equal {V : Type} [DecidableEq V] : Option V → Option V → Option Bool
  | some a, some b => some (a = b)
  | _, _ => none

section Joins

variable {V : Type} [DecidableEq V] (server : Server V) (I : Instance V)

/-- Whether joined rows satisfy a condition. -/
def truth (e : Env V) : Node → Option Bool
  | .mk .And args => truthArgs args
  | .mk .Paren args => truthArgs args
  | .mk cls args =>
    match cls, (Node.mk cls args).columns? with
    | .EQ, some ((table, a), (table', b)) =>
      match e.value table a, e.value table' b with
      | some x, some y => equal x y
      | _, _ => server.condition I e (.mk cls args)
    | _, _ => server.condition I e (.mk cls args)
where
  truthArgs : List (String × Node) → Option Bool
    | [] => some true
    | (_, node) :: more => and3 (truth e node) (truthArgs more)

/-- The value of a column among the sources that have it. -/
def coalesce (e : Env V) (column : String) : Option V := e.findSome? fun source => source.2.bind (· column)

/-- The condition of a join on joined rows to its left and to its right. -/
def meets (join : Node) (e f : Env V) : Bool :=
  match join.get "on" with
  | some on => truth server I (e ++ f) on = some true
  | none => join.using.all fun column => equal (coalesce e column) (coalesce f column) = some true

/-- Parentheses around a table, or around joined tables. -/
def Node.reference : Node → Bool
  | mk (.Table _ _) _ => true
  | mk (.Subquery _) args => referenceThis args
  | _ => false
where
  referenceThis : List (String × Node) → Bool
    | [] => false
    | (key, node) :: more => if key = "this" then node.reference else referenceThis more

/-- A source with what is joined to it. -/
def joinAll (start : joins.Joined Node (Row V)) :
    List (Node × joins.Joined Node (Row V)) → joins.Joined Node (Row V) :=
  List.foldl (fun left join =>
    match join.1.cls with
    | .Join side => left.join side (meets server I join.1) join.2
    | _ => left) start

/-- The joined rows of a `FROM` clause, before its `WHERE`, or of a source in one. -/
def joined : Node → joins.Joined Node (Row V)
  | .mk cls args =>
    let parts := joinedArgs args
    let this := ((parts.lookup "this").map Prod.snd).getD joins.Joined.unit
    let start :=
      match cls with
      | .Table name _ => joins.Joined.single (.mk cls args) (I.tables name)
      | .Select => ((parts.lookup "from_").map Prod.snd).getD joins.Joined.unit
      | .From | .Join _ => this
      | _ =>
        if (Node.mk cls args).reference then this
        else joins.Joined.single (.mk cls args) (server.derived I (.mk cls args))
    joinAll server I start ((parts.filter fun part => part.1 = "joins").map Prod.snd)
where
  joinedArgs : List (String × Node) → List (String × Node × joins.Joined Node (Row V))
    | [] => []
    | (key, node) :: more => (key, node, joined node) :: joinedArgs more

end Joins

end incidentdesk.query
