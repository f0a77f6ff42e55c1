import IncidentDesk.World

namespace incidentdesk

/-- The text of a document, without spaces. -/
def Json.text : Json → String
  | .null => "null"
  | .bool value => toString value
  | .num value => toString value
  | .str value => "\"" ++ value ++ "\""
  | .arr items => "[" ++ ",".intercalate (texts items) ++ "]"
  | .obj fields => "\x7b" ++ ",".intercalate (members fields) ++ "\x7d"
where
  texts : List Json → List String
    | [] => []
    | item :: items => item.text :: texts items
  members : List (String × Json) → List String
    | [] => []
    | (key, value) :: fields => ("\"" ++ key ++ "\":" ++ value.text) :: members fields

/-- The service as it is deployed, with digests that keep the whole text. -/
def deployed : App where
  Lease := 15
  MaxActive := 10
  Hash := Json.text
  LoadLocation zone := zone = "" || zone = "UTC" || zone = "Asia/Shanghai"
  RFC3339 _ := "2025-01-01T00:00:00Z"
  hashtext _ := 0

/-- The rows that the migrations insert. -/
def seed : Store :=
  let σ : Store := (∅ : Store).insert (Key.members "alice" "orders") (some .approver)
  let σ := σ.insert (Key.members "bob" "orders") (some .investigator)
  let σ := σ.insert (Key.members "carol" "payments") (some .approver)
  let σ := σ.insert (Key.admins "admin") ()
  let σ := σ.insert (Key.services "svc-17")
    { team := "orders", name := "订单服务", repo := "local/incident-demo", watermark := 1, enabled := true }
  let σ := σ.insert (Key.services "svc-23")
    { team := "payments", name := "支付服务", repo := "local/incident-demo", watermark := 1, enabled := true }
  σ.insert (Key.query_datasets "commerce")
    { team := "orders", name := "电商演示数仓", enabled := true, version := "teaching-2025q1-v1" }

theorem seed_initial : Initial seed := by
  intro key hkey
  have hne : ∀ key', key'.configured = true → key ≠ key' := by
    rintro key' hkey' rfl
    rw [hkey] at hkey'
    cases hkey'
  simp only [seed]
  repeat rw [AList.lookup_insert_ne (hne _ rfl)]
  exact AList.lookup_empty key

/-- A symptom that `alice` reports about the orders service. -/
def symptom : Create :=
  { Service := "svc-17", Symptom := "订单接口超时", Start := seconds 100, End := seconds 200
    Timezone := "UTC", Query := { Mode := "", Terms := none, Levels := none } }

/-- A result without findings of worker `w1` on its `generation`. -/
def result (generation : Int) : Callback :=
  let report := .obj [("evidence", .arr []), ("facts", .arr []), ("candidates", .arr [])]
  { Owner := "w1", Generation := generation, CallbackID := "c1", Status := "completed"
    Report := some { value := report, size := 42 } }

/-- No row is locked by another transaction. -/
def unlocked : Key → Bool := fun _ => false

/-- An investigation is made and completed. -/
def completing : List Op :=
  [.request (.createTask "alice" symptom "h1" "k1" "i1" "r1") unlocked, .request (.claim "w1") unlocked,
    .request (.callback "i1" "result" (result 1)) unlocked]

/-- Its action is drafted and approved. -/
def approving : List Op :=
  completing ++
    [.request (.draft "alice" "i1" { Version := 0, Title := "订单超时", Body := "请检查" } "a1") unlocked,
      .request (.decide "alice" "i1" 1 "approve" "p1") unlocked]

/-- The action is taken up, and its issue created and read back. -/
def posting : List Op :=
  approving ++
    [.begin unlocked, .send 0, .reply 0 (some ⟨201, some (.obj [("number", .num 7)])⟩), .send 0,
      .reply 0 (some ⟨200, some (.obj [("body", .str "incidentdesk:a1")])⟩)]

/-- The outcome is recorded. -/
def publishing : List Op := posting ++ [.finish 0]

end incidentdesk
