import MaglevLb.Reconcile
import Mathlib.Data.String.Basic

/-!
# Validation of the desired state

`validate_desired` over parsed JSON. A check adds its errors to a list and goes on
with a substitute for what it refused; the document is refused at the end if any
check added one. Numbers are exact.
-/
namespace MaglevLb.Schema

open Children Reconcile Slots

/-- A number as Python reads it; a float literal may be too large for a float. -/
inductive Number where
  | int (v : ℤ)
  | float (v : ℚ)
  | infinity (negative : Bool)

/-- What `loads` returns. The keys of an object are distinct. -/
inductive Json where
  | null
  | bool (b : Bool)
  | num (v : Number)
  | str (s : String)
  | arr (items : List Json)
  | obj (members : List (String × Json))

structure Error where
  path : String
  msg : String
  deriving DecidableEq, Repr

/-- What a check returns, and the errors it added. -/
structure Checked (α : Type) where
  value : α
  errors : List Error

def schema : String := "l4mlb-live/1"

def maxClients : ℕ := 4

def maxBackends : ℕ := 16

def maxTotalRps : ℕ := 4000

/-! ### Single values -/

def inRange (path : String) (v : ℚ) (lo hi : ℤ) : Checked (Option ℚ) :=
  if v < lo ∨ hi < v then ⟨none, [⟨path, s!"must be in [{lo}, {hi}]"⟩]⟩ else ⟨some v, []⟩

def number (path : String) (v : Json) (lo hi : ℤ) (integer : Bool) : Checked (Option ℚ) :=
  match v with
  | .num (.infinity _) => ⟨none, [⟨path, "must be finite"⟩]⟩
  | .num (.int z) => inRange path z lo hi
  | .num (.float q) =>
      if integer && !q.isInt then ⟨none, [⟨path, "must be an integer"⟩]⟩
      else inRange path q lo hi
  | _ => ⟨none, [⟨path, "must be a number"⟩]⟩

/-- The members of an object. -/
def obj (path : String) (v : Json) (allowed : List String) : Checked (List (String × Json)) :=
  match v with
  | .obj members =>
      ⟨members, (members.filter (·.1 ∉ allowed)).map fun m => ⟨path ++ "." ++ m.1, "unknown key"⟩⟩
  | _ => ⟨[], [⟨path, "must be an object"⟩]⟩

def get? (members : List (String × Json)) (k : String) : Option Json :=
  (members.find? (·.1 = k)).map Prod.snd

def isIdChar (c : Char) : Bool := c.isAlphanum || c = '_' || c = '-'

/-- A match of `ID_RE`; the end of the pattern also matches before a last newline. -/
def matchesId (s : String) : Bool :=
  let body := s.toList.takeWhile isIdChar
  let rest := s.toList.dropWhile isIdChar
  1 ≤ body.length && body.length ≤ 64 && (rest = [] || rest = ['\n'])

def idOf (path : String) (v : Option Json) : Checked (Option String) :=
  let refused : Checked (Option String) :=
    ⟨none, [⟨path, "must match ^[A-Za-z0-9_-]\x7b1,64\x7d$"⟩]⟩
  match v with
  | some (.str s) => if matchesId s then ⟨some s, []⟩ else refused
  | _ => refused

/-! ### Nodes -/

/-- A numeric setting of a node: its key, range and kind, and where it goes. -/
structure Field (C : Type) where
  name : String
  lo : ℤ
  hi : ℤ
  integer : Bool
  set : C → ℚ → C

def clientFields : List (Field ClientConfig) :=
  [⟨"rps", 0, 2000, false, fun c v => { c with rps := v }⟩,
    ⟨"timeoutMs", 50, 10000, false, fun c v => { c with timeoutMs := v }⟩,
    ⟨"retries", 0, 5, true, fun c v => { c with retries := v.num }⟩,
    ⟨"poolSize", 0, 64, true, fun c v => { c with poolSize := v.num }⟩,
    ⟨"maxConnAgeMs", 0, 60000, true, fun c v => { c with maxConnAgeMs := v.num }⟩]

def backendFields : List (Field BackendConfig) :=
  [⟨"capacity", 1, 256, true, fun c v => { c with capacity := v.num }⟩,
    ⟨"serviceMs", 1, 2000, false, fun c v => { c with serviceMs := v }⟩,
    ⟨"serviceCv", 0, 3, false, fun c v => { c with serviceCv := v }⟩,
    ⟨"queueLimit", 0, 4096, true, fun c v => { c with queueLimit := v.num }⟩,
    ⟨"errorRate", 0, 1, false, fun c v => { c with errorRate := v }⟩]

def clientDefaults : ClientConfig := ⟨50, 1000, 1, 0, 0⟩

section Nodes

variable {C : Type}

/-- A setting that is given and accepted replaces the default. -/
def readField (path : String) (n : List (String × Json)) (cfg : Checked C) (f : Field C) :
    Checked C :=
  match get? n f.name with
  | none => cfg
  | some v =>
      let val := number (path ++ "." ++ f.name) v f.lo f.hi f.integer
      ⟨(val.value.map (f.set cfg.value)).getD cfg.value, cfg.errors ++ val.errors⟩

def readNode (path : String) (fields : List (Field C)) (defaults : C) (v : Json) :
    Checked (Option (String × C)) :=
  let n := obj path v ("id" :: fields.map Field.name)
  let nid := idOf (path ++ ".id") (get? n.value "id")
  let cfg := fields.foldl (readField path n.value) ⟨defaults, []⟩
  ⟨nid.value.map fun i => (i, cfg.value), n.errors ++ nid.errors ++ cfg.errors⟩

/-- Nodes past the limit are not read, and nodes without an id are left out. -/
def nodeList (path : String) (v : Json) (fields : List (Field C)) (defaults : C) (limit : ℕ) :
    Checked (List (String × C)) :=
  match v with
  | .arr items =>
      let nodes := (items.take limit).mapIdx fun i n => readNode s!"{path}[{i}]" fields defaults n
      ⟨nodes.filterMap Checked.value,
        (if limit < items.length then [⟨path, s!"at most {limit} allowed"⟩] else []) ++
          nodes.flatMap Checked.errors⟩
  | _ => ⟨[], [⟨path, "must be a list"⟩]⟩

end Nodes

/-! ### Edges -/

/-- The nodes an edge can join. -/
structure Ends where
  lb : Option String
  clients : List String
  backends : List String

def readEdge (ends : Ends) (path : String) (v : Json) : Checked (Option (String × String)) :=
  let e := obj path v ["from", "to"]
  let a := idOf (path ++ ".from") (get? e.value "from")
  let b := idOf (path ++ ".to") (get? e.value "to")
  let errors := e.errors ++ a.errors ++ b.errors
  match a.value, b.value with
  | some a, some b =>
      if a ∈ ends.clients ∧ some b = ends.lb then ⟨some (a, b), errors⟩
      else if some a = ends.lb ∧ b ∈ ends.backends then ⟨some (a, b), errors⟩
      else if a ∈ ends.clients ∧ b ∈ ends.backends then
        ⟨none, errors ++ [⟨path, "a client only knows the VIP: connect it to the load balancer, " ++
          "not directly to a backend"⟩]⟩
      else ⟨none, errors ++ [⟨path, "only client->lb and lb->backend edges are supported"⟩]⟩
  | _, _ => ⟨none, errors⟩

def edgeList (ends : Ends) (v : Json) : Checked (List (String × String)) :=
  match v with
  | .arr items =>
      if maxClients + maxBackends < items.length then ⟨[], [⟨"$.edges", "too many edges"⟩]⟩
      else
        let edges := items.mapIdx fun i e => readEdge ends s!"$.edges[{i}]" e
        ⟨edges.filterMap Checked.value, edges.flatMap Checked.errors⟩
  | _ => ⟨[], [⟨"$.edges", "must be a list"⟩]⟩

/-! ### The document -/

def checkSchema (v : Option Json) : List Error :=
  match v with
  | some (.str s) => if s = schema then [] else [⟨"$.schema", s!"must be '{schema}'"⟩]
  | _ => [⟨"$.schema", s!"must be '{schema}'"⟩]

/-- The position is the one among the nodes that were kept. -/
def checkAges (clients : List (String × ClientConfig)) : List Error :=
  (clients.mapIdx fun i c =>
    if c.2.maxConnAgeMs ≠ 0 ∧ c.2.maxConnAgeMs < 1000 then
      [⟨s!"$.nodes.clients[{i}].maxConnAgeMs", "must be 0 or in [1000, 60000]"⟩]
    else []).flatten

def checkRps (clients : List (String × ClientConfig)) : List Error :=
  if (maxTotalRps : ℚ) < clients.foldl (fun total c => total + c.2.rps) 0 then
    [⟨"$.nodes.clients", s!"total rps must be <= {maxTotalRps}"⟩]
  else []

def checkUnique (ends : Ends) : List Error :=
  if (ends.lb.toList ++ ends.clients ++ ends.backends).Nodup then []
  else [⟨"$.nodes", "node ids must be unique"⟩]

def checkEdges (edges : List (String × String)) : List Error :=
  if edges.Nodup then [] else [⟨"$.edges", "duplicate edge"⟩]

def readEnabled (v : Json) : Checked Bool :=
  match v with
  | .bool b => ⟨b, []⟩
  | _ => ⟨false, [⟨"$.load.enabled", "must be a boolean"⟩]⟩

/-- The normalized document. -/
structure Canvas where
  lb : Option String
  desired : Desired String
  deriving DecidableEq

def validateDesired (doc : Json) : Except (List Error) Canvas :=
  let doc := obj "$" doc ["schema", "nodes", "edges", "load"]
  let nodes := obj "$.nodes" ((get? doc.value "nodes").getD .null) ["lb", "clients", "backends"]
  let lb := idOf "$.nodes.lb" (get? nodes.value "lb")
  let clients := nodeList "$.nodes.clients" ((get? nodes.value "clients").getD (.arr []))
    clientFields clientDefaults maxClients
  let backends := nodeList "$.nodes.backends" ((get? nodes.value "backends").getD (.arr []))
    backendFields backendDefaults maxBackends
  let ends : Ends := ⟨lb.value, clients.value.map Prod.fst, backends.value.map Prod.fst⟩
  let edges := edgeList ends ((get? doc.value "edges").getD (.arr []))
  let load := obj "$.load" ((get? doc.value "load").getD (.obj [("enabled", .bool false)]))
    ["enabled"]
  let enabled := readEnabled ((get? load.value "enabled").getD (.bool false))
  let errors := doc.errors ++ checkSchema (get? doc.value "schema") ++ nodes.errors ++ lb.errors ++
    clients.errors ++ backends.errors ++ checkAges clients.value ++ checkRps clients.value ++
    checkUnique ends ++ edges.errors ++ checkEdges edges.value ++ load.errors ++ enabled.errors
  if errors = [] then
    .ok ⟨lb.value,
      { clients := clients.value.map fun c =>
          ⟨c.1, c.2, edges.value.any fun e => e.1 = c.1 ∧ some e.2 = lb.value⟩
        backends := backends.value.map fun b =>
          ⟨b.1, b.2, edges.value.any fun e => some e.1 = lb.value ∧ e.2 = b.1⟩
        loadEnabled := enabled.value }⟩
  else .error errors

/-! ### Accepted documents -/

theorem nodeList_length_le {C : Type} (path : String) (v : Json) (fields : List (Field C))
    (defaults : C) (limit : ℕ) :
    (nodeList path v fields defaults limit).value.length ≤ limit := by
  unfold nodeList
  split
  · refine (List.length_filterMap_le _ _).trans ?_
    rw [List.length_mapIdx]
    exact List.length_take_le _ _
  · exact Nat.zero_le _

theorem checkUnique_eq_nil {ends : Ends} (h : checkUnique ends = []) :
    (ends.lb.toList ++ ends.clients ++ ends.backends).Nodup := by
  by_contra hdup
  rw [checkUnique, if_neg hdup] at h
  cases h

/-- An accepted document has at most four clients, with distinct ids. -/
theorem validateDesired_clients {doc : Json} {canvas : Canvas}
    (h : validateDesired doc = .ok canvas) :
    canvas.desired.clients.length ≤ maxClients ∧
      (canvas.desired.clients.map ClientNode.id).Nodup := by
  unfold validateDesired at h
  dsimp only at h
  split at h
  · next herrors =>
      cases h
      simp only [List.append_eq_nil_iff] at herrors
      obtain ⟨⟨⟨⟨⟨-, hunique⟩, -⟩, -⟩, -⟩, -⟩ := herrors
      have hnodup := checkUnique_eq_nil hunique
      rw [List.map_map, List.length_map]
      refine ⟨nodeList_length_le .., ?_⟩
      exact (List.nodup_append.mp (List.nodup_append.mp hnodup).1).2.1
  · cases h

end MaglevLb.Schema
