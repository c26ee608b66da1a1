import MaglevLb.ControlChannel
import MaglevLb.Snapshot
import MaglevLb.WireText

/-!
# The bridge's HTTP surface

What `Handler` does with a request: the checks of host, origin and token, the body, and which
endpoint it is for. The path is the one of the URL without its query, headers are the ones the
handler looks at. Parsing JSON text and reading the static bundle are parameters.
-/
namespace MaglevLb.HttpApi

open LineText WireProtocol WireText Schema ActionSchema Snapshot

def maxBody : ℕ := 64 * 1024

inductive Method where
  | get | head | put | post | delete | patch | options
  deriving DecidableEq

/-- `body` is what reading as many bytes as announced gives, `none` when that times out. -/
structure Request where
  command : Method
  path : String
  host : Option String
  origin : Option String
  authorization : Option String
  contentType : Option String
  contentLength : Option String
  body : Option (List UInt8)

/-- The JSON texts that are sent. -/
inductive Content (N : ℕ) where
  | error (msg : String)
  | errors (errors : List Error)
  | health
  | plan (backends : List (String × Standing)) (clients : List String)
  | ok
  | session (id : String)
  | accepted
  | snapshot (snap : Option (Snap String N))
  | file (bytes : List UInt8)

/-- `close`: the connection is closed after it. -/
structure Answer (N : ℕ) where
  status : ℕ
  content : Content N
  close : Bool

def failure {N : ℕ} (status : ℕ) (msg : String) : Answer N := ⟨status, .error msg, true⟩

/-- What is sent when a `TimeoutError` is caught. -/
def busy {N : ℕ} : Answer N := failure 503 "bridge busy"

/-- `loads` is `schema.loads` of the decoded body, `files` what `_static` answers. -/
structure Access (N : ℕ) where
  port : ℕ
  token : String
  devOrigins : List String
  loads : List UInt8 → Except String Json
  files : String → Answer N

/-- What runs on the loop thread. -/
inductive Command where
  | applyDesired (desired : Canvas)
  | applyAction (act : Action)
  | resetSession
  | requestLbRestart

/-- What the handler does after its checks. `reply`: the answer is sent inside the `try`, where a
write that times out is caught. `silence`: it returns without an answer. `raise`: an exception
that it does not catch ends the thread. -/
inductive Job (N : ℕ) where
  | answer (a : Answer N)
  | reply (a : Answer N)
  | static (path : String)
  | state
  | stream
  | call (c : Command)
  | silence
  | raise

section Handler

variable {N : ℕ} (a : Access N) (req : Request)

def allowedHosts : List String :=
  ["127.0.0.1:" ++ toString a.port, "localhost:" ++ toString a.port]

def allowedOrigins : List String :=
  ["http://127.0.0.1:" ++ toString a.port, "http://localhost:" ++ toString a.port] ++ a.devOrigins

/-- The answer to a request that fails the check. -/
def hostOk : Option (Answer N) :=
  if req.host.any (· ∈ allowedHosts a) = false then some (failure 403 "bad Host")
  else if req.origin.any (· ∉ allowedOrigins a) then some (failure 403 "bad Origin")
  else none

def authOk : Option (Answer N) :=
  if req.authorization.getD "" = "Bearer " ++ a.token then none
  else some (failure 401 "missing or bad token")

/-- Whitespace of `str.strip`, among the characters of a header. -/
def isBlank (c : Char) : Bool := isSpace c || c.val = 0x85 || c.val = 0xa0

def strip (s : Text) : Text := ((s.dropWhile isBlank).reverse.dropWhile isBlank).reverse

def mediaType (header : String) : Text :=
  (strip (header.toList.takeWhile (· ≠ ';'))).map Char.toLower

/-- A body that does not come in time is left to the handler of `TimeoutError`. -/
def readJson : Except (Job N) Json :=
  if mediaType (req.contentType.getD "") ≠ "application/json".toList then
    .error (.reply (failure 415 "Content-Type must be application/json"))
  else
    match intWord (strip (req.contentLength.getD "").toList) with
    | none => .error (.reply (failure 411 "Content-Length required"))
    | some length =>
        if length < 0 ∨ maxBody < length then
          .error (.reply (failure 413 "body must be <= 65536 bytes"))
        else
          match req.body with
          | none => .error (.answer busy)
          | some bytes =>
              match a.loads bytes with
              | .error e => .error (.reply (failure 400 ("invalid JSON: " ++ e)))
              | .ok doc => .ok doc

/-- A body that is `null` is taken for one that was refused already. -/
def withJson (use : Json → Job N) : Job N :=
  match readJson a req with
  | .error refused => refused
  | .ok .null => .silence
  | .ok doc => use doc

def putDesired (doc : Json) : Job N :=
  match validateDesired doc with
  | .error errors => .answer ⟨422, .errors errors, false⟩
  | .ok desired => .call (.applyDesired desired)

def postAction (doc : Json) : Job N :=
  match validateAction doc with
  | .error (.validation errors) => .answer ⟨422, .errors errors, false⟩
  | .error .type => .raise
  | .ok act => .call (.applyAction act)

def endpoint : Job N :=
  if req.command = .get ∧ req.path = "/api/v1/health" then .reply ⟨200, .health, false⟩
  else if req.command = .get ∧ req.path = "/api/v1/state" then .state
  else if req.command = .get ∧ req.path = "/api/v1/stream" then .stream
  else if req.command = .put ∧ req.path = "/api/v1/desired" then withJson a req putDesired
  else if req.command = .post ∧ req.path = "/api/v1/actions" then withJson a req postAction
  else if req.command = .post ∧ req.path = "/api/v1/session/reset" then .call .resetSession
  else if req.command = .post ∧ req.path = "/api/v1/lb/restart" then .call .requestLbRestart
  else .reply (failure 404 "no such endpoint")

/-- The methods without a route of their own. -/
def Method.unrouted (m : Method) : Bool := m = .delete || m = .patch || m = .options

def route : Job N :=
  match hostOk a req with
  | some ans => .answer ans
  | none =>
      if req.command.unrouted then .answer (failure 405 "method not allowed")
      else if "/api/".toList.isPrefixOf req.path.toList = false then
        if req.command = .get ∨ req.command = .head then .static req.path
        else .answer (failure 405 "method not allowed")
      else
        match authOk a req with
        | some ans => .answer ans
        | none => endpoint a req

end Handler

/-! ### Trusted requests -/

section Trust

variable {N : ℕ} {a : Access N} {req : Request}

/-- The request names this server, comes from no other site and has the token. -/
def trusted (a : Access N) (req : Request) : Bool := (hostOk a req).isNone && (authOk a req).isNone

/-- The answer that the handler gives without the bridge. -/
def Job.ownAnswer (a : Access N) : Job N → Option (Answer N)
  | .answer ans | .reply ans => some ans
  | .static path => some (a.files path)
  | _ => none

/-- A request without host, origin and token as they should be is refused, or gets a file of the
static bundle. -/
theorem route_untrusted (h : trusted a req = false) :
    (∃ status msg, route a req = .answer (failure status msg) ∧ status ∈ [401, 403, 405]) ∨
      route a req = .static req.path := by
  rw [trusted, Bool.and_eq_false_iff] at h
  unfold route
  cases hhost : hostOk a req with
  | some ans =>
      refine .inl ?_
      unfold hostOk at hhost
      split at hhost
      · cases hhost
        exact ⟨403, "bad Host", rfl, by decide⟩
      · split at hhost
        · cases hhost
          exact ⟨403, "bad Origin", rfl, by decide⟩
        · cases hhost
  | none =>
      dsimp only
      split
      · exact .inl ⟨405, "method not allowed", rfl, by decide⟩
      · split
        · split
          · exact .inr rfl
          · exact .inl ⟨405, "method not allowed", rfl, by decide⟩
        · have hauth : (authOk a req).isNone = false := by simpa [hhost] using h
          refine .inl ⟨401, "missing or bad token", ?_, by decide⟩
          unfold authOk at hauth ⊢
          split at hauth
          · cases hauth
          · next hbad => rw [if_neg hbad]

theorem ownAnswer_of_untrusted (h : trusted a req = false) :
    ∃ ans, (route a req).ownAnswer a = some ans := by
  rcases route_untrusted h with ⟨status, msg, hroute, -⟩ | hroute
  · exact ⟨_, by rw [hroute]; rfl⟩
  · exact ⟨_, by rw [hroute]; rfl⟩

/-! ### Commands -/

/-- The command comes from a document that the schema accepts. -/
def Command.Valid : Command → Prop
  | .applyDesired desired => ∃ doc, validateDesired doc = .ok desired
  | .applyAction act => ∃ doc, validateAction doc = .ok act
  | .resetSession => True
  | .requestLbRestart => True

theorem readJson_error {c : Command} : readJson a req ≠ .error (.call c) := by
  unfold readJson
  repeat' split
  all_goals simp

theorem withJson_call {use : Json → Job N} {c : Command} (h : withJson a req use = .call c) :
    ∃ doc, use doc = .call c := by
  unfold withJson at h
  split at h
  · next hread =>
      rw [h] at hread
      exact absurd hread readJson_error
  · cases h
  · exact ⟨_, h⟩

theorem endpoint_valid {c : Command} (h : endpoint a req = .call c) : c.Valid := by
  unfold endpoint at h
  split_ifs at h
  · obtain ⟨doc, hdoc⟩ := withJson_call h
    unfold putDesired at hdoc
    split at hdoc
    · cases hdoc
    · next desired hvalid =>
        cases hdoc
        exact ⟨doc, hvalid⟩
  · obtain ⟨doc, hdoc⟩ := withJson_call h
    unfold postAction at hdoc
    split at hdoc
    · cases hdoc
    · cases hdoc
    · next act hvalid =>
        cases hdoc
        exact ⟨doc, hvalid⟩
  · cases h
    trivial
  · cases h
    trivial

theorem route_valid {c : Command} (h : route a req = .call c) : c.Valid := by
  unfold route at h
  split at h
  · cases h
  · split at h
    · cases h
    · split at h
      · split at h <;> cases h
      · split at h
        · cases h
        · exact endpoint_valid h

end Trust

end MaglevLb.HttpApi
