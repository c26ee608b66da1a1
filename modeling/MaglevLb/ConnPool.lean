import MaglevLb.ClientConn
import MaglevLb.IndexedLists
import MaglevLb.LoadClient
import Mathlib.Data.List.Infix

/-!
# The load generator's connection pool

A task keeps the pool: every tenth of a second it drops the connections that are gone,
retires those that are too old or too many, closes the retired ones that have no request
out, and connects until the pool is full. Requests go round-robin over the connections that
are there and not retired. So a connection is recycled without failing a request on it,
whatever happens between two rounds.
-/
namespace MaglevLb.ConnPool

open LineText ClientConn IndexedLists
open ServiceServer (truncate numeric numInt)
open Schema (Json)

/-- The task sleeps, or has so many connections still to make in this round. -/
inductive Maintainer where
  | asleep
  | connecting (left : ℕ)
  deriving DecidableEq

/-- Connections by number: every one there ever was, those in the pool, and those made for a
single request. `target` is the size that the last round read, and `closed` says which
connections the task closed, and how many requests had been sent on them then; these two are
for statements only. -/
structure Client where
  poolSize : ℤ
  maxConnAgeMs : ℤ
  conns : List Conn
  pool : List ℕ
  singles : List ℕ
  rr : ℕ
  nextId : ℕ
  openConns : ℤ
  maintainer : Maintainer
  target : ℤ
  closed : List (ℕ × ℕ)

def launch (poolSize maxConnAgeMs : ℤ) : Client where
  poolSize := poolSize
  maxConnAgeMs := maxConnAgeMs
  conns := []
  pool := []
  singles := []
  rr := 0
  nextId := 0
  openConns := 0
  maintainer := .asleep
  target := poolSize
  closed := []

/-- A property of connection `i`, which is there. -/
def is (f : Conn → Bool) (conns : List Conn) (i : ℕ) : Bool := conns[i]?.any f

/-- One connection changes. -/
def on (f : Conn → Conn) (i : ℕ) (c : Client) : Client := { c with conns := c.conns.modify i f }

/-- `for c in l` -/
def forEach (f : Conn → Conn) (l : List ℕ) (conns : List Conn) : List Conn :=
  l.foldl (fun conns i => conns.modify i f) conns

/-! ### Requests -/

def live (c : Client) : List ℕ := c.pool.filter (is (fun k => k.alive && !k.retiring) c.conns)

def pickConn (c : Client) : Option ℕ × Client :=
  match live c with
  | [] => (none, c)
  | i :: l =>
      let rr := (c.rr + 1) % (i :: l).length
      ((i :: l)[rr]?, { c with rr := rr })

/-- The id of the next request. -/
def reqId (c : Client) : String := String.ofList (natText (c.nextId + 1))

/-- `_attempt_pooled` up to its wait for the reply: nothing comes between the choice of the
connection and the request. -/
def attemptPooled (c : Client) : Client :=
  match pickConn c with
  | (none, c) => c
  | (some i, c) => on (Conn.send (reqId c) false) i { c with nextId := c.nextId + 1 }

/-- `_attempt_per_request` when its connection is made. -/
def dial (nowMs : ℚ) (c : Client) : Client :=
  { c with
    conns := c.conns ++ [.made nowMs]
    singles := c.singles ++ [c.conns.length]
    openConns := c.openConns + 1 }

/-- `_attempt_per_request` sends its request, under the id it has taken before. -/
def attemptSingle (i : ℕ) (id : String) (c : Client) : Client :=
  if i ∈ c.singles then on (Conn.send id true) i c else c

/-! ### The task that keeps the pool -/

/-- `l[n:]` -/
def dropFrom (n : ℤ) (l : List ℕ) : List ℕ :=
  if 0 ≤ n then l.drop n.toNat else l.drop (l.length - n.natAbs)

def aged (maxConnAgeMs : ℤ) (nowMs : ℚ) (k : Conn) : Bool :=
  0 < maxConnAgeMs && (maxConnAgeMs : ℚ) < nowMs - k.openedMs

def retireAged (maxConnAgeMs : ℤ) (nowMs : ℚ) (k : Conn) : Conn :=
  if aged maxConnAgeMs nowMs k then { k with retiring := true } else k

def retire (k : Conn) : Conn := { k with retiring := true }

/-- A retired connection that waits for no reply. -/
def idle (k : Conn) : Bool := k.retiring && k.book.pending.entries.isEmpty

def closeIdle (k : Conn) : Conn := if idle k then k.closeTransport else k

/-- Connections of the pool that are not retired. -/
def active (conns : List Conn) (pool : List ℕ) : List ℕ :=
  pool.filter (is (fun k => !k.retiring) conns)

/-- Those in the pool that are retired now. -/
def retireRound (nowMs : ℚ) (c : Client) (pool : List ℕ) : List Conn :=
  let conns := forEach (retireAged c.maxConnAgeMs nowMs) (active c.conns pool) c.conns
  forEach retire (dropFrom c.poolSize (active conns pool)) conns

/-- How many requests had been sent on a connection. -/
def asked (conns : List Conn) (i : ℕ) : ℕ := (conns[i]?.map fun k => k.book.asks.length).getD 0

/-- A round up to its first connection, or to its end. -/
def tick (nowMs : ℚ) (c : Client) : Client :=
  let pool := c.pool.filter (is Conn.alive c.conns)
  let conns := retireRound nowMs c pool
  let want := c.poolSize - (active conns pool).length
  { c with
    pool := pool
    conns := forEach closeIdle pool conns
    maintainer := if 0 < want then .connecting want.toNat else .asleep
    target := c.poolSize
    closed := c.closed ++ (pool.filter (is idle conns)).map fun i => (i, asked conns i) }

/-- A connection of the round is made. -/
def connected (nowMs : ℚ) (c : Client) : Client :=
  match c.maintainer with
  | .connecting (left + 1) =>
      { c with
        conns := c.conns ++ [.made nowMs]
        pool := c.pool ++ [c.conns.length]
        openConns := c.openConns + 1
        maintainer := if left = 0 then .asleep else .connecting left }
  | _ => c

inductive Event where
  | tick (nowMs : ℚ)
  | connected (nowMs : ℚ)
  | connectFailed
  | attemptPooled
  | dial (nowMs : ℚ)
  | attemptSingle (i : ℕ) (id : String)
  | takeId
  | data (i : ℕ) (bytes : List UInt8)
  | cancel (i k : ℕ)
  | forget (i : ℕ) (id : String)
  | abort (i : ℕ)
  | lost (i : ℕ)
  | config (cmd : List (String × Json))

/-- `conn.pending.pop(req_id, None)` -/
def forget (id : String) (k : Conn) : Conn :=
  { k with book := { k.book with pending := k.book.pending.erase id } }

/-- `poolSize` and `maxConnAgeMs` of a `config` command. -/
def config (cmd : List (String × Json)) (c : Client) : Client :=
  { c with
    poolSize := numInt cmd "poolSize" 0 64 c.poolSize
    maxConnAgeMs :=
      match (numeric cmd "maxConnAgeMs" 0 60000).map truncate with
      | some age => if age = 0 ∨ 1000 ≤ age then age else c.maxConnAgeMs
      | none => c.maxConnAgeMs }

def step (c : Client) : Event → Client
  | .tick nowMs => if c.maintainer = .asleep then tick nowMs c else c
  | .connected nowMs => connected nowMs c
  | .connectFailed => { c with maintainer := .asleep }
  | .attemptPooled => attemptPooled c
  | .dial nowMs => dial nowMs c
  | .attemptSingle i id => attemptSingle i id c
  | .takeId => { c with nextId := c.nextId + 1 }
  | .data i bytes => on (Conn.dataReceived bytes) i c
  | .cancel i k => on (fun conn => { conn with book := conn.book.cancel k }) i c
  | .forget i id => on (forget id) i c
  | .abort i => if i ∈ c.singles then on Conn.closeTransport i c else c
  | .lost i =>
      if is Conn.alive c.conns i then
        { on Conn.connectionLost i c with openConns := c.openConns - 1 }
      else c
  | .config cmd => config cmd c

def run (c : Client) (es : List Event) : Client := EventRun.run step c es

/-! ### Connections -/

section Conns

variable {f : Conn → Conn} {conns : List Conn} {i : ℕ} {k : Conn}

/-- No request on the connection has failed with it. -/
def Uncrashed (b : Book) : Prop := ∀ a ∈ b.asks, a.future ≠ .crashed

/-- A connection after the task has closed it: no reply is awaited on it, and no request was
sent on it since. -/
structure Parted (n : ℕ) (k : Conn) : Prop where
  retiring : k.retiring = true
  isOpen : k.isOpen = false
  pending : k.book.pending.entries = []
  asked : k.book.asks.length = n
  uncrashed : Uncrashed k.book

/-- What can happen to a connection that has been closed, its loss apart. -/
structure Gentle (f : Conn → Conn) : Prop where
  alive : ∀ k, (f k).alive = k.alive
  uncrashed : ∀ k, Uncrashed k.book → Uncrashed (f k).book
  parted : ∀ n k, Parted n k → Parted n (f k)

theorem uncrashed_settle {g : Future} (hg : g ≠ .crashed) {b : Book} (h : Uncrashed b) (j : ℕ)
    (pending : OrderedDict.Dict String ℕ) : Uncrashed ⟨pending, settle g j b.asks⟩ := by
  intro a ha
  obtain ⟨m, hm⟩ := List.getElem?_of_mem ha
  rcases of_getElem?_settle hm with hold | ⟨-, hnew, -⟩
  · exact h a (List.mem_of_getElem? hold)
  · rw [hnew]
    exact hg

theorem uncrashed_onLine {b : Book} (h : Uncrashed b) (line : List UInt8) :
    Uncrashed (b.onLine line) := by
  unfold Book.onLine
  split
  · split
    · dsimp only
      split
      · exact uncrashed_settle (by rintro ⟨⟩) h _ _
      · exact h
    · exact h
  · exact h

theorem length_settle (g : Future) (j : ℕ) (asks : List Ask) :
    (settle g j asks).length = asks.length :=
  List.length_modify _ _ _

theorem gentle_dataReceived (bytes : List UInt8) : Gentle (Conn.dataReceived bytes) where
  alive _ := rfl
  uncrashed k h := (LineReader.feed_invariant (P := Uncrashed) (Q := fun _ => True)
    (fun line b _ hb => uncrashed_onLine hb line) (fun _ _ => trivial) (fun _ _ => trivial) h).1
  parted n k h := by
    have hsame : k.dataReceived bytes = k := by
      have hclosed : ¬k.isOpen = true := by simp [h.isOpen]
      unfold Conn.dataReceived LineReader.feed
      dsimp only
      rw [if_neg hclosed]
    rwa [hsame]

theorem gentle_cancel (j : ℕ) : Gentle fun k => { k with book := k.book.cancel j } where
  alive _ := rfl
  uncrashed k h := uncrashed_settle (by rintro ⟨⟩) h j _
  parted n k h := ⟨h.retiring, h.isOpen, h.pending, (length_settle _ _ _).trans h.asked,
    uncrashed_settle (by rintro ⟨⟩) h.uncrashed j _⟩

theorem gentle_forget (id : String) : Gentle (forget id) where
  alive _ := rfl
  uncrashed _ h := h
  parted n k h := by
    refine ⟨h.retiring, h.isOpen, ?_, h.asked, h.uncrashed⟩
    simp [forget, OrderedDict.Dict.erase, h.pending]

theorem gentle_closeTransport : Gentle Conn.closeTransport where
  alive _ := rfl
  uncrashed _ h := h
  parted _ _ h := ⟨h.retiring, rfl, h.pending, h.asked, h.uncrashed⟩

theorem gentle_retire : Gentle retire where
  alive _ := rfl
  uncrashed _ h := h
  parted _ _ h := ⟨rfl, h.isOpen, h.pending, h.asked, h.uncrashed⟩

theorem gentle_retireAged (maxConnAgeMs : ℤ) (nowMs : ℚ) :
    Gentle (retireAged maxConnAgeMs nowMs) where
  alive k := by
    unfold retireAged
    split <;> rfl
  uncrashed k h := by
    unfold retireAged
    split <;> exact h
  parted n k h := by
    unfold retireAged
    split
    · exact gentle_retire.parted n k h
    · exact h

theorem gentle_closeIdle : Gentle closeIdle where
  alive k := by
    unfold closeIdle
    split <;> rfl
  uncrashed k h := by
    unfold closeIdle
    split <;> exact h
  parted n k h := by
    unfold closeIdle
    split
    · exact gentle_closeTransport.parted n k h
    · exact h

theorem retiring_closeIdle (k : Conn) : (closeIdle k).retiring = k.retiring := by
  unfold closeIdle
  split <;> rfl

theorem Parted.connectionLost {n : ℕ} (h : Parted n k) : Parted n k.connectionLost := by
  have hsame : k.book.crash.asks = k.book.asks := by
    rw [Book.crash, h.pending]
    rfl
  refine ⟨h.retiring, rfl, rfl, ?_, ?_⟩
  · exact (congrArg List.length hsame).trans h.asked
  · intro a ha
    exact h.uncrashed a (hsame ▸ ha)

theorem uncrashed_send {b : Book} (h : Uncrashed b) (id : String) (close : Bool) :
    Uncrashed (b.send id close) := by
  intro a ha
  rcases List.mem_append.mp ha with hold | hlast
  · exact h a hold
  · rw [List.mem_singleton.mp hlast]
    rintro ⟨⟩

/-- A loop over connections does to each of them what it does once, some number of times. -/
theorem getElem?_forEach (f : Conn → Conn) (l : List ℕ) (conns : List Conn) (i : ℕ) :
    (forEach f l conns)[i]? = conns[i]?.map f^[l.count i] := by
  induction l generalizing conns with
  | nil => simp [forEach]
  | cons j l ih =>
      have hnext : forEach f (j :: l) conns = forEach f l (conns.modify j f) := rfl
      rw [hnext, ih, List.getElem?_modify]
      by_cases hji : j = i
      · rw [hji, List.count_cons_self]
        cases conns[i]? with
        | none => rfl
        | some k => simp
      · rw [List.count_cons_of_ne hji]
        cases conns[i]? <;> simp [hji]

theorem iterate_invariant {P : Conn → Prop} (hf : ∀ k, P k → P (f k)) (h : P k) (n : ℕ) :
    P (f^[n] k) := by
  induction n generalizing k with
  | zero => exact h
  | succ n ih => exact ih (hf k h)

theorem is_forEach {g : Conn → Bool} (hg : ∀ k, g (f k) = g k) (l : List ℕ) (conns : List Conn) :
    is g (forEach f l conns) = is g conns := by
  funext i
  rw [is, getElem?_forEach, is]
  cases conns[i]? with
  | none => rfl
  | some k =>
      exact iterate_invariant (P := fun k' => g k' = g k) (fun k' h => (hg k').trans h) rfl _

theorem getElem?_forEach_of_notMem {l : List ℕ} (h : i ∉ l) (conns : List Conn) :
    (forEach f l conns)[i]? = conns[i]? := by
  rw [getElem?_forEach, List.count_eq_zero_of_not_mem h]
  exact congrFun Option.map_id _

theorem length_forEach (f : Conn → Conn) (l : List ℕ) (conns : List Conn) :
    (forEach f l conns).length = conns.length := by
  induction l generalizing conns with
  | nil => rfl
  | cons j l ih => exact (ih _).trans (List.length_modify _ _ _)

theorem countP_forEach {g : Conn → Bool} (hg : ∀ k, g (f k) = g k) (l : List ℕ)
    (conns : List Conn) : (forEach f l conns).countP g = conns.countP g := by
  have hmap : (forEach f l conns).map g = conns.map g := by
    refine List.ext_getElem? fun i => ?_
    rw [List.getElem?_map, List.getElem?_map, getElem?_forEach]
    cases conns[i]? with
    | none => rfl
    | some k =>
        exact congrArg some
          (iterate_invariant (P := fun k' => g k' = g k) (fun k' h => (hg k').trans h) rfl _)
  have hcount : ∀ l : List Conn, l.countP g = (l.map g).countP id := fun l => by
    rw [List.countP_map]
    rfl
  rw [hcount, hmap, ← hcount]

end Conns

/-! ### The whole client -/

/-- What every connection is like, given which of them the task has closed. -/
structure Kept (closed : List (ℕ × ℕ)) (conns : List Conn) : Prop where
  uncrashed : ∀ {i : ℕ} {k : Conn}, conns[i]? = some k → k.alive = true → Uncrashed k.book
  parted : ∀ {i n : ℕ}, (i, n) ∈ closed → ∃ k, conns[i]? = some k ∧ Parted n k

section Kept

variable {closed : List (ℕ × ℕ)} {conns : List Conn} {f : Conn → Conn}

/-- A loop that does nothing to a closed connection but what is gentle. -/
theorem Kept.forEach (h : Kept closed conns) {l : List ℕ} (halive : ∀ k, (f k).alive = k.alive)
    (huncrashed : ∀ k, Uncrashed k.book → Uncrashed (f k).book)
    (hparted : ∀ i ∈ l, ∀ n, (i, n) ∈ closed → ∀ k, Parted n k → Parted n (f k)) :
    Kept closed (forEach f l conns) := by
  refine ⟨fun {i k} hk hthere => ?_, fun {i n} hin => ?_⟩
  · rw [getElem?_forEach] at hk
    obtain ⟨k₀, hk₀, rfl⟩ := Option.map_eq_some_iff.mp hk
    have hsame : ((f^[l.count i]) k₀).alive = k₀.alive :=
      iterate_invariant (P := fun k => k.alive = k₀.alive) (fun k h => (halive k).trans h) rfl _
    exact iterate_invariant (P := fun k => Uncrashed k.book) huncrashed
      (h.uncrashed hk₀ (hsame ▸ hthere)) _
  · obtain ⟨k, hk, hpart⟩ := h.parted hin
    rw [getElem?_forEach, hk]
    refine ⟨_, rfl, ?_⟩
    by_cases hi : i ∈ l
    · exact iterate_invariant (hparted i hi n hin) hpart _
    · rw [List.count_eq_zero_of_not_mem hi]
      exact hpart

theorem Kept.gentle (h : Kept closed conns) (hf : Gentle f) (l : List ℕ) :
    Kept closed (ConnPool.forEach f l conns) :=
  h.forEach hf.alive hf.uncrashed fun _ _ n _ k => hf.parted n k

theorem Kept.append (h : Kept closed conns) {k : Conn} (hk : Uncrashed k.book) :
    Kept closed (conns ++ [k]) := by
  refine ⟨fun {i k'} hk' hthere => ?_, fun {i n} hin => ?_⟩
  · rw [List.getElem?_append] at hk'
    split at hk'
    · exact h.uncrashed hk' hthere
    · rw [List.getElem?_singleton] at hk'
      split at hk'
      · cases hk'
        exact hk
      · cases hk'
  · obtain ⟨k', hk', hpart⟩ := h.parted hin
    obtain ⟨hlt, -⟩ := List.getElem?_eq_some_iff.mp hk'
    exact ⟨k', (List.getElem?_append_left hlt).trans hk', hpart⟩

theorem Kept.lost (h : Kept closed conns) (i : ℕ) :
    Kept closed (conns.modify i Conn.connectionLost) := by
  refine ⟨fun {j k} hk hthere => ?_, fun {j n} hin => ?_⟩
  · rw [List.getElem?_modify] at hk
    obtain ⟨k₀, hk₀, heq⟩ := Option.map_eq_some_iff.mp hk
    split at heq
    · cases heq
      cases hthere
    · cases heq
      exact h.uncrashed hk₀ hthere
  · obtain ⟨k, hk, hpart⟩ := h.parted hin
    rw [List.getElem?_modify, hk]
    refine ⟨_, rfl, ?_⟩
    split
    · exact hpart.connectionLost
    · exact hpart

end Kept

def left : Maintainer → ℕ
  | .asleep => 0
  | .connecting n => n

structure Orderly (c : Client) : Prop where
  kept : Kept c.closed c.conns
  pool : ∀ i ∈ c.pool, i < c.conns.length
  singles : ∀ i ∈ c.singles, i < c.conns.length ∧ i ∉ c.pool ∧ is Conn.retiring c.conns i = false
  size : 0 ≤ c.poolSize
  room : ((active c.conns c.pool).length + left c.maintainer : ℤ) ≤ c.target
  counted : c.openConns = c.conns.countP Conn.alive

section Orderly

variable {c : Client} {f : Conn → Conn} {i : ℕ}

/-- A connection that is not retired has not been closed. -/
theorem Kept.not_closed {closed : List (ℕ × ℕ)} {conns : List Conn} (h : Kept closed conns)
    (hi : is Conn.retiring conns i = false) (n : ℕ) : (i, n) ∉ closed := by
  intro hin
  obtain ⟨k, hk, hpart⟩ := h.parted hin
  rw [is, hk] at hi
  exact absurd hpart.retiring (by simpa using hi)

/-- Something happens to one connection, which keeps what the pool goes by. -/
theorem Orderly.on (h : Orderly c) (halive : ∀ k, (f k).alive = k.alive)
    (hretiring : ∀ k, (f k).retiring = k.retiring)
    (huncrashed : ∀ k, Uncrashed k.book → Uncrashed (f k).book)
    (hparted : ∀ n, (i, n) ∈ c.closed → ∀ k, Parted n k → Parted n (f k)) :
    Orderly (on f i c) := by
  have hconns : (ConnPool.on f i c).conns = forEach f [i] c.conns := rfl
  have hlength := length_forEach f [i] c.conns
  refine ⟨?_, ?_, ?_, h.size, ?_, ?_⟩
  · rw [hconns]
    refine h.kept.forEach halive huncrashed fun j hj n hin => ?_
    cases List.mem_singleton.mp hj
    exact hparted n hin
  · intro j hj
    rw [hconns, hlength]
    exact h.pool j hj
  · intro j hj
    rw [hconns, hlength, is_forEach hretiring]
    exact h.singles j hj
  · rw [hconns, active, is_forEach (g := fun k => !k.retiring) fun k => by rw [hretiring]]
    exact h.room
  · rw [hconns, countP_forEach halive]
    exact h.counted

theorem Orderly.gentle (h : Orderly c) (hf : Gentle f)
    (hretiring : ∀ k, (f k).retiring = k.retiring) (i : ℕ) : Orderly (ConnPool.on f i c) :=
  h.on hf.alive hretiring hf.uncrashed fun n _ k => hf.parted n k

/-- A request is sent only on a connection that is not retired. -/
theorem Orderly.send (h : Orderly c) (hi : is Conn.retiring c.conns i = false) (id : String)
    (close : Bool) : Orderly (ConnPool.on (Conn.send id close) i c) :=
  h.on (fun _ => rfl) (fun _ => rfl) (fun _ hk => uncrashed_send hk id close)
    fun n hin => absurd hin (h.kept.not_closed hi n)

theorem is_append {g : Conn → Bool} {conns : List Conn} (hi : i < conns.length) (k : Conn) :
    is g (conns ++ [k]) i = is g conns i := by
  rw [is, List.getElem?_append_left hi, is]

theorem active_append {conns : List Conn} {pool : List ℕ} (h : ∀ i ∈ pool, i < conns.length)
    (k : Conn) : active (conns ++ [k]) pool = active conns pool :=
  List.filter_congr fun i hi => is_append (h i hi) k

theorem uncrashed_made (nowMs : ℚ) : Uncrashed (Conn.made nowMs).book := List.forall_mem_nil _

theorem counted_append (conns : List Conn) (nowMs : ℚ) :
    ((conns ++ [Conn.made nowMs]).countP Conn.alive : ℤ) = conns.countP Conn.alive + 1 := by
  rw [List.countP_append]
  rfl

theorem Orderly.dial (h : Orderly c) (nowMs : ℚ) : Orderly (dial nowMs c) := by
  refine ⟨h.kept.append (uncrashed_made nowMs), fun i hi => ?_, fun i hi => ?_, h.size, ?_, ?_⟩
  · exact lt_of_lt_of_le (h.pool i hi) (by simp [ConnPool.dial])
  · rcases List.mem_append.mp hi with hold | hlast
    · obtain ⟨hlt, hout, hkeep⟩ := h.singles i hold
      refine ⟨lt_of_lt_of_le hlt (by simp [ConnPool.dial]), hout, ?_⟩
      exact (is_append hlt _).trans hkeep
    · rw [List.mem_singleton.mp hlast]
      refine ⟨by simp [ConnPool.dial], fun hin => absurd (h.pool _ hin) (lt_irrefl _), ?_⟩
      simp [ConnPool.dial, is, Conn.made]
  · rw [ConnPool.dial]
    dsimp only
    rw [active_append h.pool]
    exact h.room
  · rw [ConnPool.dial]
    dsimp only
    rw [counted_append, h.counted]

theorem Orderly.connected (h : Orderly c) (nowMs : ℚ) : Orderly (connected nowMs c) := by
  unfold ConnPool.connected
  split
  · next n hn =>
      have hroom := h.room
      rw [hn, left] at hroom
      refine ⟨h.kept.append (uncrashed_made nowMs), fun i hi => ?_, fun i hi => ?_, h.size, ?_, ?_⟩
      · rcases List.mem_append.mp hi with hold | hlast
        · exact lt_of_lt_of_le (h.pool i hold) (by simp)
        · rw [List.mem_singleton.mp hlast]
          simp
      · obtain ⟨hlt, hout, hkeep⟩ := h.singles i hi
        refine ⟨lt_of_lt_of_le hlt (by simp), fun hin => ?_, (is_append hlt _).trans hkeep⟩
        rcases List.mem_append.mp hin with hold | hlast
        · exact hout hold
        · exact absurd (List.mem_singleton.mp hlast) (Nat.ne_of_lt hlt)
      · have hlength : (active (c.conns ++ [Conn.made nowMs]) (c.pool ++ [c.conns.length])).length =
            (active c.conns c.pool).length + 1 := by
          rw [active, List.filter_append, List.length_append, ← active, active_append h.pool]
          simp [is, Conn.made]
        have hleft : left (if n = 0 then .asleep else .connecting n) = n := by
          split
          · next hzero => exact hzero.symm
          · rfl
        dsimp only
        rw [hlength, hleft]
        push_cast at hroom ⊢
        omega
      · dsimp only
        rw [counted_append, h.counted]
  · exact h

theorem Orderly.lost (h : Orderly c) (hi : is Conn.alive c.conns i = true) :
    Orderly { ConnPool.on Conn.connectionLost i c with openConns := c.openConns - 1 } := by
  have hconns : (ConnPool.on Conn.connectionLost i c).conns =
      forEach Conn.connectionLost [i] c.conns := rfl
  have hlength := length_forEach Conn.connectionLost [i] c.conns
  refine ⟨h.kept.lost i, ?_, ?_, h.size, ?_, ?_⟩
  · intro j hj
    dsimp only
    rw [hconns, hlength]
    exact h.pool j hj
  · intro j hj
    dsimp only
    rw [hconns, hlength, is_forEach (f := Conn.connectionLost) fun _ => rfl]
    exact h.singles j hj
  · dsimp only
    rw [hconns, active, is_forEach (f := Conn.connectionLost) fun _ => rfl]
    exact h.room
  · obtain ⟨k, hk, hthere⟩ := Option.any_eq_true _ _ |>.mp hi
    obtain ⟨hlt, -⟩ := List.getElem?_eq_some_iff.mp hk
    obtain ⟨l₁, k', l₂, heq, hlen, hmodify⟩ := List.exists_of_modify Conn.connectionLost hlt
    have hsame : k' = k := by
      rw [heq, List.getElem?_append_right hlen.le, hlen, Nat.sub_self] at hk
      exact Option.some.inj hk
    have hcounted := h.counted
    rw [heq, hsame, List.countP_append, List.countP_cons_of_pos hthere] at hcounted
    have hgone : (Conn.connectionLost k).alive = false := rfl
    rw [ConnPool.on]
    dsimp only
    rw [hmodify, hsame, List.countP_append, List.countP_cons_of_neg (by simp [hgone])]
    push_cast at hcounted ⊢
    omega

/-! ### A round of the task -/

section Round

variable {pool : List ℕ} {conns : List Conn}

theorem active_retire (l pool : List ℕ) (conns : List Conn) :
    active (forEach retire l conns) pool = (active conns pool).filter fun i => i ∉ l := by
  unfold active
  rw [List.filter_filter]
  refine List.filter_congr fun i _ => ?_
  rw [is, getElem?_forEach, is]
  cases conns[i]? with
  | none => simp
  | some k =>
      by_cases hi : i ∈ l
      · obtain ⟨n, hn⟩ := Nat.exists_eq_add_one_of_ne_zero (List.count_pos_iff.mpr hi).ne'
        have hretired : (retire^[n + 1] k).retiring = true :=
          iterate_invariant (P := fun k => k.retiring = true) (fun _ _ => rfl) rfl n
        simp [hn, hretired, hi, -Function.iterate_succ]
      · simp [hi, List.count_eq_zero_of_not_mem hi]

theorem length_active_trim {n : ℤ} (hn : 0 ≤ n) (l : List ℕ) :
    ((l.filter fun i => i ∉ dropFrom n l).length : ℤ) ≤ n := by
  rw [dropFrom, if_pos hn]
  let kept : ℕ → Bool := fun i => i ∉ l.drop n.toNat
  have hnone : (l.drop n.toNat).filter kept = [] :=
    List.filter_eq_nil_iff.mpr fun i hi => by simpa [kept] using hi
  have hsplit : l.filter kept = (l.take n.toNat).filter kept := by
    conv_lhs => rw [← List.take_append_drop n.toNat l, List.filter_append, hnone, List.append_nil]
  have hlength : (l.filter kept).length ≤ n.toNat := by
    rw [hsplit]
    exact (List.length_filter_le _ _).trans (List.length_take_le _ _)
  change ((l.filter kept).length : ℤ) ≤ n
  omega

/-- The task leaves no more connections than it read that there should be. -/
theorem length_active_retireRound (hsize : 0 ≤ c.poolSize) (nowMs : ℚ) (pool : List ℕ) :
    ((active (retireRound nowMs c pool) pool).length : ℤ) ≤ c.poolSize := by
  rw [retireRound, active_retire]
  exact length_active_trim hsize _

theorem mem_active {i : ℕ} (h : i ∈ active conns pool) : i ∈ pool := (List.mem_filter.mp h).1

theorem mem_dropFrom {n : ℤ} {l : List ℕ} {i : ℕ} (h : i ∈ dropFrom n l) : i ∈ l := by
  unfold dropFrom at h
  split at h <;> exact List.mem_of_mem_drop h

/-- A round does nothing to a connection that is not in the pool. -/
theorem getElem?_retireRound {i : ℕ} (h : i ∉ pool) (nowMs : ℚ) (c : Client) :
    (retireRound nowMs c pool)[i]? = c.conns[i]? := by
  unfold retireRound
  rw [getElem?_forEach_of_notMem fun hi => h (mem_active (mem_dropFrom hi)),
    getElem?_forEach_of_notMem fun hi => h (mem_active hi)]

theorem Kept.retireRound (h : Kept c.closed c.conns) (nowMs : ℚ) (pool : List ℕ) :
    Kept c.closed (retireRound nowMs c pool) :=
  (h.gentle (gentle_retireAged _ _) _).gentle gentle_retire _

theorem alive_retireRound (nowMs : ℚ) (c : Client) (pool : List ℕ) :
    is Conn.alive (ConnPool.retireRound nowMs c pool) = is Conn.alive c.conns := by
  unfold ConnPool.retireRound
  rw [is_forEach gentle_retire.alive, is_forEach (gentle_retireAged _ _).alive]

theorem closeIdle_iterate {k : Conn} (h : idle k = true) (n : ℕ) :
    closeIdle^[n + 1] k = { k with isOpen := false } := by
  have hfix : closeIdle { k with isOpen := false } = { k with isOpen := false } := by
    unfold closeIdle
    split <;> rfl
  have hfirst : closeIdle k = { k with isOpen := false } := by
    rw [closeIdle, if_pos h]
    rfl
  rw [Function.iterate_succ_apply, hfirst]
  exact Function.iterate_fixed hfix n

/-- What the task closes in a round: retired, with no reply awaited, and not failed. -/
theorem parted_closeIdle (h : Kept c.closed conns)
    (hthere : ∀ i ∈ pool, is Conn.alive conns i = true) {i : ℕ} (hi : i ∈ pool)
    (hidle : is idle conns i = true) :
    ∃ k, (forEach closeIdle pool conns)[i]? = some k ∧ Parted (asked conns i) k := by
  obtain ⟨k, hk, hkidle⟩ := (Option.any_eq_true _ _).mp hidle
  have halive : k.alive = true := by
    have := hthere i hi
    rwa [is, hk] at this
  obtain ⟨n, hn⟩ := Nat.exists_eq_add_one_of_ne_zero (List.count_pos_iff.mpr hi).ne'
  refine ⟨{ k with isOpen := false }, ?_, ?_⟩
  · rw [getElem?_forEach, hk, hn, Option.map_some, closeIdle_iterate hkidle]
  · rw [idle, Bool.and_eq_true, List.isEmpty_iff] at hkidle
    have huncrashed : Uncrashed k.book := h.uncrashed hk halive
    refine ⟨hkidle.1, rfl, hkidle.2, ?_, huncrashed⟩
    rw [asked, hk]
    rfl

theorem Orderly.tick (h : Orderly c) (nowMs : ℚ) : Orderly (tick nowMs c) := by
  let pool := c.pool.filter (is Conn.alive c.conns)
  let conns := ConnPool.retireRound nowMs c pool
  have hsub : ∀ i ∈ pool, i ∈ c.pool := fun i hi => (List.mem_filter.mp hi).1
  have hthere : ∀ i ∈ pool, is Conn.alive conns i = true := fun i hi => by
    rw [alive_retireRound]
    exact (List.mem_filter.mp hi).2
  have hlength : (forEach closeIdle pool conns).length = c.conns.length := by
    simp only [conns, ConnPool.retireRound, length_forEach]
  have hkept := h.kept.retireRound nowMs pool
  have hactive : active (forEach closeIdle pool conns) pool = active conns pool := by
    rw [active, is_forEach (g := fun k => !k.retiring) fun k => by rw [retiring_closeIdle]]
    rfl
  refine ⟨⟨(hkept.gentle gentle_closeIdle pool).uncrashed, fun {i n} hin => ?_⟩, fun i hi => ?_,
    fun i hi => ?_, h.size, ?_, ?_⟩
  · rcases List.mem_append.mp hin with hold | hnew
    · exact (hkept.gentle gentle_closeIdle pool).parted hold
    · obtain ⟨j, hj, heq⟩ := List.mem_map.mp hnew
      cases heq
      obtain ⟨hjpool, hidle⟩ := List.mem_filter.mp hj
      exact parted_closeIdle hkept hthere hjpool hidle
  · exact hlength ▸ h.pool i (hsub i hi)
  · obtain ⟨hlt, hout, hkeep⟩ := h.singles i hi
    have hout' : i ∉ pool := fun hin => hout (hsub i hin)
    refine ⟨hlength ▸ hlt, hout', ?_⟩
    rw [is] at hkeep ⊢
    refine Eq.trans ?_ hkeep
    exact congrArg _ ((getElem?_forEach_of_notMem hout' conns).trans
      (getElem?_retireRound hout' nowMs c))
  · have hle : ((active conns pool).length : ℤ) ≤ c.poolSize :=
      length_active_retireRound h.size nowMs pool
    change ((active (forEach closeIdle pool conns) pool).length + left
      (if 0 < c.poolSize - (active conns pool).length then
        .connecting (c.poolSize - (active conns pool).length).toNat else .asleep) : ℤ) ≤ c.poolSize
    rw [hactive]
    split
    · rw [left]
      omega
    · rw [left]
      omega
  · have hcount : (forEach closeIdle pool conns).countP Conn.alive = c.conns.countP Conn.alive := by
      rw [countP_forEach gentle_closeIdle.alive]
      simp only [conns, ConnPool.retireRound]
      rw [countP_forEach gentle_retire.alive, countP_forEach (gentle_retireAged _ _).alive]
    rw [ConnPool.tick]
    dsimp only
    rw [hcount]
    exact h.counted

end Round

/-! ### Runs -/

theorem pickConn_cases (c : Client) : pickConn c = (none, c) ∨ ∃ i rr, i ∈ live c ∧
    pickConn c = (some i, { c with rr := rr }) := by
  unfold pickConn
  split
  · exact .inl rfl
  · next i l hlive =>
      have hlt : (c.rr + 1) % (i :: l).length < (i :: l).length := Nat.mod_lt _ (by simp)
      refine .inr ⟨_, _, ?_, Prod.ext (List.getElem?_eq_getElem hlt) rfl⟩
      rw [hlive]
      exact List.getElem_mem hlt

theorem Orderly.attemptPooled (h : Orderly c) : Orderly (attemptPooled c) := by
  unfold ConnPool.attemptPooled
  rcases pickConn_cases c with hnone | ⟨i, rr, hi, hsome⟩
  · rw [hnone]
    exact h
  · rw [hsome]
    obtain ⟨-, hlive⟩ := List.mem_filter.mp hi
    obtain ⟨k, hk, hkeep⟩ := (Option.any_eq_true _ _).mp hlive
    have hretiring : is Conn.retiring c.conns i = false := by
      rw [is, hk]
      simpa using (Bool.and_eq_true_iff.mp hkeep).2
    have hnext : Orderly { c with rr := rr, nextId := c.nextId + 1 } :=
      ⟨h.kept, h.pool, h.singles, h.size, h.room, h.counted⟩
    exact hnext.send hretiring _ false

theorem orderly_step (h : Orderly c) (e : Event) : Orderly (step c e) := by
  cases e with
  | tick nowMs =>
      rw [step]
      split
      · exact h.tick nowMs
      · exact h
  | connected nowMs => exact h.connected nowMs
  | connectFailed =>
      refine ⟨h.kept, h.pool, h.singles, h.size, ?_, h.counted⟩
      have hroom := h.room
      rw [step]
      dsimp only
      rw [left]
      push_cast
      omega
  | attemptPooled => exact h.attemptPooled
  | dial nowMs => exact h.dial nowMs
  | attemptSingle i id =>
      rw [step, attemptSingle]
      split
      · next hi => exact h.send (h.singles i hi).2.2 id true
      · exact h
  | takeId => exact ⟨h.kept, h.pool, h.singles, h.size, h.room, h.counted⟩
  | data i bytes => exact h.gentle (gentle_dataReceived bytes) (fun _ => rfl) i
  | cancel i k => exact h.gentle (gentle_cancel k) (fun _ => rfl) i
  | forget i id => exact h.gentle (gentle_forget id) (fun _ => rfl) i
  | abort i =>
      rw [step]
      split
      · exact h.gentle gentle_closeTransport (fun _ => rfl) i
      · exact h
  | lost i =>
      rw [step]
      split
      · next hi => exact h.lost hi
      · exact h
  | config cmd =>
      exact ⟨h.kept, h.pool, h.singles, LoadClient.numInt_nonneg h.size, h.room, h.counted⟩

theorem orderly_launch {poolSize : ℤ} (hsize : 0 ≤ poolSize) (maxConnAgeMs : ℤ) :
    Orderly (launch poolSize maxConnAgeMs) where
  kept := ⟨fun h => (nomatch h), fun h => (nomatch h)⟩
  pool := List.forall_mem_nil _
  singles := List.forall_mem_nil _
  size := hsize
  room := by
    simpa [launch, active, left] using hsize
  counted := rfl

end Orderly

/-- After any run, whatever the peers send and whenever connections are made, lost or asked to
change: on a connection that the task closed no reply was awaited then and none is now, no
request has been sent since, and none has failed with the connection; there are at most as many
connections in the pool that are not retired, those that are being made included, as the last
round read that there should be; and `open_conns` is the number of connections there are. -/
theorem recycling_safe (poolSize maxConnAgeMs : ℤ) (hsize : 0 ≤ poolSize) (es : List Event) :
    let c := run (launch poolSize maxConnAgeMs) es
    (∀ i n, (i, n) ∈ c.closed → ∃ k, c.conns[i]? = some k ∧ k.book.pending.entries = [] ∧
      k.book.asks.length = n ∧ ∀ a ∈ k.book.asks, a.future ≠ .crashed) ∧
    ((active c.conns c.pool).length + left c.maintainer : ℤ) ≤ c.target ∧
    c.openConns = c.conns.countP Conn.alive := by
  intro c
  have h : Orderly c := EventRun.run_invariant (P := Orderly) (fun _ e h => orderly_step h e)
    (orderly_launch hsize maxConnAgeMs) es
  refine ⟨fun i n hin => ?_, h.room, h.counted⟩
  obtain ⟨k, hk, hpart⟩ := h.kept.parted hin
  exact ⟨k, hk, hpart.pending, hpart.asked, hpart.uncrashed⟩

/-- A connection is used up: two requests, the second of which is answered; it ages, is retired
while the first is awaited, and closed when that has timed out. -/
def recycled : List Event :=
  [.tick 0, .connected 0, .attemptPooled, .attemptPooled,
    .data 0 (WireProtocol.asciiBytes "OK 2 1 0 5\n"), .tick 2000, .cancel 0 0, .forget 0 "1",
    .connected 2000, .tick 2100]

theorem recycling_safe_recycled :
    (run (launch 1 1000) recycled).closed = [(0, 2)] ∧
      ∃ k, (run (launch 1 1000) recycled).conns[0]? = some k ∧ k.book.pending.entries = [] ∧
        k.book.asks.length = 2 ∧ ∀ a ∈ k.book.asks, a.future ≠ .crashed := by
  have hclosed : (run (launch 1 1000) recycled).closed = [(0, 2)] := by decide +kernel
  refine ⟨hclosed, (recycling_safe 1 1000 (by decide) recycled).1 0 2 ?_⟩
  rw [hclosed]
  exact List.mem_cons_self

/-! ### Round robin -/

section RoundRobin

variable {c : Client}

/-- The connections that the pooled attempts of a run choose, in order. -/
def picked : Client → List Event → List (Option ℕ)
  | _, [] => []
  | c, .attemptPooled :: es => (pickConn c).1 :: picked (step c .attemptPooled) es
  | c, e :: es => picked (step c e) es

def Event.isPooled : Event → Bool
  | .attemptPooled => true
  | _ => false

/-- The pool holds connections there are, each once. -/
structure Numbered (c : Client) : Prop where
  bound : ∀ i ∈ c.pool, i < c.conns.length
  nodup : c.pool.Nodup

theorem Numbered.of_eq {c' : Client} (h : Numbered c) (hpool : c'.pool = c.pool)
    (hlength : c.conns.length ≤ c'.conns.length) : Numbered c' where
  bound := fun i hi => (h.bound i (hpool ▸ hi)).trans_le hlength
  nodup := hpool ▸ h.nodup

theorem Numbered.on (h : Numbered c) (f : Conn → Conn) (i : ℕ) : Numbered (on f i c) :=
  h.of_eq rfl (List.length_modify _ _ _).ge

theorem Numbered.attemptPooled (h : Numbered c) : Numbered (attemptPooled c) := by
  unfold ConnPool.attemptPooled
  rcases pickConn_cases c with hnone | ⟨i, rr, -, hsome⟩
  · rw [hnone]
    exact h
  · rw [hsome]
    have hpicked : Numbered { c with rr := rr, nextId := c.nextId + 1 } := h.of_eq rfl le_rfl
    exact hpicked.on _ i

theorem Numbered.tick (h : Numbered c) (nowMs : ℚ) : Numbered (tick nowMs c) where
  bound := fun i hi => by
    simp only [ConnPool.tick, ConnPool.retireRound, length_forEach]
    exact h.bound i (List.mem_of_mem_filter hi)
  nodup := h.nodup.filter _

theorem Numbered.connected (h : Numbered c) (nowMs : ℚ) : Numbered (connected nowMs c) := by
  unfold ConnPool.connected
  split
  · refine ⟨?_, ?_⟩
    · rw [List.length_append, List.length_singleton]
      refine List.forall_mem_append.mpr ⟨fun i hi => ?_, List.forall_mem_singleton.mpr ?_⟩
      · exact (h.bound i hi).trans (Nat.lt_succ_self _)
      · exact Nat.lt_succ_self _
    · refine List.nodup_append.mpr ⟨h.nodup, List.nodup_singleton _, fun i hi j hj => ?_⟩
      rw [List.mem_singleton.mp hj]
      exact (h.bound i hi).ne
  · exact h

theorem Numbered.step (h : Numbered c) (e : Event) : Numbered (step c e) := by
  cases e with
  | tick nowMs =>
      rw [ConnPool.step]
      split
      · exact h.tick nowMs
      · exact h
  | connected nowMs => exact h.connected nowMs
  | attemptPooled => exact h.attemptPooled
  | dial nowMs => exact h.of_eq rfl (List.length_append ▸ Nat.le_add_right _ _)
  | attemptSingle i id =>
      rw [ConnPool.step, attemptSingle]
      split
      · exact h.on _ i
      · exact h
  | connectFailed | takeId | config => exact h.of_eq rfl le_rfl
  | data i | cancel i | forget i => exact h.on _ i
  | abort i =>
      rw [ConnPool.step]
      split
      · exact h.on _ i
      · exact h
  | lost i =>
      rw [ConnPool.step]
      split
      · exact (h.on _ i).of_eq rfl le_rfl
      · exact h

theorem run_numbered (poolSize maxConnAgeMs : ℤ) (es : List Event) :
    Numbered (run (launch poolSize maxConnAgeMs) es) :=
  EventRun.run_invariant (P := Numbered) (fun _ e h => h.step e)
    ⟨List.forall_mem_nil _, List.nodup_nil⟩ es

theorem pickConn_of_nil (h : live c = []) : pickConn c = (none, c) := by
  unfold pickConn
  rw [h]

theorem pickConn_of_ne_nil (h : live c ≠ []) :
    pickConn c = ((live c)[(c.rr + 1) % (live c).length]?,
      { c with rr := (c.rr + 1) % (live c).length }) := by
  unfold pickConn
  split
  · next hnil => exact absurd hnil h
  · next i l hlive => rw [hlive]

/-- Only a pooled attempt moves on. -/
theorem rr_step {e : Event} (he : e.isPooled = false) : (step c e).rr = c.rr := by
  cases e with
  | attemptPooled => cases he
  | tick nowMs =>
      rw [step]
      split <;> rfl
  | connected nowMs =>
      rw [step, connected]
      split <;> rfl
  | attemptSingle i id =>
      rw [step, attemptSingle]
      split <;> rfl
  | abort i =>
      rw [step]
      split <;> rfl
  | lost i =>
      rw [step]
      split <;> rfl
  | _ => rfl

theorem rr_attemptPooled (h : live c ≠ []) :
    (attemptPooled c).rr = (c.rr + 1) % (live c).length := by
  have hlt : (c.rr + 1) % (live c).length < (live c).length :=
    Nat.mod_lt _ (List.length_pos_of_ne_nil h)
  rw [attemptPooled, pickConn_of_ne_nil h, List.getElem?_eq_getElem hlt]
  rfl

/-- While the connections to choose from stay the same, they are chosen in turn. -/
theorem picked_eq {es : List Event} (hlive : ∀ es₁ ∈ es.inits, live (run c es₁) = live c) :
    picked c es = (List.range (es.countP Event.isPooled)).map fun j =>
      (live c)[(c.rr + 1 + j) % (live c).length]? := by
  induction es generalizing c with
  | nil => rfl
  | cons e es ih =>
      have hinits : ∀ es₁ ∈ es.inits, live (run (step c e) es₁) = live c := fun es₁ hes₁ =>
        hlive (e :: es₁) (by simpa [List.inits] using hes₁)
      have hstep : live (step c e) = live c := hinits [] (by simp)
      have hrest := ih (c := step c e) fun es₁ hes₁ => (hinits es₁ hes₁).trans hstep.symm
      rw [hstep] at hrest
      by_cases he : e = .attemptPooled
      · subst he
        rw [picked, hrest, List.countP_cons_of_pos (by rfl), List.range_succ_eq_map, List.map_cons,
          List.map_map]
        by_cases hnil : live c = []
        · rw [hnil, pickConn_of_nil hnil]
          rfl
        · have hrr : (step c .attemptPooled).rr = (c.rr + 1) % (live c).length :=
            rr_attemptPooled hnil
          rw [pickConn_of_ne_nil hnil, hrr]
          refine congrArg _ (List.map_congr_left fun j _ => ?_)
          have hindex : ((c.rr + 1) % (live c).length + 1 + j) % (live c).length =
              (c.rr + 1 + (j + 1)) % (live c).length := by
            rw [Nat.add_assoc, Nat.mod_add_mod]
            congr 1
            omega
          exact congrArg (fun m => (live c)[m]?) hindex
      · have hother : e.isPooled = false := by
          cases e with
          | attemptPooled => exact absurd rfl he
          | _ => rfl
        rw [picked, hrest, rr_step hother, List.countP_cons_of_neg (by simp [hother])]
        exact he

end RoundRobin

/-- In any stretch of a run in which the connections to choose from stay the same, whatever else
happens, the pooled attempts take them in turn, from the one at the index after the last; and so
none of them is used more than once oftener than another. -/
theorem round_robin (poolSize maxConnAgeMs : ℤ) (pre es : List Event)
    (hlive : let c := run (launch poolSize maxConnAgeMs) pre
      ∀ es₁ ∈ es.inits, live (run c es₁) = live c) :
    let c := run (launch poolSize maxConnAgeMs) pre
    let n := es.countP Event.isPooled
    picked c es = (List.range n).map (fun j => (live c)[(c.rr + 1 + j) % (live c).length]?) ∧
      ∀ i ∈ live c, n / (live c).length ≤ (picked c es).count (some i) ∧
        (picked c es).count (some i) ≤ n / (live c).length + 1 := by
  intro c n
  have hpicked : picked c es =
      (List.range n).map fun j => (live c)[(c.rr + 1 + j) % (live c).length]? := picked_eq hlive
  refine ⟨hpicked, fun i hi => ?_⟩
  rw [hpicked]
  exact count_turns ((run_numbered poolSize maxConnAgeMs pre).nodup.filter _) hi _ _

/-- Two connections; three requests, the first of which is answered before the last is sent. -/
def inTurn : List Event :=
  [.attemptPooled, .attemptPooled, .data 1 (WireProtocol.asciiBytes "OK 1 1 0 5\n"), .tick 100,
    .attemptPooled]

theorem round_robin_in_turn :
    let c := run (launch 2 1000) [.tick 0, .connected 0, .connected 0]
    (live c = [0, 1] ∧ picked c inTurn = [some 1, some 0, some 1]) ∧
      ∀ i ∈ live c, 3 / 2 ≤ (picked c inTurn).count (some i) ∧
        (picked c inTurn).count (some i) ≤ 3 / 2 + 1 :=
  ⟨by decide +kernel, (round_robin 2 1000 [.tick 0, .connected 0, .connected 0] inTurn
    (by decide +kernel)).2⟩

end MaglevLb.ConnPool
