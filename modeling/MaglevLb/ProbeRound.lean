import MaglevLb.BackendIds
import MaglevLb.EventRun

/-!
# One round of probes

`run_probe_round` opens a connection to every backend of its snapshot, waits until they
are all decided, the time is over or a shutdown is requested, and closes what is left.
Sockets, the clock and `epoll_wait` belong to the environment; each step of the round
is given their answer. What the round does is a log of acts.
-/
namespace MaglevLb.ProbeRound

open BackendManager

/-! ### The round -/

/-- `HC_WAKE_SENTINEL` -/
def wakeSentinel : UInt64 := 0xFFFFFFFFFFFFFFFF

/-- `HC_ADMIN_SENTINEL` -/
def adminSentinel : UInt64 := 0xFFFFFFFFFFFFFFFE

/-- One index of the arrays `socks` and `done`. -/
structure Probe where
  sock : ℤ
  done : Bool
deriving DecidableEq, Repr

/-- How the connection to one backend begins: `socket` fails, `connect` fails at once, or it is
under way and `epoll_ctl` fails or succeeds. -/
inductive Opening where
  | noSocket
  | refused (fd : ℤ)
  | unregistered (fd : ℤ)
  | registered (fd : ℤ)
deriving DecidableEq, Repr

/-- An event of a batch, with what is found when it is handled: the pending error of the
socket, the bytes in the pipe. -/
structure Ready where
  data : UInt64
  soError : ℤ
  bytes : List UInt8
deriving DecidableEq, Repr

/-- What `epoll_wait` returns. -/
inductive Waiting where
  | interrupted
  | failed
  | events (evs : List Ready)
deriving DecidableEq, Repr

/-- The answers of the environment to one step. -/
structure Input where
  opening : Opening
  now : UInt64
  result : Waiting
deriving DecidableEq, Repr

inductive Act where
  | socket (i : ℕ) (fd : ℤ)
  | close (i : ℕ) (fd : ℤ)
  | recordResult (i : ℕ) (backendId : UInt32) (ok : Bool)
  | processAdminFifo (bytes : List UInt8)
deriving DecidableEq, Repr

inductive Pc where
  | opening
  | waiting
  | batch (evs : List Ready)
  | returned
  /-- An index outside the arrays. -/
  | fault
deriving DecidableEq, Repr

structure Round where
  pc : Pc
  probes : List Probe
  pending : UInt64
  deadline : UInt64
  aborted : Bool
  /-- The probes whose sockets are registered with the epoll instance. -/
  watched : List ℕ
  acts : List Act
deriving DecidableEq, Repr

def start (backends : List Backend) : Round where
  pc := if backends = [] then .returned else .opening
  probes := []
  pending := 0
  deadline := 0
  aborted := false
  watched := []
  acts := []

/-- One turn of the first loop. -/
def openProbe (r : Round) (b : Backend) : Opening → Round
  | .noSocket =>
      { r with
        probes := r.probes ++ [⟨-1, true⟩]
        acts := r.acts ++ [.recordResult r.probes.length b.id false] }
  | .refused fd =>
      -- `start_connect` closes the socket itself and returns −1
      { r with
        probes := r.probes ++ [⟨-1, true⟩]
        acts := r.acts ++ [.socket r.probes.length fd, .close r.probes.length fd,
          .recordResult r.probes.length b.id false] }
  | .unregistered fd =>
      { r with
        probes := r.probes ++ [⟨fd, true⟩]
        acts := r.acts ++ [.socket r.probes.length fd, .close r.probes.length fd,
          .recordResult r.probes.length b.id false] }
  | .registered fd =>
      { r with
        probes := r.probes ++ [⟨fd, false⟩]
        pending := r.pending + 1
        watched := r.watched ++ [r.probes.length]
        acts := r.acts ++ [.socket r.probes.length fd] }

/-- One turn of the loop over a batch. -/
def handleEvent (backends : List Backend) (r : Round) (e : Ready) (evs : List Ready) : Round :=
  if e.data = wakeSentinel then { r with pc := .waiting, aborted := true }
  else if e.data = adminSentinel then
    { r with pc := .batch evs, acts := r.acts ++ [.processAdminFifo e.bytes] }
  else
    let i := e.data.toNat
    match r.probes[i]?, backends[i]? with
    | some p, some b =>
        { r with
          pc := .batch evs
          probes := r.probes.set i { p with done := true }
          pending := r.pending - 1
          watched := r.watched.filter (· ≠ i)
          acts := r.acts ++ [.close i p.sock, .recordResult i b.id (e.soError = 0)] }
    | _, _ => { r with pc := .fault }

/-- One turn of the last loop. -/
def sweepOne (aborted : Bool) (i : ℕ) (b : Backend) (p : Probe) : List Act :=
  if p.done then []
  else .close i p.sock :: if aborted then [] else [.recordResult i b.id false]

/-- The last loop, from index `i` on. -/
def sweep (aborted : Bool) : ℕ → List Backend → List Probe → List Act
  | i, b :: backends, p :: probes =>
      sweepOne aborted i b p ++ sweep aborted (i + 1) backends probes
  | _, _, _ => []

def finish (backends : List Backend) (r : Round) : Round :=
  { r with
    pc := .returned
    watched := r.watched.filter fun i => (r.probes[i]?).all Probe.done
    acts := r.acts ++ sweep r.aborted 0 backends r.probes }

/-- `(int64_t)deadline - (int64_t)now_ms()` -/
def remaining (deadline now : UInt64) : Int64 := deadline.toInt64 - now.toInt64

def step (timeoutMs : UInt32) (backends : List Backend) (r : Round) (inp : Input) : Round :=
  match r.pc with
  | .opening =>
      match backends[r.probes.length]? with
      | some b => openProbe r b inp.opening
      | none => { r with pc := .waiting, deadline := inp.now + timeoutMs.toUInt64 }
  | .waiting =>
      if 0 < r.pending ∧ r.aborted = false then
        if remaining r.deadline inp.now ≤ 0 then finish backends r
        else
          match inp.result with
          | .interrupted => r
          | .failed => finish backends r
          | .events evs => { r with pc := .batch evs }
      else finish backends r
  | .batch [] => { r with pc := .waiting }
  | .batch (e :: evs) => handleEvent backends r e evs
  | .returned | .fault => r

/-- The indices that a batch reports. -/
def reported (evs : List Ready) : List UInt64 :=
  (evs.map Ready.data).filter fun d => d ≠ wakeSentinel ∧ d ≠ adminSentinel

/-- The batch reports registered sockets only, each at most once. -/
def Reports (watched : List ℕ) (evs : List Ready) : Prop :=
  (reported evs).Nodup ∧ ∀ d ∈ reported evs, d.toNat ∈ watched

/-- What the kernel may answer. -/
def Permitted (r : Round) : Waiting → Prop
  | .events evs => Reports r.watched evs
  | _ => True

/-- By the members of the list, not by all words. -/
instance (watched : List ℕ) (evs : List Ready) : Decidable (Reports watched evs) :=
  @instDecidableAnd _ _ (List.nodupDecidable _) (List.decidableBAll _ _)

instance (r : Round) (w : Waiting) : Decidable (Permitted r w) :=
  match w with
  | .interrupted => .isTrue trivial
  | .failed => .isTrue trivial
  | .events evs => inferInstanceAs (Decidable (Reports r.watched evs))

/-- A step with an answer that the kernel may give. -/
def next (timeoutMs : UInt32) (backends : List Backend) (r : Round) (inp : Input) : Option Round :=
  if r.pc = .waiting → Permitted r inp.result then some (step timeoutMs backends r inp) else none

/-! ### What happens to one probe -/

def Act.index : Act → Option ℕ
  | .socket i _ => some i
  | .close i _ => some i
  | .recordResult i _ _ => some i
  | .processAdminFifo _ => none

/-- The acts of one probe, in order. -/
def history (i : ℕ) (acts : List Act) : List Act := acts.filter fun a => a.index = some i

theorem history_append (i : ℕ) (acts acts' : List Act) :
    history i (acts ++ acts') = history i acts ++ history i acts' := List.filter_append ..

theorem history_self {i : ℕ} {acts : List Act} (h : ∀ a ∈ acts, a.index = some i) :
    history i acts = acts := List.filter_eq_self.mpr fun a ha => by simpa using h a ha

theorem history_of_ne {i : ℕ} {acts : List Act} (h : ∀ a ∈ acts, a.index ≠ some i) :
    history i acts = [] := List.filter_eq_nil_iff.mpr fun a ha => by simpa using h a ha

/-- A result is recorded, and the socket is closed if there was one. -/
inductive Decided (i : ℕ) (backendId : UInt32) : List Act → Prop
  | unopened (ok : Bool) : Decided i backendId [.recordResult i backendId ok]
  | opened (fd : ℤ) (ok : Bool) :
      Decided i backendId [.socket i fd, .close i fd, .recordResult i backendId ok]

/-- Where the probe of `b` stands, by its entry in the arrays. -/
def Stands (i : ℕ) (b : Backend) (acts : List Act) : Option Probe → Prop
  | none => acts = []
  | some ⟨fd, false⟩ => acts = [.socket i fd]
  | some ⟨_, true⟩ => Decided i b.id acts

variable {timeoutMs : UInt32} {backends : List Backend} {r r' : Round}

/-- The round before it returns. -/
structure Sound (backends : List Backend) (r : Round) : Prop where
  reach : r.probes.length ≤ backends.length
  stands : ∀ i b, backends[i]? = some b → Stands i b (history i r.acts) r.probes[i]?
  strangers : ∀ i, backends.length ≤ i → history i r.acts = []
  watched : ∀ i, i ∈ r.watched ↔ ∃ fd, r.probes[i]? = some ⟨fd, false⟩
  pending : r.pending.toNat = r.probes.countP fun p => !p.done

theorem start_sound (backends : List Backend) : Sound backends (start backends) where
  reach := Nat.zero_le _
  stands := fun _ _ _ => rfl
  strangers := fun _ _ => rfl
  watched := fun i => by simp [start]
  pending := rfl

/-- Where the round goes on does not matter. -/
theorem Sound.control (h : Sound backends r) (pc : Pc) (deadline : UInt64) (aborted : Bool) :
    Sound backends { r with pc := pc, deadline := deadline, aborted := aborted } :=
  ⟨h.reach, h.stands, h.strangers, h.watched, h.pending⟩

/-- Acts for one backend, and a change of its entry only. -/
theorem Sound.of_entry (h : Sound backends r) {i : ℕ} {b : Backend} {acts : List Act}
    (hb : backends[i]? = some b) (hindex : ∀ a ∈ acts, a.index = some i)
    (hacts : r'.acts = r.acts ++ acts) (hentry : ∀ j, j ≠ i → r'.probes[j]? = r.probes[j]?)
    (hothers : ∀ j, j ≠ i → (j ∈ r'.watched ↔ j ∈ r.watched))
    (hreach : r'.probes.length ≤ backends.length)
    (hstands : Stands i b (history i r.acts ++ acts) r'.probes[i]?)
    (hself : i ∈ r'.watched ↔ ∃ fd, r'.probes[i]? = some ⟨fd, false⟩)
    (hpending : r'.pending.toNat = r'.probes.countP fun p => !p.done) : Sound backends r' := by
  have hlt : i < backends.length := (List.getElem?_eq_some_iff.mp hb).choose
  have hsame : ∀ j, j ≠ i → history j r'.acts = history j r.acts := by
    intro j hj
    have hnone : history j acts = [] := by
      refine history_of_ne fun a ha haj => hj ?_
      rw [hindex a ha] at haj
      exact (Option.some.inj haj).symm
    rw [hacts, history_append, hnone, List.append_nil]
  refine ⟨hreach, fun j b' hb' => ?_, fun j hj => ?_, fun j => ?_, hpending⟩
  · by_cases hj : j = i
    · subst hj
      cases hb.symm.trans hb'
      rw [hacts, history_append, history_self hindex]
      exact hstands
    · rw [hentry j hj, hsame j hj]
      exact h.stands j b' hb'
  · rw [hsame j (by omega)]
    exact h.strangers j hj
  · by_cases hj : j = i
    · subst hj
      exact hself
    · rw [hothers j hj, h.watched, hentry j hj]

/-- A new entry at the end of the arrays, with the acts of its own. -/
theorem Sound.append (h : Sound backends r) {b : Backend}
    (hb : backends[r.probes.length]? = some b) {p : Probe} {acts : List Act}
    (hindex : ∀ a ∈ acts, a.index = some r.probes.length)
    (hstands : Stands r.probes.length b acts (some p)) (hprobes : r'.probes = r.probes ++ [p])
    (hacts : r'.acts = r.acts ++ acts)
    (hwatched : r'.watched = r.watched ++ if p.done then [] else [r.probes.length])
    (hpending : r'.pending.toNat = r.pending.toNat + if p.done then 0 else 1) :
    Sound backends r' := by
  have hlt : r.probes.length < backends.length := (List.getElem?_eq_some_iff.mp hb).choose
  have hnew : r'.probes[r.probes.length]? = some p := by
    rw [hprobes]
    exact List.getElem?_concat_length
  have hold : r.probes[r.probes.length]? = none := List.getElem?_eq_none (Nat.le_refl _)
  have hnone : history r.probes.length r.acts = [] := by
    have hstood := h.stands _ b hb
    rwa [hold] at hstood
  refine h.of_entry hb hindex hacts (fun i hi => ?_) (fun i hi => ?_) ?_ ?_ ?_ ?_
  · rw [hprobes]
    rcases Nat.lt_or_gt_of_ne hi with hi | hi
    · exact List.getElem?_append_left hi
    · rw [List.getElem?_eq_none (by simp; omega), List.getElem?_eq_none (by omega)]
  · rw [hwatched, List.mem_append]
    cases p.done <;> simp [hi]
  · rw [hprobes, List.length_append, List.length_singleton]
    exact hlt
  · rw [hnone, hnew]
    exact hstands
  · rw [hwatched, List.mem_append, h.watched, hnew, hold]
    cases p with
    | mk fd done => cases done <;> simp
  · rw [hpending, h.pending, hprobes, List.countP_append, List.countP_singleton]
    cases p.done <;> rfl

theorem openProbe_sound (h : Sound backends r) (hn : backends.length ≤ backendMax) {b : Backend}
    (hb : backends[r.probes.length]? = some b) (o : Opening) :
    Sound backends (openProbe r b o) := by
  cases o with
  | noSocket =>
      exact h.append (p := ⟨-1, true⟩) hb (by simp [Act.index]) (Decided.unopened false) rfl rfl
        (List.append_nil _).symm rfl
  | refused fd =>
      exact h.append (p := ⟨-1, true⟩) hb (by simp [Act.index]) (Decided.opened fd false) rfl rfl
        (List.append_nil _).symm rfl
  | unregistered fd =>
      exact h.append (p := ⟨fd, true⟩) hb (by simp [Act.index]) (Decided.opened fd false) rfl rfl
        (List.append_nil _).symm rfl
  | registered fd =>
      have hroom : r.pending.toNat < 2 ^ 64 - 1 := by
        have hle := List.countP_le_length (p := fun p : Probe => !p.done) (l := r.probes)
        have hreach := h.reach
        rw [h.pending]
        unfold backendMax at hn
        omega
      refine h.append hb (by simp [Act.index]) (by exact rfl) rfl rfl rfl ?_
      rw [openProbe, UInt64.toNat_add]
      exact Nat.mod_eq_of_lt (by simpa using Nat.succ_lt_succ hroom)

/-- An entry that is not done becomes so, with its socket closed and a result recorded. -/
theorem Sound.settle (h : Sound backends r) {i : ℕ} {fd : ℤ} {b : Backend}
    (hprobe : r.probes[i]? = some ⟨fd, false⟩) (hb : backends[i]? = some b) (ok : Bool)
    (hprobes : r'.probes = r.probes.set i ⟨fd, true⟩)
    (hacts : r'.acts = r.acts ++ [.close i fd, .recordResult i b.id ok])
    (hwatched : r'.watched = r.watched.filter (· ≠ i)) (hpending : r'.pending = r.pending - 1) :
    Sound backends r' := by
  have hlt : i < r.probes.length := (List.getElem?_eq_some_iff.mp hprobe).choose
  have hself : r'.probes[i]? = some ⟨fd, true⟩ := by
    rw [hprobes, List.getElem?_set_self hlt]
  have hopen : history i r.acts = [.socket i fd] := by
    have hstood := h.stands i b hb
    rwa [hprobe] at hstood
  refine h.of_entry hb (by simp [Act.index]) hacts (fun j hj => ?_) (fun j hj => ?_) ?_ ?_ ?_ ?_
  · rw [hprobes, List.getElem?_set_ne (Ne.symm hj)]
  · simp [hwatched, hj]
  · rw [hprobes, List.length_set]
    exact h.reach
  · rw [hopen, hself]
    exact Decided.opened fd ok
  · simp [hwatched, hself]
  · -- the entry was counted, so nothing is borrowed
    have hget : r.probes[i] = ⟨fd, false⟩ := (List.getElem?_eq_some_iff.mp hprobe).choose_spec
    have hcount : (r.probes.set i ⟨fd, true⟩).countP (fun p => !p.done) =
        r.probes.countP (fun p => !p.done) - 1 := by
      rw [List.countP_set hlt, hget]
      rfl
    have hpos : 0 < r.probes.countP fun p => !p.done :=
      List.countP_pos_iff.mpr ⟨_, List.mem_of_getElem? hprobe, rfl⟩
    have hone : (1 : UInt64) ≤ r.pending := by
      rw [UInt64.le_iff_toNat_le, h.pending]
      exact hpos
    rw [hpending, hprobes, hcount, UInt64.toNat_sub_of_le _ _ hone, h.pending]
    rfl

/-- An event of a registered socket. -/
theorem handleEvent_probe (h : Sound backends r) {e : Ready} (evs : List Ready)
    (hwake : e.data ≠ wakeSentinel) (hadmin : e.data ≠ adminSentinel)
    (hmem : e.data.toNat ∈ r.watched) :
    Sound backends (handleEvent backends r e evs) ∧
      (handleEvent backends r e evs).pc = .batch evs ∧
      (handleEvent backends r e evs).watched = r.watched.filter (· ≠ e.data.toNat) ∧
      (handleEvent backends r e evs).probes.length = r.probes.length := by
  obtain ⟨fd, hprobe⟩ := (h.watched _).mp hmem
  have hlt : e.data.toNat < backends.length :=
    (List.getElem?_eq_some_iff.mp hprobe).choose.trans_le h.reach
  have hb : backends[e.data.toNat]? = some (backends[e.data.toNat]) := List.getElem?_eq_getElem hlt
  have hevent : handleEvent backends r e evs =
      { r with
        pc := .batch evs
        probes := r.probes.set e.data.toNat ⟨fd, true⟩
        pending := r.pending - 1
        watched := r.watched.filter (· ≠ e.data.toNat)
        acts := r.acts ++ [.close e.data.toNat fd,
          .recordResult e.data.toNat backends[e.data.toNat].id (e.soError = 0)] } := by
    unfold handleEvent
    rw [if_neg hwake, if_neg hadmin]
    dsimp only
    rw [hprobe, hb]
  rw [hevent]
  exact ⟨h.settle hprobe hb _ rfl rfl rfl rfl, rfl, rfl, List.length_set⟩

theorem index_of_mem_sweepOne {aborted : Bool} {i : ℕ} {b : Backend} {p : Probe} {a : Act}
    (h : a ∈ sweepOne aborted i b p) : a.index = some i := by
  unfold sweepOne at h
  split at h
  · cases h
  · cases aborted with
    | true =>
        rw [if_pos rfl, List.mem_singleton] at h
        rw [h]
        rfl
    | false =>
        rw [if_neg Bool.false_ne_true, List.mem_cons, List.mem_singleton] at h
        rcases h with h | h
        · rw [h]
          rfl
        · rw [h]
          rfl

theorem le_of_mem_sweep {aborted : Bool} {i k : ℕ} {backends : List Backend}
    {probes : List Probe} {a : Act} (h : a ∈ sweep aborted k backends probes)
    (hi : a.index = some i) : k ≤ i := by
  induction backends generalizing k probes with
  | nil => cases h
  | cons b backends ih =>
      cases probes with
      | nil => cases h
      | cons p probes =>
          rcases List.mem_append.mp h with h | h
          · have hk := (index_of_mem_sweepOne h).symm.trans hi
            exact Nat.le_of_eq (Option.some.inj hk)
          · exact Nat.le_of_succ_le (ih h)

/-- The last loop does for each index its own turn, and nothing for the others. -/
theorem history_sweep (aborted : Bool) (i k : ℕ) (backends : List Backend) (probes : List Probe) :
    history (k + i) (sweep aborted k backends probes) =
      match backends[i]?, probes[i]? with
      | some b, some p => sweepOne aborted (k + i) b p
      | _, _ => [] := by
  induction backends generalizing i k probes with
  | nil => rfl
  | cons b backends ih =>
      cases probes with
      | nil => cases (b :: backends)[i]? <;> rfl
      | cons p probes =>
          rw [sweep, history_append]
          cases i with
          | zero =>
              have hrest : history k (sweep aborted (k + 1) backends probes) = [] :=
                history_of_ne fun a ha hak => absurd (le_of_mem_sweep ha hak) (by omega)
              rw [Nat.add_zero, hrest, List.append_nil,
                history_self fun a ha => index_of_mem_sweepOne ha]
              rfl
          | succ i =>
              have hone : history (k + (i + 1)) (sweepOne aborted k b p) = [] := by
                refine history_of_ne fun a ha hak => ?_
                have hk := (index_of_mem_sweepOne ha).symm.trans hak
                exact absurd (Option.some.inj hk) (by omega)
              have hk : k + (i + 1) = k + 1 + i := by omega
              rw [hone, List.nil_append, hk]
              exact ih i (k + 1) probes

/-! ### Whole rounds -/

/-- The round when it has returned. -/
structure Finished (backends : List Backend) (r : Round) : Prop where
  decided : ∀ i b, backends[i]? = some b → Decided i b.id (history i r.acts) ∨
    r.aborted = true ∧ ∃ fd, history i r.acts = [.socket i fd, .close i fd]
  strangers : ∀ i, backends.length ≤ i → history i r.acts = []
  watched : r.watched = []
  pending : r.pending.toNat = r.probes.countP fun p => !p.done

theorem finish_finished (h : Sound backends r) (hfull : r.probes.length = backends.length) :
    Finished backends (finish backends r) where
  decided := by
    intro i b hb
    have hlt : i < r.probes.length := hfull ▸ (List.getElem?_eq_some_iff.mp hb).choose
    have hprobe : r.probes[i]? = some r.probes[i] := List.getElem?_eq_getElem hlt
    have hstands := h.stands i b hb
    have hsweep : history i (sweep r.aborted 0 backends r.probes) =
        sweepOne r.aborted i b r.probes[i] := by
      have hall := history_sweep r.aborted i 0 backends r.probes
      rwa [hb, hprobe, Nat.zero_add] at hall
    rw [hprobe] at hstands
    rw [finish, history_append, hsweep]
    generalize r.probes[i] = p at hstands ⊢
    obtain ⟨fd, done⟩ := p
    cases done with
    | true =>
        left
        rw [sweepOne, if_pos rfl, List.append_nil]
        exact hstands
    | false =>
        rw [Stands] at hstands
        rw [hstands, sweepOne, if_neg Bool.false_ne_true]
        cases r.aborted with
        | true => exact .inr ⟨rfl, fd, rfl⟩
        | false => exact .inl (.opened fd false)
  strangers := by
    intro i hi
    have hsweep := history_sweep r.aborted i 0 backends r.probes
    rw [List.getElem?_eq_none hi, Nat.zero_add] at hsweep
    rw [finish, history_append, h.strangers i hi, hsweep]
    rfl
  watched := by
    refine List.filter_eq_nil_iff.mpr fun i hi => ?_
    obtain ⟨fd, hprobe⟩ := (h.watched i).mp hi
    rw [hprobe]
    exact Bool.false_ne_true
  pending := h.pending

/-- What holds at each place of the round. -/
def Inv (backends : List Backend) (r : Round) : Prop :=
  match r.pc with
  | .opening => Sound backends r
  | .waiting => Sound backends r ∧ r.probes.length = backends.length
  | .batch evs => Sound backends r ∧ r.probes.length = backends.length ∧ Reports r.watched evs
  | .returned => Finished backends r
  | .fault => False

theorem start_inv (backends : List Backend) : Inv backends (start backends) := by
  unfold Inv
  by_cases hnil : backends = []
  · subst hnil
    exact ⟨fun _ _ hb => (nomatch hb), fun _ _ => rfl, rfl, rfl⟩
  · have hpc : (start backends).pc = .opening := if_neg hnil
    rw [hpc]
    exact start_sound backends

theorem reported_cons (e : Ready) (evs : List Ready) :
    reported (e :: evs) =
      if e.data ≠ wakeSentinel ∧ e.data ≠ adminSentinel then e.data :: reported evs
      else reported evs := by
  rw [reported, List.map_cons, List.filter_cons]
  simp only [decide_eq_true_eq]
  rfl

theorem Reports.tail {watched : List ℕ} {e : Ready} {evs : List Ready}
    (h : Reports watched (e :: evs)) : Reports watched evs := by
  unfold Reports at h ⊢
  rw [reported_cons] at h
  split at h
  · exact ⟨(List.nodup_cons.mp h.1).2, fun d hd => h.2 d (List.mem_cons_of_mem _ hd)⟩
  · exact h

/-- A socket that is reported and removed is not reported again in the batch. -/
theorem Reports.probe {watched : List ℕ} {e : Ready} {evs : List Ready}
    (h : Reports watched (e :: evs)) (hwake : e.data ≠ wakeSentinel)
    (hadmin : e.data ≠ adminSentinel) :
    e.data.toNat ∈ watched ∧ Reports (watched.filter (· ≠ e.data.toNat)) evs := by
  unfold Reports at h ⊢
  rw [reported_cons, if_pos ⟨hwake, hadmin⟩] at h
  obtain ⟨hnot, hnodup⟩ := List.nodup_cons.mp h.1
  refine ⟨h.2 _ List.mem_cons_self, hnodup, fun d hd => ?_⟩
  rw [List.mem_filter, decide_eq_true_eq]
  refine ⟨h.2 d (List.mem_cons_of_mem _ hd), fun heq => hnot ?_⟩
  rwa [← UInt64.toNat_inj.mp heq]

theorem handleEvent_inv (h : Sound backends r) (hfull : r.probes.length = backends.length)
    {e : Ready} {evs : List Ready} (hreports : Reports r.watched (e :: evs)) :
    Inv backends (handleEvent backends r e evs) := by
  by_cases hwake : e.data = wakeSentinel
  · have hevent : handleEvent backends r e evs = { r with pc := .waiting, aborted := true } :=
      if_pos hwake
    rw [hevent]
    exact ⟨h.control .waiting r.deadline true, hfull⟩
  · by_cases hadmin : e.data = adminSentinel
    · have hevent : handleEvent backends r e evs =
          { r with pc := .batch evs, acts := r.acts ++ [.processAdminFifo e.bytes] } := by
        rw [handleEvent, if_neg hwake, if_pos hadmin]
      have hkept : ∀ i, history i (r.acts ++ [.processAdminFifo e.bytes]) = history i r.acts := by
        intro i
        have hnone : history i [.processAdminFifo e.bytes] = [] :=
          history_of_ne (by simp [Act.index])
        rw [history_append, hnone, List.append_nil]
      rw [hevent]
      refine ⟨⟨h.reach, fun i b hb => ?_, fun i hi => ?_, h.watched, h.pending⟩, hfull,
        hreports.tail⟩
      · dsimp only
        rw [hkept]
        exact h.stands i b hb
      · dsimp only
        rw [hkept]
        exact h.strangers i hi
    · obtain ⟨hmem, hrest⟩ := hreports.probe hwake hadmin
      obtain ⟨hsound, hpc, hwatched, hlength⟩ := handleEvent_probe h evs hwake hadmin hmem
      unfold Inv
      rw [hpc]
      dsimp only
      rw [hlength, hwatched]
      exact ⟨hsound, hfull, hrest⟩

theorem step_inv (hn : backends.length ≤ backendMax) {inp : Input} (h : Inv backends r)
    (hpermitted : r.pc = .waiting → Permitted r inp.result) :
    Inv backends (step timeoutMs backends r inp) := by
  unfold Inv at h
  unfold step
  cases hpc : r.pc with
  | opening =>
      rw [hpc] at h
      dsimp only at h ⊢
      cases hb : backends[r.probes.length]? with
      | some b =>
          have hkeep : (openProbe r b inp.opening).pc = .opening := by
            cases inp.opening <;> exact hpc
          unfold Inv
          dsimp only
          rw [hkeep]
          exact openProbe_sound h hn hb inp.opening
      | none =>
          refine ⟨h.control .waiting (inp.now + timeoutMs.toUInt64) r.aborted, ?_⟩
          exact Nat.le_antisymm h.reach (List.getElem?_eq_none_iff.mp hb)
  | waiting =>
      rw [hpc] at h
      dsimp only at h ⊢
      have hfinish : Inv backends (finish backends r) := finish_finished h.1 h.2
      split
      · split
        · exact hfinish
        · split
          · unfold Inv
            rw [hpc]
            exact h
          · exact hfinish
          · next evs hevs =>
              have hreports := hpermitted hpc
              rw [hevs] at hreports
              exact ⟨h.1.control (.batch evs) r.deadline r.aborted, h.2, hreports⟩
      · exact hfinish
  | batch evs =>
      rw [hpc] at h
      dsimp only at h ⊢
      cases evs with
      | nil => exact ⟨h.1.control .waiting r.deadline r.aborted, h.2.1⟩
      | cons e evs => exact handleEvent_inv h.1 h.2.1 h.2.2
  | returned =>
      unfold Inv
      rw [hpc] at h ⊢
      exact h
  | fault =>
      rw [hpc] at h
      exact absurd h id

theorem eq_step_of_next {inp : Input} (h : next timeoutMs backends r inp = some r') :
    r' = step timeoutMs backends r inp := by
  unfold next at h
  split at h
  · exact (Option.some.inj h).symm
  · cases h

theorem next_inv (hn : backends.length ≤ backendMax) {inp : Input} (h : Inv backends r)
    (hnext : next timeoutMs backends r inp = some r') : Inv backends r' := by
  unfold next at hnext
  split at hnext
  · next hpermitted =>
      cases hnext
      exact step_inv hn h hpermitted
  · cases hnext

theorem run_inv (hn : backends.length ≤ backendMax) {inputs : List Input}
    (hrun : inputs.foldlM (next timeoutMs backends) (start backends) = some r) :
    Inv backends r :=
  EventRun.foldlM_invariant (P := Inv backends) (next_inv hn) (start_inv backends) hrun

theorem Inv.pending (h : Inv backends r) :
    r.pending.toNat = r.probes.countP fun p => !p.done := by
  unfold Inv at h
  split at h
  · exact Sound.pending h
  · exact h.1.pending
  · exact h.1.pending
  · exact Finished.pending h
  · exact absurd h id

theorem Inv.not_fault (h : Inv backends r) : r.pc ≠ .fault := by
  intro hpc
  unfold Inv at h
  rw [hpc] at h
  exact h

theorem Inv.watched (h : Inv backends r) (hpc : r.pc ≠ .returned) (i : ℕ) :
    i ∈ r.watched ↔ ∃ fd, r.probes[i]? = some ⟨fd, false⟩ := by
  unfold Inv at h
  split at h
  · exact Sound.watched h i
  · exact h.1.watched i
  · exact h.1.watched i
  · next hreturned => exact absurd hreturned hpc
  · exact absurd h id

/-- The acts of one probe at any time. -/
inductive Progress (i : ℕ) : List Act → Prop
  | untouched : Progress i []
  | opened (fd : ℤ) : Progress i [.socket i fd]
  | decided {backendId : UInt32} {acts : List Act} (h : Decided i backendId acts) : Progress i acts
  | abandoned (fd : ℤ) : Progress i [.socket i fd, .close i fd]

theorem Sound.progress (h : Sound backends r) (i : ℕ) : Progress i (history i r.acts) := by
  by_cases hi : i < backends.length
  · have hstands := h.stands i _ (List.getElem?_eq_getElem hi)
    generalize r.probes[i]? = p at hstands
    match p with
    | none =>
        rw [Stands] at hstands
        rw [hstands]
        exact .untouched
    | some ⟨fd, false⟩ =>
        rw [Stands] at hstands
        rw [hstands]
        exact .opened fd
    | some ⟨_, true⟩ => exact .decided hstands
  · rw [h.strangers i (Nat.le_of_not_lt hi)]
    exact .untouched

theorem Finished.progress (h : Finished backends r) (i : ℕ) : Progress i (history i r.acts) := by
  by_cases hi : i < backends.length
  · rcases h.decided i _ (List.getElem?_eq_getElem hi) with hdecided | ⟨-, fd, hacts⟩
    · exact .decided hdecided
    · rw [hacts]
      exact .abandoned fd
  · rw [h.strangers i (Nat.le_of_not_lt hi)]
    exact .untouched

theorem Inv.progress (h : Inv backends r) (i : ℕ) : Progress i (history i r.acts) := by
  unfold Inv at h
  split at h
  · exact Sound.progress h i
  · exact h.1.progress i
  · exact h.1.progress i
  · exact Finished.progress h i
  · exact absurd h id

end MaglevLb.ProbeRound
