import MaglevLb.ProbeRound

/-!
# The results of a round of probes

A round records one result for each backend of its snapshot, closes the sockets it opened
and comes to an end once its time is over.
-/
namespace MaglevLb.ProbeRound

open BackendManager

variable {timeoutMs : UInt32} {backends : List Backend} {r r' : Round}

/-! ### Results and sockets -/

def Act.result : Act → Option (UInt32 × Bool)
  | .recordResult _ backendId ok => some (backendId, ok)
  | _ => none

def Act.openedSocket : Act → Option ℤ
  | .socket _ fd => some fd
  | _ => none

def Act.closedSocket : Act → Option ℤ
  | .close _ fd => some fd
  | _ => none

/-- The results recorded for one place of the snapshot. -/
def resultsOf (i : ℕ) (acts : List Act) : List (UInt32 × Bool) :=
  (history i acts).filterMap Act.result

/-- The sockets opened for it. -/
def socketsOf (i : ℕ) (acts : List Act) : List ℤ := (history i acts).filterMap Act.openedSocket

/-- The sockets closed for it. -/
def closesOf (i : ℕ) (acts : List Act) : List ℤ := (history i acts).filterMap Act.closedSocket

theorem Decided.counts {i : ℕ} {backendId : UInt32} {acts : List Act}
    (h : Decided i backendId (history i acts)) :
    (∃ ok, resultsOf i acts = [(backendId, ok)]) ∧ closesOf i acts = socketsOf i acts ∧
      (socketsOf i acts).length ≤ 1 := by
  unfold resultsOf closesOf socketsOf
  generalize history i acts = own at h
  cases h with
  | unopened ok => exact ⟨⟨ok, rfl⟩, rfl, Nat.zero_le 1⟩
  | opened fd ok => exact ⟨⟨ok, rfl⟩, rfl, Nat.le_refl 1⟩

theorem Progress.counts {i : ℕ} {acts : List Act} (h : Progress i (history i acts)) :
    (resultsOf i acts).length ≤ 1 ∧ closesOf i acts <+: socketsOf i acts ∧
      (socketsOf i acts).length ≤ 1 := by
  generalize hown : history i acts = own at h
  cases h with
  | untouched =>
      unfold resultsOf closesOf socketsOf
      rw [hown]
      exact ⟨Nat.zero_le 1, List.nil_prefix, Nat.zero_le 1⟩
  | opened fd =>
      unfold resultsOf closesOf socketsOf
      rw [hown]
      exact ⟨Nat.zero_le 1, List.nil_prefix, Nat.le_refl 1⟩
  | decided h =>
      rw [← hown] at h
      obtain ⟨⟨ok, hrecorded⟩, hclosed, hopened⟩ := h.counts
      rw [hrecorded, hclosed]
      exact ⟨Nat.le_refl 1, List.prefix_refl _, hopened⟩
  | abandoned fd =>
      unfold resultsOf closesOf socketsOf
      rw [hown]
      exact ⟨Nat.zero_le 1, List.prefix_refl _, Nat.le_refl 1⟩

theorem Finished.counts (h : Finished backends r) (i : ℕ) :
    closesOf i r.acts = socketsOf i r.acts ∧
      (r.aborted = false → ∀ b, backends[i]? = some b → ∃ ok, resultsOf i r.acts = [(b.id, ok)]) ∧
      (backends.length ≤ i → history i r.acts = []) := by
  by_cases hi : i < backends.length
  · have hb := List.getElem?_eq_getElem hi
    refine ⟨?_, fun hnot b hb => ?_, fun hle => absurd hi (Nat.not_lt.mpr hle)⟩
    · rcases h.decided i _ hb with hdecided | ⟨-, fd, hacts⟩
      · exact hdecided.counts.2.1
      · rw [closesOf, socketsOf, hacts]
        rfl
    · rcases h.decided i b hb with hdecided | ⟨haborted, -⟩
      · exact hdecided.counts.1
      · rw [hnot] at haborted
        cases haborted
  · have hnil := h.strangers i (Nat.le_of_not_lt hi)
    refine ⟨?_, fun _ b hb => ?_, h.strangers i⟩
    · rw [closesOf, socketsOf, hnil]
      rfl
    · exact absurd (List.getElem?_eq_some_iff.mp hb).choose hi

/-! ### The end of the round -/

/-- How many steps are left at most once the time is over. -/
def rank (backends : List Backend) (r : Round) : ℕ :=
  match r.pc with
  | .opening => backends.length - r.probes.length + 2
  | .batch evs => evs.length + 2
  | .waiting => 1
  | .returned | .fault => 0

theorem handleEvent_rank (backends : List Backend) (r : Round) (e : Ready) (evs : List Ready) :
    rank backends (handleEvent backends r e evs) ≤ evs.length + 2 := by
  unfold handleEvent
  split
  · exact Nat.le_add_left 1 _
  · split
    · exact Nat.le_refl _
    · dsimp only
      split
      · exact Nat.le_refl _
      · exact Nat.zero_le _

theorem openProbe_rank {b : Backend} (hpc : r.pc = .opening)
    (hb : backends[r.probes.length]? = some b) (o : Opening) :
    rank backends (openProbe r b o) < rank backends r := by
  have hlt : r.probes.length < backends.length := (List.getElem?_eq_some_iff.mp hb).choose
  have hkeep : (openProbe r b o).pc = .opening := by cases o <;> exact hpc
  have hlength : (openProbe r b o).probes.length = r.probes.length + 1 := by
    cases o <;> exact List.length_append
  unfold rank
  rw [hkeep, hpc]
  dsimp only
  rw [hlength]
  omega

theorem step_rank (timeoutMs : UInt32) {inp : Input} (h : Inv backends r) (hpc : r.pc ≠ .returned)
    (hlate : remaining r.deadline inp.now ≤ 0) :
    rank backends (step timeoutMs backends r inp) < rank backends r := by
  cases hr : r.pc with
  | opening =>
      unfold step
      rw [hr]
      dsimp only
      cases hb : backends[r.probes.length]? with
      | some b => exact openProbe_rank hr hb inp.opening
      | none =>
          unfold rank
          rw [hr]
          dsimp only
          omega
  | waiting =>
      have hfinish : step timeoutMs backends r inp = finish backends r := by
        unfold step
        rw [hr]
        dsimp only
        rw [if_pos hlate, ite_self]
      rw [hfinish, rank, rank, hr]
      exact Nat.zero_lt_one
  | batch evs =>
      unfold step
      rw [hr]
      cases evs with
      | nil =>
          rw [rank, rank, hr]
          exact Nat.lt_succ_self 1
      | cons e evs =>
          have hle := handleEvent_rank backends r e evs
          have hrank : rank backends r = evs.length + 3 := by rw [rank, hr]; rfl
          dsimp only
          omega
  | returned => exact absurd hr hpc
  | fault => exact absurd hr h.not_fault

/-- Once the time stays over, the round returns. -/
theorem returns_of_late {answers : ℕ → Input} {states : ℕ → Round}
    (hinv : ∀ t, Inv backends (states t))
    (hnext : ∀ t, states (t + 1) = step timeoutMs backends (states t) (answers t)) {t₀ : ℕ}
    (hlate : ∀ t, t₀ ≤ t → remaining (states t).deadline (answers t).now ≤ 0) :
    ∃ t, (states t).pc = .returned := by
  generalize hk : rank backends (states t₀) = k
  induction k using Nat.strong_induction_on generalizing t₀ with
  | _ k ih =>
      by_cases hpc : (states t₀).pc = .returned
      · exact ⟨t₀, hpc⟩
      · have hless := step_rank timeoutMs (hinv t₀) hpc (hlate t₀ (Nat.le_refl _))
        rw [← hnext, hk] at hless
        exact ih _ hless (fun t ht => hlate t (by omega)) rfl

/-- One round over the snapshot of any manager, whatever the environment answers as long as the
kernel reports registered sockets only, each once a batch. -/
theorem one_result_per_backend (timeoutMs : UInt32) (bm : Manager) :
    let backends := backendManagerSnapshotAll bm backendMax
    (∀ (inputs : List Input) (r : Round),
      inputs.foldlM (next timeoutMs backends) (start backends) = some r →
      r.pc ≠ .fault ∧
      r.pending.toNat = (r.probes.countP fun p => !p.done) ∧
      (r.pc ≠ .returned → ∀ i, i ∈ r.watched ↔ ∃ fd, r.probes[i]? = some ⟨fd, false⟩) ∧
      (∀ i, (resultsOf i r.acts).length ≤ 1 ∧ closesOf i r.acts <+: socketsOf i r.acts ∧
        (socketsOf i r.acts).length ≤ 1) ∧
      (r.pc = .returned → ∀ i, closesOf i r.acts = socketsOf i r.acts ∧
        (r.aborted = false → ∀ b, backends[i]? = some b → ∃ ok, resultsOf i r.acts = [(b.id, ok)]) ∧
        (backends.length ≤ i → history i r.acts = []))) ∧
      ∀ (answers : ℕ → Input) (states : ℕ → Round), states 0 = start backends →
        (∀ t, next timeoutMs backends (states t) (answers t) = some (states (t + 1))) →
        (∃ t₀, ∀ t, t₀ ≤ t → remaining (states t).deadline (answers t).now ≤ 0) →
        ∃ t, (states t).pc = .returned := by
  intro backends
  have hn : backends.length ≤ backendMax := List.length_take_le _ _
  constructor
  · intro inputs r hrun
    have hinv := run_inv hn hrun
    refine ⟨hinv.not_fault, hinv.pending, hinv.watched, fun i => (hinv.progress i).counts,
      fun hpc => ?_⟩
    have hfinished : Finished backends r := by
      unfold Inv at hinv
      rwa [hpc] at hinv
    exact hfinished.counts
  · rintro answers states hstart hnext ⟨t₀, hlate⟩
    have hinv : ∀ t, Inv backends (states t) := by
      intro t
      induction t with
      | zero =>
          rw [hstart]
          exact start_inv backends
      | succ t ih => exact next_inv hn ih (hnext t)
    exact returns_of_late hinv (fun t => eq_step_of_next (hnext t)) hlate

/-- One backend is refused at once, two are under way; the pipe is read, one of them fails, the
wait is interrupted and then the time is over. -/
def sampleInputs : List Input :=
  [⟨.registered 7, 0, .failed⟩, ⟨.refused 8, 0, .failed⟩, ⟨.registered 8, 0, .failed⟩,
    ⟨.noSocket, 100, .failed⟩,
    ⟨.noSocket, 110, .events [⟨adminSentinel, 0, [10]⟩, ⟨2, 111, []⟩]⟩,
    ⟨.noSocket, 110, .failed⟩, ⟨.noSocket, 110, .failed⟩, ⟨.noSocket, 110, .failed⟩,
    ⟨.noSocket, 120, .interrupted⟩, ⟨.noSocket, 600, .failed⟩]

def sampleManager : Manager :=
  runOps backendManagerCreate [.add 0x0b00000a 80, .add 0x0c00000a 80, .add 0x0d00000a 80]

theorem one_result_per_backend_mixed :
    let backends := backendManagerSnapshotAll sampleManager backendMax
    ∃ r, sampleInputs.foldlM (next 500 backends) (start backends) = some r ∧
      r.pc = .returned ∧ closesOf 0 r.acts = socketsOf 0 r.acts ∧
      ∀ b, backends[0]? = some b → ∃ ok, resultsOf 0 r.acts = [(b.id, ok)] := by
  intro backends
  have hrun : (sampleInputs.foldlM (next 500 backends) (start backends)).any (fun r =>
      r.pc = .returned ∧ r.aborted = false) = true := by decide +kernel
  obtain ⟨r, hr, hstate⟩ := Option.any_eq_true .. |>.mp hrun
  obtain ⟨hpc, hnot⟩ := of_decide_eq_true hstate
  obtain ⟨-, -, -, -, hreturned⟩ := (one_result_per_backend 500 sampleManager).1 sampleInputs r hr
  obtain ⟨hclosed, hresult, -⟩ := hreturned hpc 0
  exact ⟨r, hr, hpc, hclosed, hresult hnot⟩

end MaglevLb.ProbeRound
