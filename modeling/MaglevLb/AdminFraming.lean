import MaglevLb.AdminPipe

/-!
# Lines of the administration pipe

`process_admin_fifo` collects bytes until a newline comes or the buffer is full. A
full buffer is emptied and the line goes on filling it, so of an overlong line only
the last bytes, less than 128 of them, are left when its newline comes, and they are
handed over as if they were a line. How the reads cut the stream does not matter.
-/
namespace MaglevLb.AdminFraming

open PacketFormat Maglev BackendManager TableGenerator HealthChecker LoadBalancer AdminPipe
open Datapath (DatapathConfig sampleHashes sampleConfig sampleKey sampleSize)

/-- What is handed over while some bytes are read. -/
def framesOf : List UInt8 → List UInt8 → List (List UInt8)
  | _, [] => []
  | buf, c :: bytes => (frameByte buf c).2.toList ++ framesOf (frameByte buf c).1 bytes

/-- The buffer after them. -/
def unfinished (buf bytes : List UInt8) : List UInt8 :=
  bytes.foldl (fun buf c => (frameByte buf c).1) buf

variable {n b : ℕ} {H : Hashes} {cfg : DatapathConfig} {buf line : List UInt8}

theorem adminByte_eq (growOk : Bool) (p : Process n b) (c : UInt8) :
    adminByte H cfg growOk p c =
      ⟨LoadBalancer.run H cfg p.sys
          ((frameByte p.adminBuf c).2.toList.map fun line => .admin (cString line) growOk),
        (frameByte p.adminBuf c).1⟩ := by
  unfold adminByte
  cases (frameByte p.adminBuf c).2 <;> rfl

/-- Every buffer that is handed over is one call of `handle_admin_line`, in this order, and
nothing else happens. -/
theorem processAdminFifo_eq (growOk : Bool) (p : Process n b) (bytes : List UInt8) :
    processAdminFifo H cfg growOk p bytes =
      ⟨LoadBalancer.run H cfg p.sys
          ((framesOf p.adminBuf bytes).map fun line => .admin (cString line) growOk),
        unfinished p.adminBuf bytes⟩ := by
  unfold processAdminFifo
  induction bytes generalizing p with
  | nil => rfl
  | cons c bytes ih =>
      rw [List.foldl_cons, ih, adminByte_eq, framesOf, List.map_append, LoadBalancer.run,
        EventRun.run_append]
      rfl

theorem framesOf_append (buf bytes bytes' : List UInt8) :
    framesOf buf (bytes ++ bytes') =
      framesOf buf bytes ++ framesOf (unfinished buf bytes) bytes' := by
  induction bytes generalizing buf with
  | nil => rfl
  | cons c bytes ih =>
      rw [List.cons_append, framesOf, ih, framesOf, List.append_assoc]
      rfl

/-! ### The stream as lines -/

/-- The lines of a stream that a newline ends. -/
def terminated (stream : List UInt8) : List (List UInt8) := (stream.splitOn 10).dropLast

/-- What the buffer holds of a line at its end. -/
def residue (line : List UInt8) : List UInt8 :=
  line.drop (adminLineMax * (line.length / adminLineMax))

theorem length_residue (line : List UInt8) :
    (residue line).length = line.length % adminLineMax := by
  rw [residue, List.length_drop, Nat.mod_def]

theorem residue_eq_self (h : line.length < adminLineMax) : residue line = line := by
  rw [residue, Nat.div_eq_of_lt h, Nat.mul_zero, List.drop_zero]

/-- One more byte of a line: it goes behind the others, or a full buffer is emptied. -/
theorem residue_concat {c : UInt8} : residue (line ++ [c]) =
    if (residue line).length + 1 < adminLineMax then residue line ++ [c] else [] := by
  have hlen := length_residue line
  have hmod := Nat.div_add_mod line.length adminLineMax
  have hlt : line.length % adminLineMax < adminLineMax := Nat.mod_lt _ (by decide)
  rw [hlen]
  split
  · next hroom =>
      have hdiv : (line.length + 1) / adminLineMax = line.length / adminLineMax := by
        unfold adminLineMax at *
        omega
      rw [residue, List.length_append, List.length_singleton, hdiv, List.drop_append_of_le_length,
        residue]
      omega
  · next hfull =>
      apply List.eq_nil_of_length_eq_zero
      rw [length_residue, List.length_append, List.length_singleton]
      unfold adminLineMax at *
      omega

/-- The bytes of a line that has not ended leave its residue in the buffer. -/
theorem unfinished_line (h : (10 : UInt8) ∉ line) :
    framesOf [] line = [] ∧ unfinished [] line = residue line := by
  induction line using List.reverseRecOn with
  | nil => exact ⟨rfl, rfl⟩
  | append_singleton line c ih =>
      rw [List.mem_append, not_or, List.mem_singleton] at h
      obtain ⟨hframes, hbuf⟩ := ih h.1
      have hstep : frameByte (residue line) c = (residue (line ++ [c]), none) := by
        rw [frameByte, if_neg (Ne.symm h.2), residue_concat]
        split <;> rfl
      constructor
      · rw [framesOf_append, hframes, hbuf, framesOf, hstep]
        rfl
      · rw [unfinished, List.foldl_concat, ← unfinished, hbuf, hstep]

/-- A line and its newline. -/
theorem framesOf_line (h : (10 : UInt8) ∉ line) (rest : List UInt8) :
    framesOf [] (line ++ 10 :: rest) =
      (if residue line = [] then [] else [residue line]) ++ framesOf [] rest := by
  obtain ⟨hframes, hbuf⟩ := unfinished_line h
  rw [framesOf_append, hframes, hbuf, List.nil_append, framesOf, frameByte, if_pos rfl]
  split <;> rfl

/-- Of every line that ends, the residue is handed over unless it is empty. -/
theorem framesOf_eq (stream : List UInt8) :
    framesOf [] stream = ((terminated stream).map residue).filter (· ≠ []) := by
  induction hn : stream.length using Nat.strong_induction_on generalizing stream with
  | _ n ih =>
      by_cases hend : (10 : UInt8) ∈ stream
      · obtain ⟨line, rest, rfl, hline⟩ := List.eq_append_cons_of_mem hend
        have hrest := ih rest.length (by simp at hn; omega) rest rfl
        have hsplit : terminated (line ++ 10 :: rest) = line :: terminated rest := by
          rw [terminated, List.splitOn_append_cons_self_of_not_mem hline,
            List.dropLast_cons_of_ne_nil (List.splitOn_ne_nil _ _), terminated]
        rw [framesOf_line hline, hrest, hsplit, List.map_cons]
        by_cases hres : residue line = []
        · rw [if_pos hres, List.filter_cons_of_neg (by simpa using hres), List.nil_append]
        · rw [if_neg hres, List.filter_cons_of_pos (by simpa using hres), List.singleton_append]
      · rw [(unfinished_line hend).1, terminated, List.splitOn_eq_singleton hend]
        rfl

/-! ### Whole runs -/

/-- A turn of maglev-lb: one read of the pipe, or something that is no line of it. -/
inductive Turn where
  | read (growOk : Bool) (chunk : List UInt8)
  | other (e : LoadBalancer.Event) (noLine : ∀ line growOk, e ≠ .admin line growOk)

def turn (H : Hashes) (cfg : DatapathConfig) (p : Process n b) : Turn → Process n b
  | .read growOk chunk => processAdminFifo H cfg growOk p chunk
  | .other e _ => { p with sys := LoadBalancer.step H cfg p.sys e }

/-- Everything the turns wrote to the pipe, as one stream. -/
def stream (turns : List Turn) : List UInt8 :=
  turns.flatMap fun
    | .read _ chunk => chunk
    | .other _ _ => []

inductive Call where
  | handleAdminLine (line : List UInt8) (growOk : Bool)
  | other (e : LoadBalancer.Event)

def Call.perform (H : Hashes) (cfg : DatapathConfig) (s : System n b) : Call → System n b
  | .handleAdminLine line growOk => LoadBalancer.step H cfg s (.admin (cString line) growOk)
  | .other e => LoadBalancer.step H cfg s e

/-- The calls that some turns make. -/
def callsOf : List UInt8 → List Turn → List Call
  | _, [] => []
  | buf, .read growOk chunk :: turns =>
      (framesOf buf chunk).map (.handleAdminLine · growOk) ++ callsOf (unfinished buf chunk) turns
  | buf, .other e _ :: turns => .other e :: callsOf buf turns

/-- The lines `handle_admin_line` is called with. -/
def handled (calls : List Call) : List (List UInt8) :=
  calls.filterMap fun
    | .handleAdminLine line _ => some line
    | .other _ => none

theorem perform_lines (growOk : Bool) (s : System n b) (lines : List (List UInt8)) :
    (lines.map (.handleAdminLine · growOk)).foldl (Call.perform H cfg) s =
      LoadBalancer.run H cfg s (lines.map fun line => .admin (cString line) growOk) := by
  rw [LoadBalancer.run, EventRun.run, List.foldl_map, List.foldl_map]
  rfl

theorem handled_lines (growOk : Bool) (lines : List (List UInt8)) :
    handled (lines.map (.handleAdminLine · growOk)) = lines := by
  rw [handled, List.filterMap_map]
  exact List.filterMap_some

theorem foldl_turn (p : Process n b) (turns : List Turn) :
    (turns.foldl (turn H cfg) p).sys =
      (callsOf p.adminBuf turns).foldl (Call.perform H cfg) p.sys := by
  induction turns generalizing p with
  | nil => rfl
  | cons t turns ih =>
      rw [List.foldl_cons, ih]
      cases t with
      | read growOk chunk =>
          rw [callsOf, List.foldl_append, perform_lines, turn, processAdminFifo_eq]
      | other e noLine => rfl

/-- Where the reads cut the stream, and what happens between them, makes no difference. -/
theorem handled_callsOf (buf : List UInt8) (turns : List Turn) :
    handled (callsOf buf turns) = framesOf buf (stream turns) := by
  induction turns generalizing buf with
  | nil => rfl
  | cons t turns ih =>
      cases t with
      | read growOk chunk =>
          have hstream : stream (.read growOk chunk :: turns) = chunk ++ stream turns := rfl
          rw [hstream, framesOf_append, ← ih, callsOf, handled, List.filterMap_append]
          exact congrArg (· ++ _) (handled_lines growOk _)
      | other e noLine => exact ih buf

theorem residue_ne_nil : residue line ≠ [] ↔ ¬ adminLineMax ∣ line.length := by
  rw [ne_eq, ← List.length_eq_zero_iff, length_residue, Nat.dvd_iff_mod_eq_zero]

/-- The lines of 1 to 127 bytes come out unchanged and alone exactly when no longer line
leaves a rest. -/
theorem residues_eq_iff (lines : List (List UInt8)) :
    ((lines.map residue).filter (· ≠ []) =
        lines.filter fun line => 0 < line.length ∧ line.length < adminLineMax) ↔
      ∀ line ∈ lines, line.length < adminLineMax ∨ adminLineMax ∣ line.length := by
  have hkept : ∀ line : List UInt8, 0 < line.length ∧ line.length < adminLineMax →
      residue line ≠ [] := by
    intro line h
    rw [residue_eq_self h.2]
    exact List.ne_nil_of_length_pos h.1
  have hmap : (lines.map residue).filter (· ≠ []) =
      (lines.filter fun line => residue line ≠ []).map residue := List.filter_map
  rw [hmap]
  constructor
  · intro h line hline
    -- as many lines leave a residue as have a length in range, so they are the same lines
    have hsub : (lines.filter fun line => 0 < line.length ∧ line.length < adminLineMax).Sublist
        (lines.filter fun line => residue line ≠ []) :=
      List.monotone_filter_right lines fun line h => by simpa using hkept line (by simpa using h)
    have hsame := hsub.eq_of_length (by rw [← h, List.length_map])
    rw [or_iff_not_imp_right]
    intro hrest
    have hmem : line ∈ lines.filter fun line => residue line ≠ [] :=
      List.mem_filter.mpr ⟨hline, by simpa using residue_ne_nil.mpr hrest⟩
    rw [← hsame, List.mem_filter, decide_eq_true_eq] at hmem
    exact hmem.2.2
  · intro h
    have hsame : (lines.filter fun line => residue line ≠ []) =
        lines.filter fun line => 0 < line.length ∧ line.length < adminLineMax := by
      apply List.filter_congr
      intro line hline
      rw [decide_eq_decide]
      refine ⟨fun hres => ?_, hkept line⟩
      have hshort := (h line hline).resolve_right (residue_ne_nil.mp hres)
      rw [residue_eq_self hshort] at hres
      exact ⟨List.length_pos_of_ne_nil hres, hshort⟩
    rw [hsame]
    refine (List.map_congr_left fun line hline => ?_).trans (List.map_id _)
    rw [List.mem_filter, decide_eq_true_eq] at hline
    exact residue_eq_self hline.2.2

/-- The calls of `handle_admin_line` over any run of maglev-lb. They are the non-empty residues
of the lines that ended, and they are exactly the lines of 1 to 127 bytes if and only if
no longer line has a length that 128 does not divide. -/
theorem lines_framed (H : Hashes) (cfg : DatapathConfig) (s : System n b) (turns : List Turn) :
    let calls := callsOf [] turns
    let lines := terminated (stream turns)
    (turns.foldl (turn H cfg) ⟨s, []⟩).sys = calls.foldl (Call.perform H cfg) s ∧
      handled calls = (lines.map residue).filter (· ≠ []) ∧
      ((handled calls = lines.filter fun line => 0 < line.length ∧ line.length < adminLineMax) ↔
        ∀ line ∈ lines, line.length < adminLineMax ∨ adminLineMax ∣ line.length) := by
  have hcalls : handled (callsOf [] turns) =
      ((terminated (stream turns)).map residue).filter (· ≠ []) := by
    rw [handled_callsOf, framesOf_eq]
  refine ⟨foldl_turn ⟨s, []⟩ turns, hcalls, ?_⟩
  rw [hcalls]
  exact residues_eq_iff _

/-- The bytes of an overlong line, and DRAIN 0 at its end. -/
def overlongDrain : List UInt8 := List.replicate 128 120 ++ drainVerb ++ [32, 48]

/-- One line of 135 bytes is written, and backend 0 is drained. -/
theorem overlong_tail_drains :
    let s : System 2 4 := start sampleHashes sampleSize [.add 0x0b00000a 80, .add 0x0c00000a 80]
      ⟨2, 2⟩ ⟨2, rfl⟩ (fun _ => ⟨sampleKey, 0, 0⟩) 2
    let turns : List Turn := [.read true (overlongDrain ++ [10])]
    terminated (stream turns) = [overlongDrain] ∧ overlongDrain.length = 135 ∧
      handled (callsOf [] turns) = [drainVerb ++ [32, 48]] ∧
      adminStates s.cp.bm 0 = some .enabled ∧
      adminStates (turns.foldl (turn sampleHashes sampleConfig) ⟨s, []⟩).sys.cp.bm 0 =
        some .draining := by
  decide +kernel

end MaglevLb.AdminFraming
