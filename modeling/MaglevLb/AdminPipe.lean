import MaglevLb.Children
import MaglevLb.LineText
import MaglevLb.LoadBalancer

/-!
# The administration pipe

The bridge writes one line for each command, and maglev-lb puts the lines
together again from whatever its reads return. Of a running maglev-lb only the
unfinished line and the administrative states matter here; packets, probes and
sweeps change neither.
-/
namespace MaglevLb.AdminPipe

open Children PacketFormat Maglev BackendManager TableGenerator HealthChecker LoadBalancer LineText
open Datapath (DatapathConfig)

/-! ### Administrative states -/

/-- What `find_slot` has under each id. -/
abbrev States := UInt32 → Option AdminState

def adminStates (bm : Manager) : States := fun id => (findSlot bm id).map Backend.adminState

/-- An id that is not there stays so. -/
def States.set (states : States) (id : UInt32) (state : AdminState) : States :=
  fun k => if k = id then (states k).map fun _ => state else states k

def States.obey (states : States) (line : List UInt8) : States :=
  match parseAdminLine line with
  | none => states
  | some (id, state) => states.set id state

theorem adminStates_setAdminState (bm : Manager) (id : UInt32) (state : AdminState) :
    adminStates (backendManagerSetAdminState bm id state).1 = (adminStates bm).set id state := by
  funext k
  rw [adminStates, backendManagerSetAdminState, read_updateBackend_of_set (x := state)]
  · rfl
  · exact fun _ => rfl
  · exact fun _ => rfl
  · exact fun b hb => by simpa using hb

theorem adminStates_setHealth (bm : Manager) (id : UInt32) (healthy : Bool) :
    adminStates (backendManagerSetHealth bm id healthy).1 = adminStates bm := by
  funext k
  rw [adminStates, backendManagerSetHealth, read_updateBackend_of_kept]
  · rfl
  · exact fun _ => rfl
  · exact fun _ => rfl

variable {n b : ℕ} {H : Hashes} {cfg : DatapathConfig}

/-- The administrative states of a running maglev-lb change with a line of the
pipe only. -/
theorem step_adminStates (s : System n b) (e : LoadBalancer.Event) :
    adminStates (LoadBalancer.step H cfg s e).cp.bm =
      match e with
      | .admin line _ => (adminStates s.cp.bm).obey line
      | _ => adminStates s.cp.bm := by
  rw [LoadBalancer.step_bm]
  cases e with
  | packet frame now sent => rfl
  | tick now => rfl
  | probe backendId ok growOk =>
      unfold LoadBalancer.managerCall
      dsimp only
      cases (recordResult s.hc backendId ok).2.setHealth with
      | none => rfl
      | some healthy => exact adminStates_setHealth s.cp.bm backendId healthy
  | admin line growOk =>
      unfold LoadBalancer.managerCall States.obey
      dsimp only
      cases parseAdminLine line with
      | none => rfl
      | some command => exact adminStates_setAdminState s.cp.bm _ _

/-! ### The reading end -/

/-- `HC_ADMIN_LINE_MAX` -/
def adminLineMax : ℕ := 128

structure Process (n b : ℕ) where
  sys : System n b
  adminBuf : List UInt8

/-- What a buffer holds as a string. -/
def cString (buf : List UInt8) : List UInt8 := buf.takeWhile (· ≠ 0)

/-- One byte: the buffer afterwards, and what is handed to `handle_admin_line`. -/
def frameByte (buf : List UInt8) (c : UInt8) : List UInt8 × Option (List UInt8) :=
  if c = 10 then ([], if buf = [] then none else some buf)
  else if buf.length + 1 < adminLineMax then (buf ++ [c], none)
  else ([], none)

def adminByte (H : Hashes) (cfg : DatapathConfig) (growOk : Bool) (p : Process n b) (c : UInt8) :
    Process n b where
  sys :=
    match (frameByte p.adminBuf c).2 with
    | none => p.sys
    | some line => LoadBalancer.step H cfg p.sys (.admin (cString line) growOk)
  adminBuf := (frameByte p.adminBuf c).1

/-- `process_admin_fifo` on the bytes that its reads return. -/
def processAdminFifo (H : Hashes) (cfg : DatapathConfig) (growOk : Bool) (p : Process n b)
    (bytes : List UInt8) : Process n b :=
  bytes.foldl (adminByte H cfg growOk) p

/-- The unfinished line and the administrative states. -/
structure View where
  buf : List UInt8
  states : States

def Process.view (p : Process n b) : View := ⟨p.adminBuf, adminStates p.sys.cp.bm⟩

def View.read (v : View) (c : UInt8) : View where
  buf := (frameByte v.buf c).1
  states :=
    match (frameByte v.buf c).2 with
    | none => v.states
    | some line => v.states.obey (cString line)

def View.readAll (v : View) (bytes : List UInt8) : View := bytes.foldl View.read v

theorem adminByte_view (growOk : Bool) (p : Process n b) (c : UInt8) :
    (adminByte H cfg growOk p c).view = p.view.read c := by
  unfold adminByte View.read Process.view
  dsimp only
  cases (frameByte p.adminBuf c).2 with
  | none => rfl
  | some line => exact congrArg (View.mk _) (step_adminStates p.sys _)

theorem processAdminFifo_view (growOk : Bool) (p : Process n b) (bytes : List UInt8) :
    (processAdminFifo H cfg growOk p bytes).view = p.view.readAll bytes := by
  unfold processAdminFifo View.readAll
  induction bytes generalizing p with
  | nil => rfl
  | cons c bytes ih => rw [List.foldl_cons, List.foldl_cons, ih, adminByte_view]

theorem View.readAll_append (v : View) (bytes bytes' : List UInt8) :
    v.readAll (bytes ++ bytes') = (v.readAll bytes).readAll bytes' :=
  List.foldl_append

/-- The bytes of a line that has not ended go to the buffer. -/
theorem readAll_unfinished {buf text : List UInt8} {states : States} (hline : ∀ c ∈ text, c ≠ 10)
    (hroom : buf.length + text.length < adminLineMax) :
    View.readAll ⟨buf, states⟩ text = ⟨buf ++ text, states⟩ := by
  induction text generalizing buf with
  | nil => rw [List.append_nil]; rfl
  | cons c text ih =>
      rw [List.length_cons] at hroom
      have hread : View.read ⟨buf, states⟩ c = ⟨buf ++ [c], states⟩ := by
        rw [View.read, frameByte, if_neg (hline c List.mem_cons_self), if_pos]
        dsimp only
        omega
      have hlen : (buf ++ [c]).length + text.length < adminLineMax := by
        rw [List.length_append, List.length_singleton]
        omega
      have hrest := ih (fun x hx => hline x (List.mem_cons_of_mem _ hx)) hlen
      rw [View.readAll, List.foldl_cons, hread]
      rw [View.readAll] at hrest
      rw [hrest, List.append_assoc]
      rfl

theorem readAll_line {line : List UInt8} {states : States} (hne : line ≠ [])
    (hline : ∀ c ∈ line, c ≠ 10 ∧ c ≠ 0) (hroom : line.length < adminLineMax) :
    View.readAll ⟨[], states⟩ (line ++ [10]) = ⟨[], states.obey line⟩ := by
  have hbuf : View.readAll ⟨[], states⟩ line = ⟨line, states⟩ :=
    readAll_unfinished (fun c hc => (hline c hc).1) (by simpa using hroom)
  have hstring : cString line = line := by
    rw [cString, List.takeWhile_eq_self_iff]
    exact fun c hc => by simpa using (hline c hc).2
  rw [View.readAll_append, hbuf]
  change View.read ⟨line, states⟩ 10 = _
  rw [View.read, frameByte, if_pos rfl, if_neg hne]
  dsimp only
  rw [hstring]

/-! ### The writing end -/

def verbWord : Verb → List UInt8
  | .drain => drainVerb
  | .undrain => undrainVerb

def verbState : Verb → AdminState
  | .drain => .draining
  | .undrain => .enabled

/-- The byte of an ASCII character. -/
def asciiByte (c : Char) : UInt8 := UInt8.ofNat c.toNat

def decimalBytes (k : ℕ) : List UInt8 := (natText k).map asciiByte

/-- The line `admin` writes, without its end. -/
def adminLine (verb : Verb) (lbId : ℕ) : List UInt8 := verbWord verb ++ 32 :: decimalBytes lbId

theorem asciiByte_toNat {c : Char} (h : c.isDigit = true) : (asciiByte c).toNat = c.toNat := by
  have hc := digit_toNat h
  rw [asciiByte, UInt8.toNat_ofNat_of_lt']
  change c.toNat < 256
  omega

theorem isDigit_asciiByte {c : Char} (h : c.isDigit = true) : isDigit (asciiByte c) = true := by
  have hc := digit_toNat h
  have hb := asciiByte_toNat h
  rw [isDigit, Bool.and_eq_true, decide_eq_true_eq, decide_eq_true_eq, UInt8.le_iff_toNat_le,
    UInt8.le_iff_toNat_le, hb]
  exact hc

theorem isDigit_of_mem_decimalBytes {k : ℕ} {x : UInt8} (h : x ∈ decimalBytes k) :
    isDigit x = true := by
  obtain ⟨c, hc, rfl⟩ := List.mem_map.mp h
  exact isDigit_asciiByte (isDigit_of_mem_natText hc)

theorem decimal_map_asciiByte {l : List Char} (h : ∀ c ∈ l, c.isDigit = true) (init : ℕ) :
    (l.map asciiByte).foldl (fun v d => v * 10 + (d - 48).toNat) init =
      Nat.ofDigitChars 10 l init := by
  induction l generalizing init with
  | nil => rfl
  | cons c l ih =>
      have hc := h c List.mem_cons_self
      have hsub : (asciiByte c - 48).toNat = c.toNat - '0'.toNat := by
        rw [UInt8.toNat_sub_of_le, asciiByte_toNat hc]
        · rfl
        · rw [UInt8.le_iff_toNat_le, asciiByte_toNat hc]
          exact (digit_toNat hc).1
      rw [List.map_cons, List.foldl_cons, ih fun x hx => h x (List.mem_cons_of_mem _ hx),
        Nat.ofDigitChars_cons, hsub, Nat.mul_comm]

theorem decimal_decimalBytes (k : ℕ) : decimal (decimalBytes k) = k := by
  have hdigits : ∀ c ∈ natText k, c.isDigit = true := fun c hc => isDigit_of_mem_natText hc
  rw [decimal, decimalBytes, decimal_map_asciiByte hdigits]
  exact Nat.ofDigitChars_toDigits (by decide) (by decide)

theorem isSpace_of_isDigit {x : UInt8} (h : isDigit x = true) : isSpace x = false := by
  simp only [isDigit, Bool.and_eq_true, decide_eq_true_eq, UInt8.le_iff_toNat_le] at h
  have h48 : (48 : UInt8).toNat = 48 := rfl
  have h13 : (13 : UInt8).toNat = 13 := rfl
  simp only [isSpace, Bool.or_eq_false_iff, beq_eq_false_iff_ne, Bool.and_eq_false_iff,
    decide_eq_false_iff_not, UInt8.le_iff_toNat_le]
  constructor
  · rintro rfl
    exact absurd h.1 (by decide)
  · omega

/-- A number that `%lu` can hold is read back. -/
theorem scanUnsignedLong_decimalBytes {k : ℕ} (h : k < 2 ^ 64) :
    scanUnsignedLong (32 :: decimalBytes k) = some (UInt64.ofNat k) := by
  have hdigits : ∀ x ∈ decimalBytes k, isDigit x = true := fun _ => isDigit_of_mem_decimalBytes
  have hdec := decimal_decimalBytes k
  have hne : decimalBytes k ≠ [] := by
    rw [decimalBytes, ne_eq, List.map_eq_nil_iff]
    exact natText_ne_nil k
  generalize decimalBytes k = ds at hdigits hdec hne
  have hall : ds.takeWhile isDigit = ds := List.takeWhile_eq_self_iff.mpr hdigits
  cases ds with
  | nil => exact absurd rfl hne
  | cons x ds =>
      have hx := hdigits x List.mem_cons_self
      have hdrop : (32 :: x :: ds).dropWhile isSpace = x :: ds := by
        rw [List.dropWhile_cons_of_pos (by rfl), List.dropWhile_cons_of_neg]
        simp [isSpace_of_isDigit hx]
      unfold scanUnsignedLong
      dsimp only
      rw [hdrop]
      -- a digit is no sign
      split
      · next he =>
          cases he
          cases hx
      · next he =>
          cases he
          cases hx
      · rw [hall, hdec, if_neg hne, if_neg (by omega)]
        rfl

theorem scanWord_verbWord (verb : Verb) (rest : List UInt8) :
    scanWord 15 (verbWord verb ++ 32 :: rest) = some (verbWord verb, 32 :: rest) := by
  cases verb <;> rfl

/-- What the bridge writes is what maglev-lb is asked for. -/
theorem parseAdminLine_adminLine (verb : Verb) {lbId : ℕ} (h : lbId < 2 ^ 64) :
    parseAdminLine (adminLine verb lbId) = some (UInt32.ofNat lbId, verbState verb) := by
  have hid : (UInt64.ofNat lbId).toUInt32 = UInt32.ofNat lbId := by
    simp
  rw [parseAdminLine, adminLine, scanWord_verbWord]
  dsimp only
  rw [scanUnsignedLong_decimalBytes h]
  dsimp only
  rw [hid]
  cases verb <;> rfl

/-- All that `admin` writes for some commands of the executor. -/
def adminBytes (calls : List (Moment × Call)) : List UInt8 :=
  calls.flatMap fun e =>
    match e.2 with
    | .admin verb lbId => adminLine verb lbId ++ [10]
    | _ => []

theorem adminLine_bytes {verb : Verb} {lbId : ℕ} {x : UInt8} (h : x ∈ adminLine verb lbId) :
    x ≠ 10 ∧ x ≠ 0 := by
  rcases List.mem_append.mp h with h | h
  · have hword : (verbWord verb).all (fun y => y ≠ 10 ∧ y ≠ 0) = true := by cases verb <;> decide
    exact of_decide_eq_true (List.all_eq_true.mp hword x h)
  · rcases List.mem_cons.mp h with rfl | h
    · decide
    · have hdigit := isDigit_of_mem_decimalBytes h
      constructor
      · rintro rfl
        cases hdigit
      · rintro rfl
        cases hdigit

theorem length_adminLine {verb : Verb} {lbId : ℕ} (h : lbId < 2 ^ 64) :
    (adminLine verb lbId).length < adminLineMax := by
  have hword : (verbWord verb).length ≤ 7 := by cases verb <;> decide
  have hdigits : (natText lbId).length ≤ 20 := length_natText_le (by decide) (h.trans (by decide))
  rw [adminLine, decimalBytes, List.length_append, List.length_cons, List.length_map, adminLineMax]
  omega

/-- A command of the executor as maglev-lb carries it out. -/
def States.command (states : States) (e : Moment × Call) : States :=
  match e.2 with
  | .admin verb lbId => states.set (UInt32.ofNat lbId) (verbState verb)
  | _ => states

/-- The bytes of some commands, read from the start of a line, are those commands. -/
theorem readAll_adminBytes {calls : List (Moment × Call)} {states : States}
    (h : ∀ e ∈ calls, ∀ verb lbId, e.2 = .admin verb lbId → lbId < 2 ^ 64) :
    View.readAll ⟨[], states⟩ (adminBytes calls) = ⟨[], calls.foldl States.command states⟩ := by
  induction calls generalizing states with
  | nil => rfl
  | cons e calls ih =>
      have hone : View.readAll ⟨[], states⟩ (match e.2 with
          | .admin verb lbId => adminLine verb lbId ++ [10]
          | _ => []) = ⟨[], states.command e⟩ := by
        rw [States.command]
        split
        · next verb lbId he =>
            have hid := h e List.mem_cons_self verb lbId he
            rw [readAll_line _ (fun _ => adminLine_bytes) (length_adminLine hid), States.obey,
              parseAdminLine_adminLine verb hid]
            rw [adminLine]
            simp
        · rfl
      rw [adminBytes, List.flatMap_cons, View.readAll_append, hone, List.foldl_cons, ← adminBytes]
      exact ih fun x hx => h x (List.mem_cons_of_mem _ hx)

end MaglevLb.AdminPipe
