import MaglevLb.AdminPipe
import MaglevLb.CLibrary

/-!
# Which backend a line of the pipe reaches

`handle_admin_line` scans a word and an `unsigned long` and narrows the number to 32
bits. What it then does is confined to one backend, but the backend is the one that the
line names only if its second field is a plain numeral below 2³².
-/
namespace MaglevLb.AdminCommand

open PacketFormat Maglev BackendManager TableGenerator HealthChecker LoadBalancer AdminPipe
open CLibrary (splitSign splitSign_cons)
open Datapath (sampleHashes sampleSize)

/-! ### Fields of a line -/

/-- The first field of a text, between white space. -/
def field (s : List UInt8) : List UInt8 := (s.dropWhile isSpace).takeWhile fun c => !isSpace c

def afterField (s : List UInt8) : List UInt8 :=
  (s.dropWhile isSpace).dropWhile fun c => !isSpace c

def secondField (line : List UInt8) : List UInt8 := field (afterField line)

/-- An unsigned decimal numeral. -/
def Numeral (w : List UInt8) : Prop := w ≠ [] ∧ ∀ c ∈ w, isDigit c = true

/-- The line is DRAIN or UNDRAIN and a numeral of value `k`. -/
def Names (line : List UInt8) (k : UInt32) : Prop :=
  (field line = drainVerb ∨ field line = undrainVerb) ∧
    Numeral (secondField line) ∧ decimal (secondField line) = k.toNat

variable {line s w : List UInt8} {k : UInt32}

/-! ### The scan in terms of the fields -/

/-- The digits `%lu` reads in a field. -/
def digitsOf (w : List UInt8) : List UInt8 := (splitSign w).2.takeWhile isDigit

theorem splitSign_takeWhile (t : List UInt8) :
    splitSign (t.takeWhile fun c => !isSpace c) =
      ((splitSign t).1, (splitSign t).2.takeWhile fun c => !isSpace c) := by
  cases t with
  | nil => rfl
  | cons c t =>
      by_cases hplus : c = 43
      · subst hplus
        rfl
      · by_cases hminus : c = 45
        · subst hminus
          rfl
        · rw [splitSign_cons hplus hminus]
          cases hc : isSpace c with
          | true =>
              rw [List.takeWhile_cons_of_neg (by simp [hc])]
              rfl
          | false =>
              rw [List.takeWhile_cons_of_pos (by simp [hc]), splitSign_cons hplus hminus]

theorem takeWhile_isDigit (t : List UInt8) :
    (t.takeWhile fun c => !isSpace c).takeWhile isDigit = t.takeWhile isDigit := by
  rw [List.takeWhile_takeWhile]
  congr 1
  funext c
  cases hc : isDigit c with
  | false => simp
  | true => simp [isSpace_of_isDigit hc]

/-- `%lu` stops at the end of the field, or before. -/
theorem scanUnsignedLong_eq (s : List UInt8) :
    scanUnsignedLong s =
      if digitsOf (field s) = [] then none
      else if decimal (digitsOf (field s)) ≥ 2 ^ 64 then some 0xFFFFFFFFFFFFFFFF
      else some (if (splitSign (field s)).1 then -UInt64.ofNat (decimal (digitsOf (field s)))
        else UInt64.ofNat (decimal (digitsOf (field s)))) := by
  rw [digitsOf, field, splitSign_takeWhile, takeWhile_isDigit]
  rfl

theorem digitsOf_numeral (h : Numeral w) : splitSign w = (false, w) ∧ digitsOf w = w := by
  obtain ⟨hne, hdigits⟩ := h
  have hsign : splitSign w = (false, w) := by
    cases w with
    | nil => exact absurd rfl hne
    | cons c w =>
        have hc := hdigits c List.mem_cons_self
        apply splitSign_cons
        · rintro rfl
          cases hc
        · rintro rfl
          cases hc
  refine ⟨hsign, ?_⟩
  rw [digitsOf, hsign, List.takeWhile_eq_self_iff]
  exact hdigits

theorem scanWord_eq (line : List UInt8) :
    scanWord 15 line =
      if field line = [] then none
      else some ((field line).take 15,
        (line.dropWhile isSpace).drop ((field line).take 15).length) := by
  have hnil : (field line).take 15 = [] ↔ field line = [] := by
    rw [List.take_eq_nil_iff]
    simp
  unfold scanWord
  dsimp only
  rw [← field, if_congr hnil rfl rfl]

theorem eq_of_take_eq {v : List UInt8} (hv : v.length < 15) (h : w.take 15 = v) : w = v := by
  have hlen := congrArg List.length h
  rw [List.length_take] at hlen
  rw [← h, List.take_of_length_le]
  omega

theorem drop_field (line : List UInt8) :
    (line.dropWhile isSpace).drop (field line).length = afterField line := by
  have happend : line.dropWhile isSpace = field line ++ afterField line :=
    List.takeWhile_append_dropWhile.symm
  rw [happend, List.drop_left]

/-- A word that the scan cuts off after 15 bytes is neither of the two verbs. -/
theorem parseAdminLine_eq (line : List UInt8) :
    parseAdminLine line =
      if field line = drainVerb then
        (scanUnsignedLong (afterField line)).map fun id => (id.toUInt32, .draining)
      else if field line = undrainVerb then
        (scanUnsignedLong (afterField line)).map fun id => (id.toUInt32, .enabled)
      else none := by
  unfold parseAdminLine
  rw [scanWord_eq]
  by_cases hdrain : field line = drainVerb
  · have hrest := drop_field line
    rw [hdrain] at hrest ⊢
    rw [if_pos rfl, if_neg (by decide), List.take_of_length_le (by decide), hrest]
    dsimp only
    cases scanUnsignedLong (afterField line) <;> rfl
  · by_cases hundrain : field line = undrainVerb
    · have hrest := drop_field line
      rw [hundrain] at hrest ⊢
      rw [if_neg (by decide), if_neg (by decide), if_pos rfl, List.take_of_length_le (by decide),
        hrest]
      dsimp only
      cases scanUnsignedLong (afterField line) <;> rfl
    · rw [if_neg hdrain, if_neg hundrain]
      have hdrain' := mt (eq_of_take_eq (w := field line) (v := drainVerb) (by decide)) hdrain
      have hundrain' := mt (eq_of_take_eq (w := field line) (v := undrainVerb) (by decide)) hundrain
      split
      · rfl
      · next heq =>
          split at heq
          · cases heq
          · cases heq
            split
            · rfl
            · rw [if_neg hdrain', if_neg hundrain']

/-! ### What a line does -/

/-- Where the administrative state of `k` differs. -/
def Changed (cp cp' : ControlPlane) (k : UInt32) : Prop :=
  adminStates cp'.bm k ≠ adminStates cp.bm k

/-- Nothing else than the administrative state in the slot of `k` differs. -/
def OnlyAdminState (k : UInt32) (bm bm' : Manager) : Prop :=
  bm'.nextId = bm.nextId ∧ bm'.subscribed = bm.subscribed ∧
    ∃ l₁ slot l₂ state, bm.slots = l₁ ++ slot :: l₂ ∧ slot.used = true ∧ slot.backend.id = k ∧
      bm'.slots = l₁ ++ { slot with backend := { slot.backend with adminState := state } } :: l₂

theorem updateBackend_stale {bm : Manager} {id : UInt32} {stale : Backend → Bool}
    {f : Backend → Backend} (h : (updateBackend bm id stale f).2 = true) :
    ∃ b, findSlot bm id = some b ∧ stale b = true := by
  unfold updateBackend at h
  split at h
  · cases h
  · next b hb =>
      split at h
      · next hstale => exact ⟨b, hb, hstale⟩
      · cases h

variable {H : Hashes} {growOk : Bool} {cp : ControlPlane} {state : AdminState}

theorem adminStates_handleAdminLine :
    adminStates (handleAdminLine H growOk cp line).bm = (adminStates cp.bm).obey line := by
  unfold handleAdminLine States.obey
  cases parseAdminLine line with
  | none => rfl
  | some c =>
      dsimp only
      rw [call_bm]
      exact adminStates_setAdminState cp.bm c.1 c.2

/-- The backend whose state changes is the one that was scanned. -/
theorem Changed.parse (h : Changed cp (handleAdminLine H growOk cp line) k) :
    ∃ state, parseAdminLine line = some (k, state) := by
  unfold Changed at h
  rw [adminStates_handleAdminLine, States.obey] at h
  cases hparse : parseAdminLine line with
  | none =>
      rw [hparse] at h
      exact absurd rfl h
  | some c =>
      rw [hparse] at h
      dsimp only [States.set] at h
      split at h
      · next hk => exact ⟨c.2, by rw [hk]⟩
      · exact absurd rfl h

theorem handleAdminLine_of_parse (H : Hashes) (growOk : Bool) (cp : ControlPlane)
    (hparse : parseAdminLine line = some (k, state)) :
    handleAdminLine H growOk cp line = cp ∨
      Changed cp (handleAdminLine H growOk cp line) k ∧
        OnlyAdminState k cp.bm (handleAdminLine H growOk cp line).bm := by
  have hcall : handleAdminLine H growOk cp line =
      (call H true growOk cp (.setAdminState k state)).1 := by
    unfold handleAdminLine
    rw [hparse]
  rcases updateBackend_cases cp.bm k (fun b => b.adminState != state)
      (fun b => { b with adminState := state }) with
    hsame | ⟨hnotify, l₁, slot, l₂, hslots, hslots', hused, hid, hnext, hsub⟩
  · left
    have happly : apply cp.bm (.setAdminState k state) = (cp.bm, false) := hsame
    rw [hcall, call, happly]
    rfl
  · right
    have hbm : (handleAdminLine H growOk cp line).bm =
        (backendManagerSetAdminState cp.bm k state).1 := by
      rw [hcall, call_bm]
      rfl
    rw [Changed, hbm]
    refine ⟨?_, hnext, hsub, l₁, slot, l₂, state, hslots, hused, hid, hslots'⟩
    obtain ⟨b, hb, hstale⟩ := updateBackend_stale hnotify
    rw [adminStates_setAdminState, States.set, if_pos rfl, adminStates, hb]
    simpa using Ne.symm (bne_iff_ne.mp hstale)

/-- A line changes one administrative state and nothing else, or it has no effect at all: the
manager stays as it is and no table is built. -/
theorem handleAdminLine_cases (H : Hashes) (growOk : Bool) (cp : ControlPlane)
    (line : List UInt8) :
    handleAdminLine H growOk cp line = cp ∨
      ∃ k state, parseAdminLine line = some (k, state) ∧
        Changed cp (handleAdminLine H growOk cp line) k ∧
        OnlyAdminState k cp.bm (handleAdminLine H growOk cp line).bm := by
  cases hparse : parseAdminLine line with
  | none =>
      left
      rw [handleAdminLine, hparse]
  | some c =>
      exact (handleAdminLine_of_parse H growOk cp hparse).imp_right fun h => ⟨c.1, c.2, rfl, h⟩

/-! ### Which backend it is -/

/-- If the line is a verb and something that `%lu` reads, that is a numeral below 2³². -/
def Plain (line : List UInt8) : Prop :=
  field line = drainVerb ∨ field line = undrainVerb → digitsOf (secondField line) ≠ [] →
    Numeral (secondField line) ∧ decimal (secondField line) < 2 ^ 32

theorem scan_ne_none (h : digitsOf (field s) ≠ []) : ∃ id, scanUnsignedLong s = some id := by
  rw [scanUnsignedLong_eq, if_neg h]
  split
  · exact ⟨_, rfl⟩
  · exact ⟨_, rfl⟩

theorem digitsOf_of_scan {id : UInt64} (h : scanUnsignedLong s = some id) :
    digitsOf (field s) ≠ [] := by
  intro hnil
  rw [scanUnsignedLong_eq, if_pos hnil] at h
  cases h

theorem scan_numeral (h : Numeral (field s)) (hlt : decimal (field s) < 2 ^ 32) :
    scanUnsignedLong s = some (UInt64.ofNat (decimal (field s))) := by
  obtain ⟨hsign, hdigits⟩ := digitsOf_numeral h
  rw [scanUnsignedLong_eq, hdigits, hsign, if_neg h.1, if_neg (by omega)]
  rfl

theorem verb_of_parse (h : parseAdminLine line = some (k, state)) :
    (field line = drainVerb ∨ field line = undrainVerb) ∧
      ∃ id, scanUnsignedLong (afterField line) = some id ∧ k = id.toUInt32 := by
  rw [parseAdminLine_eq] at h
  split at h
  · next hverb =>
      obtain ⟨id, hid, hpair⟩ := Option.map_eq_some_iff.mp h
      exact ⟨.inl hverb, id, hid, (congrArg Prod.fst hpair).symm⟩
  · split at h
    · next hverb =>
        obtain ⟨id, hid, hpair⟩ := Option.map_eq_some_iff.mp h
        exact ⟨.inr hverb, id, hid, (congrArg Prod.fst hpair).symm⟩
    · cases h

theorem names_of_parse (hplain : Plain line) (h : parseAdminLine line = some (k, state)) :
    Names line k := by
  obtain ⟨hverb, id, hscan, rfl⟩ := verb_of_parse h
  obtain ⟨hnum, hlt⟩ := hplain hverb (digitsOf_of_scan hscan)
  refine ⟨hverb, hnum, ?_⟩
  have hid := hscan.symm.trans (scan_numeral hnum hlt)
  rw [Option.some.injEq, ← secondField] at hid
  rw [hid, UInt64.toNat_toUInt32, UInt64.toNat_ofNat_of_lt' (hlt.trans (by decide))]
  exact (Nat.mod_eq_of_lt hlt).symm

theorem parse_of_verb (hverb : field line = drainVerb ∨ field line = undrainVerb)
    (hdigits : digitsOf (secondField line) ≠ []) :
    ∃ k state, parseAdminLine line = some (k, state) := by
  obtain ⟨id, hid⟩ := scan_ne_none hdigits
  rw [parseAdminLine_eq, hid]
  rcases hverb with hverb | hverb
  · rw [if_pos hverb]
    exact ⟨_, _, rfl⟩
  · rw [if_neg (by rw [hverb]; decide), if_pos hverb]
    exact ⟨_, _, rfl⟩

/-- A manager with one backend. -/
def soleBackend (b : Backend) : Manager where
  slots := ⟨true, b⟩ :: List.replicate 63 Slot.zero
  slots_length := by rw [List.length_cons, List.length_replicate, backendMax]
  nextId := b.id + 1
  subscribed := true

theorem adminStates_soleBackend (b : Backend) :
    adminStates (soleBackend b) b.id = some b.adminState := by
  have hfind : holdsId b.id ⟨true, b⟩ = true := by simp [holdsId]
  rw [adminStates, findSlot, soleBackend, List.find?_cons_of_pos hfind]
  rfl

/-- Every backend that the scan can arrive at is changed in some set of backends. -/
theorem changed_of_parse (H : Hashes) (m : TableSize) (h : parseAdminLine line = some (k, state)) :
    ∃ cp, Changed cp (handleAdminLine H true cp line) k := by
  have hother : ∃ other : AdminState, state ≠ other := by
    cases state with
    | enabled => exact ⟨.draining, by decide⟩
    | draining => exact ⟨.enabled, by decide⟩
    | disabled => exact ⟨.enabled, by decide⟩
  obtain ⟨other, hne⟩ := hother
  let b : Backend := { freshBackend k 0 0 with adminState := other }
  have hstate : adminStates (soleBackend b) k = some other := adminStates_soleBackend b
  refine ⟨⟨soleBackend b, tableGeneratorCreate m⟩, ?_⟩
  rw [Changed, adminStates_handleAdminLine, States.obey, h]
  dsimp only [States.set]
  rw [if_pos rfl, hstate]
  simpa using hne

/-- What a line of the pipe does, in any set of backends: it changes the administrative state of
one backend and nothing else, or nothing at all and builds no table. The backend is always
the one that the line names if and only if the line is plain. -/
theorem admin_line_confined (line : List UInt8) :
    (∀ H growOk cp,
      (∀ k, Changed cp (handleAdminLine H growOk cp line) k →
        OnlyAdminState k cp.bm (handleAdminLine H growOk cp line).bm) ∧
      ((∀ k, ¬ Changed cp (handleAdminLine H growOk cp line) k) →
        handleAdminLine H growOk cp line = cp)) ∧
      ((∀ H growOk cp k, Changed cp (handleAdminLine H growOk cp line) k → Names line k) ↔
        Plain line) := by
  refine ⟨fun H growOk cp => ⟨fun k hk => ?_, fun hnone => ?_⟩, fun h => ?_, fun h => ?_⟩
  · obtain ⟨state, hparse⟩ := hk.parse
    rcases handleAdminLine_of_parse H growOk cp hparse with hsame | hcase
    · rw [Changed, hsame] at hk
      exact absurd rfl hk
    · exact hcase.2
  · rcases handleAdminLine_cases H growOk cp line with
      hsame | ⟨k, state, -, hk, -⟩
    · exact hsame
    · exact absurd hk (hnone k)
  · intro hverb hdigits
    obtain ⟨k, state, hparse⟩ := parse_of_verb hverb hdigits
    obtain ⟨cp, hcp⟩ := changed_of_parse sampleHashes sampleSize hparse
    obtain ⟨-, hnum, hvalue⟩ := h sampleHashes true cp k hcp
    exact ⟨hnum, hvalue ▸ k.toNat_lt⟩
  · intro H growOk cp k hk
    obtain ⟨state, hparse⟩ := hk.parse
    exact names_of_parse h hparse

/-- DRAIN 4294967296 -/
def wideDrain : List UInt8 := drainVerb ++ [32, 52, 50, 57, 52, 57, 54, 55, 50, 57, 54]

/-- The line names no backend, and backend 0 is drained. -/
theorem wide_number_drains :
    let cp := startControlPlane sampleHashes sampleSize
      (runOps backendManagerCreate [.add 0x0b00000a 80, .add 0x0c00000a 80])
    decimal (secondField wideDrain) = 2 ^ 32 ∧ (∀ k, ¬ Names wideDrain k) ∧
      adminStates cp.bm 0 = some .enabled ∧
      adminStates (handleAdminLine sampleHashes true cp wideDrain).bm 0 = some .draining := by
  have hvalue : decimal (secondField wideDrain) = 2 ^ 32 := by decide +kernel
  refine ⟨hvalue, fun k hk => ?_, by decide +kernel, by decide +kernel⟩
  have hlt := k.toNat_lt
  rw [← hk.2.2, hvalue] at hlt
  exact absurd hlt (by decide)

end MaglevLb.AdminCommand
