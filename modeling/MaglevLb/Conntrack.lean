import MaglevLb.PacketFormat
import MaglevLb.SlabPool
import Mathlib.Algebra.Order.Ring.Nat

/-!
# The connection tracking table

The slab has `n` entries and the hash table `b` buckets. The successor field of
an entry, the bucket heads and the free list are the links of one pool; the
other fields of an entry are its flow record. A pointer is an index into the
slab, so it cannot leave it. Walks along a chain get as much fuel as the slab
has entries.
-/
namespace MaglevLb.Conntrack
open PacketFormat IntrusiveChain SlabPool

structure Flow where
  key : FlowKey
  backendId : Int32
  lastSeenNs : UInt64
deriving DecidableEq, Repr

structure ConntrackTable (n b : ℕ) where
  links : Pool (Fin n) (Fin b)
  flow : Fin n → Flow
  sweepCursor : Fin b
  active : UInt64
  pow2 : b.isPowerOfTwo

variable {n b : ℕ}

/-- A created table: the free list threads the slab in order and the contents of
the entries are whatever the allocation left there. -/
def conntrackInit (n b : ℕ) (pow2 : b.isPowerOfTwo) (garbage : Fin n → Flow) :
    ConntrackTable n b where
  links :=
    { next := fun i => if h : i.val + 1 < n then some ⟨i.val + 1, h⟩ else none
      head := fun _ => none
      free := if h : 0 < n then some ⟨0, h⟩ else none }
  flow := garbage
  sweepCursor := ⟨0, by
    obtain ⟨k, rfl⟩ := pow2
    exact Nat.two_pow_pos k⟩
  active := 0
  pow2 := pow2

section
variable (flowHash : FlowKey → UInt64)

theorem ConntrackTable.bucket_pos (ct : ConntrackTable n b) : 0 < b := by
  obtain ⟨k, rfl⟩ := ct.pow2
  exact Nat.two_pow_pos k

/-- `flow_hash(key) & (bucket_count - 1)`. -/
def ConntrackTable.bucketIndex (ct : ConntrackTable n b) (key : FlowKey) : Fin b :=
  ⟨(flowHash key).toNat &&& (b - 1), by
    have h := ct.bucket_pos
    have hle : (flowHash key).toNat &&& (b - 1) ≤ b - 1 := Nat.and_le_right
    omega⟩

/-- `e->last_seen_ns = now_ns`. -/
def ConntrackTable.touch (ct : ConntrackTable n b) (e : Fin n) (now : UInt64) :
    ConntrackTable n b :=
  { ct with flow := Function.update ct.flow e { ct.flow e with lastSeenNs := now } }

/-- The table and the pinned backend id on a hit. -/
def conntrackLookup (ct : ConntrackTable n b) (key : FlowKey) (now : UInt64) :
    ConntrackTable n b × Option Int32 :=
  match firstMatch ct.links.next (fun e => (ct.flow e).key == key) n
      (ct.links.head (ct.bucketIndex flowHash key)) with
  | none => (ct, none)
  | some e => (ct.touch e now, some (ct.flow e).backendId)

/-- `none` when the slab is exhausted. -/
def conntrackInsert (ct : ConntrackTable n b) (key : FlowKey) (backendId : Int32)
    (now : UInt64) : Option (ConntrackTable n b) :=
  match ct.links.pop with
  | none => none
  | some (e, links) =>
      some { ct with
        flow := Function.update ct.flow e ⟨key, backendId, now⟩
        links := links.pushHead (ct.bucketIndex flowHash key) e
        active := ct.active + 1 }

end

/-- The two idle timeouts. -/
structure Timeouts where
  tcpTimeoutNs : UInt64
  udpTimeoutNs : UInt64
deriving DecidableEq, Repr

def Timeouts.of (t : Timeouts) (key : FlowKey) : UInt64 :=
  if key.proto = ipprotoTcp then t.tcpTimeoutNs else t.udpTimeoutNs

/-- The unsigned difference is compared with the timeout of the protocol. -/
def expired (t : Timeouts) (now : UInt64) (f : Flow) : Bool :=
  decide (t.of f.key < now - f.lastSeenNs)

/-- One iteration of the bucket loop: advance the cursor and sweep the bucket it
pointed at. The evicted backend ids are reported in the order of the calls. -/
def reapBucket (t : Timeouts) (now : UInt64) (ct : ConntrackTable n b) :
    ConntrackTable n b × List Int32 :=
  let r := Pool.sweep (fun e => expired t now (ct.flow e)) (n + 1) (.head ct.sweepCursor) ct.links
  ({ ct with
      links := r.1
      sweepCursor := ⟨(ct.sweepCursor.val + 1) % b, Nat.mod_lt _ ct.bucket_pos⟩
      active := ct.active - UInt64.ofNat r.2.length },
    r.2.map fun e => (ct.flow e).backendId)

def reapLoop (t : Timeouts) (now : UInt64) :
    ℕ → ConntrackTable n b → ConntrackTable n b × List Int32
  | 0, ct => (ct, [])
  | k + 1, ct =>
      let r := reapBucket t now ct
      let rest := reapLoop t now k r.1
      (rest.1, r.2 ++ rest.2)

/-- The evictions of one sweep; their number is the function's result. -/
def conntrackReapSlice (ct : ConntrackTable n b) (now : UInt64) (t : Timeouts)
    (maxBucketsThisTick : ℕ) : ConntrackTable n b × List Int32 :=
  reapLoop t now (min maxBucketsThisTick b) ct

end MaglevLb.Conntrack
