import MaglevLb.PacketFormat

/-!
# The checksum of the header

The source adds words in a 32-bit accumulator and folds the carries in at the end.
This is the checksum of RFC 1071 for every length whose sum cannot reach 2^32. A
stored checksum verifies whatever the length: even where the accumulator wraps, the
complement of the folded value still fits on top of it.
-/
namespace MaglevLb.PacketFormat
open Bytes OnesComplement

theorem checksumLoop_eq (data : List UInt8) {sum : ℕ} (h : sum < 2 ^ 32) :
    checksumLoop sum data = (sum + wordSum data) % 2 ^ 32 := by
  induction data using wordSum.induct generalizing sum with
  | case1 => exact (Nat.mod_eq_of_lt h).symm
  | case2 a => rfl
  | case3 a b rest ih =>
      rw [checksumLoop, ih (Nat.mod_lt _ (by decide)), wordSum, Nat.mod_add_mod, Nat.add_assoc]

theorem checksumLoop_zero (data : List UInt8) : checksumLoop 0 data = wordSum data % 2 ^ 32 := by
  rw [checksumLoop_eq data (by decide), Nat.zero_add]

/-- The longest data whose words cannot overflow the accumulator. -/
theorem wordSum_lt {data : List UInt8} (h : data.length ≤ 131072) : wordSum data < 2 ^ 32 := by
  have hle := wordSum_le data
  omega

theorem ipv4Checksum_toNat (data : List UInt8) :
    (ipv4Checksum data).toNat = 65535 - foldCarry (wordSum data % 2 ^ 32) := by
  have hlt := foldCarry_lt (wordSum data % 2 ^ 32)
  rw [ipv4Checksum, checksumLoop_zero, UInt16.toNat_not, UInt16.toNat_ofNat',
    Nat.mod_eq_of_lt hlt]
  rfl

/-- A word at an even offset contributes its own value. -/
theorem wordSum_field {pre : List UInt8} (post : List UInt8) (h : pre.length % 2 = 0)
    (c : UInt16) : wordSum (pre ++ ([hiByte c, loByte c] ++ post)) =
      wordSum (pre ++ ([0, 0] ++ post)) + c.toNat := by
  have hfield : wordSum ([hiByte c, loByte c] ++ post) =
      (be16 (hiByte c) (loByte c)).toNat + wordSum post := rfl
  have hzero : wordSum ([0, 0] ++ post) = 0 + wordSum post := rfl
  rw [wordSum_append _ h, wordSum_append _ h, hfield, hzero, be16_hiByte_loByte]
  omega

/-- Data with its checksum stored in a field that was zero verifies. -/
theorem ipv4Checksum_stored {pre : List UInt8} (post : List UInt8) (h : pre.length % 2 = 0)
    {c : UInt16} (hc : c = ipv4Checksum (pre ++ ([0, 0] ++ post))) :
    ipv4Checksum (pre ++ ([hiByte c, loByte c] ++ post)) = 0 := by
  let s := wordSum (pre ++ ([0, 0] ++ post)) % 2 ^ 32
  have hs : s < 2 ^ 32 := Nat.mod_lt _ (by decide)
  have hfits : s + (65535 - foldCarry s) < 2 ^ 32 := add_complement_lt hs
  have hsum : wordSum (pre ++ ([hiByte c, loByte c] ++ post)) % 2 ^ 32 =
      s + (65535 - foldCarry s) := by
    rw [wordSum_field post h, hc, ipv4Checksum_toNat, ← Nat.mod_add_mod, Nat.mod_eq_of_lt hfits]
  apply UInt16.toNat_inj.mp
  rw [ipv4Checksum_toNat, hsum, foldCarry_add_complement]
  rfl

theorem ipv4Header_length (srcIp dstIp : UInt32) (protocol : UInt8) (totalLen : UInt16)
    (ttl : UInt8) (csum : UInt16) :
    (ipv4Header srcIp dstIp protocol totalLen ttl csum).length = 20 := rfl

theorem ipv4Checksum_ipv4Build (srcIp dstIp : UInt32) (protocol : UInt8) (totalLen : UInt16)
    (ttl : UInt8) : ipv4Checksum (ipv4Build srcIp dstIp protocol totalLen ttl) = 0 := by
  have hzero : ipv4Header srcIp dstIp protocol totalLen ttl 0 =
      [0x45, 0x00, hiByte totalLen, loByte totalLen, 0x00, 0x00, 0x40, 0x00, ttl, protocol] ++
        ([0, 0] ++ (le32Bytes srcIp ++ le32Bytes dstIp)) := rfl
  rw [ipv4Build, hzero, ipv4Header]
  exact ipv4Checksum_stored _ (by simp) rfl

/-- Up to 131072 bytes the accumulator holds the exact sum after every word, two turns of the
folding loop suffice, and the result is the complement of the one's-complement sum of the words.
Stored in a zero field at an even offset, the checksum of any data makes it verify; so does that
of every header that is built. -/
theorem checksum_rfc1071 :
    (∀ data : List UInt8, data.length ≤ 131072 →
      ipv4Checksum data = ~~~ onesSum (words data) ∧
      (∀ k, checksumLoop 0 (data.take k) = wordSum (data.take k)) ∧
      ∃ k ≤ 2, foldCarry (checksumLoop 0 data) = carryStep^[k] (checksumLoop 0 data) ∧
        ∀ j < k, carryStep^[j] (checksumLoop 0 data) / 65536 ≠ 0) ∧
    (∀ (pre post : List UInt8) (c : UInt16), pre.length % 2 = 0 →
      c = ipv4Checksum (pre ++ ([0, 0] ++ post)) →
      ipv4Checksum (pre ++ ([hiByte c, loByte c] ++ post)) = 0) ∧
    ∀ (srcIp dstIp : UInt32) (protocol : UInt8) (totalLen : UInt16) (ttl : UInt8),
      ipv4Checksum (ipv4Build srcIp dstIp protocol totalLen ttl) = 0 := by
  refine ⟨fun data hlen => ⟨?_, fun k => ?_, ?_⟩,
    fun pre post c h hc => ipv4Checksum_stored post h hc, ipv4Checksum_ipv4Build⟩
  · apply UInt16.toNat_inj.mp
    rw [ipv4Checksum_toNat, Nat.mod_eq_of_lt (wordSum_lt hlen), UInt16.toNat_not, onesSum_words]
    rfl
  · have htake : (data.take k).length ≤ 131072 := by
      rw [List.length_take]
      omega
    rw [checksumLoop_zero, Nat.mod_eq_of_lt (wordSum_lt htake)]
  · refine foldCarry_eq_iterate ?_
    rw [checksumLoop_zero]
    exact Nat.mod_lt _ (by decide)

/-- The worked example of RFC 1071, and its words with the checksum behind them. -/
theorem checksum_rfc1071_sample :
    ipv4Checksum [0x00, 0x01, 0xf2, 0x03, 0xf4, 0xf5, 0xf6, 0xf7] = 0x220d ∧
      ipv4Checksum [0x00, 0x01, 0xf2, 0x03, 0xf4, 0xf5, 0xf6, 0xf7, 0x22, 0x0d] = 0 := by
  obtain ⟨hsum, hstored, -⟩ := checksum_rfc1071
  have hdata : ~~~ onesSum (words [0x00, 0x01, 0xf2, 0x03, 0xf4, 0xf5, 0xf6, 0xf7]) = 0x220d := by
    decide +kernel
  have hfield : ~~~ onesSum (words ([0x00, 0x01, 0xf2, 0x03, 0xf4, 0xf5, 0xf6, 0xf7] ++
      ([0, 0] ++ []))) = 0x220d := by
    decide +kernel
  have hone := (hsum [0x00, 0x01, 0xf2, 0x03, 0xf4, 0xf5, 0xf6, 0xf7] (by decide)).1
  have hbehind := (hsum ([0x00, 0x01, 0xf2, 0x03, 0xf4, 0xf5, 0xf6, 0xf7] ++ ([0, 0] ++ []))
    (by decide)).1
  exact ⟨hone.trans hdata, hstored [0x00, 0x01, 0xf2, 0x03, 0xf4, 0xf5, 0xf6, 0xf7] [] 0x220d rfl
    (hbehind.trans hfield).symm⟩

end MaglevLb.PacketFormat
