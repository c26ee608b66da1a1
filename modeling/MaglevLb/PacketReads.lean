import MaglevLb.HeaderRoundTrip

/-!
# The reads of the parse chain

The parsers once more, over one buffer with offsets as the source has them. A
read outside the buffer and a size subtraction below zero are faults. The parse
chain never faults, and what it answers is determined by the received length and
the bytes it looked at.
-/
namespace MaglevLb.PacketReads
open Bytes PacketFormat

/-! ### The parsers with visible faults -/

/-- `a - b` on sizes; a fault if it would wrap. -/
def sizeSub (a b : ℕ) : Option ℕ := if b ≤ a then some (a - b) else none

def ethParseAt (buf : List UInt8) (off len : ℕ) : Option (Option EthHdrView) :=
  if len < 14 then some none
  else do
    let b₁₂ ← buf[off + 12]?
    let b₁₃ ← buf[off + 13]?
    some (some ⟨(buf.drop off).take 6, ((buf.drop off).drop 6).take 6, be16 b₁₂ b₁₃⟩)

def ipv4ParseAt (buf : List UInt8) (off len : ℕ) : Option (Option Ipv4HdrView) :=
  if len < 20 then some none
  else do
    let b₀ ← buf[off + 0]?
    let ihl := b₀ &&& 0x0F
    if b₀ >>> 4 ≠ 4 ∨ ihl < 5 then some none
    else if ihl.toNat * 4 > len then some none
    else do
      let b₂ ← buf[off + 2]?
      let b₃ ← buf[off + 3]?
      let totalLength := be16 b₂ b₃
      if totalLength.toNat < ihl.toNat * 4 ∨ totalLength.toNat > len then some none
      else do
        let protocol ← buf[off + 9]?
        let s₀ ← buf[off + 12]?
        let s₁ ← buf[off + 13]?
        let s₂ ← buf[off + 14]?
        let s₃ ← buf[off + 15]?
        let d₀ ← buf[off + 16]?
        let d₁ ← buf[off + 17]?
        let d₂ ← buf[off + 18]?
        let d₃ ← buf[off + 19]?
        some (some
          { ihlWords := ihl, protocol := protocol, totalLength := totalLength
            srcIp := le32 s₀ s₁ s₂ s₃, dstIp := le32 d₀ d₁ d₂ d₃
            headerLenBytes := ihl.toNat * 4 })

def parsePortsAt (minLen : ℕ) (buf : List UInt8) (off len : ℕ) :
    Option (Option (UInt16 × UInt16)) :=
  if len < minLen then some none
  else do
    let b₀ ← buf[off + 0]?
    let b₁ ← buf[off + 1]?
    let b₂ ← buf[off + 2]?
    let b₃ ← buf[off + 3]?
    some (some (le16 b₀ b₁, le16 b₂ b₃))

/-- `tcp_parse_ports` or `udp_parse_ports`. -/
def portsAt (protocol : UInt8) (buf : List UInt8) (off len : ℕ) :
    Option (Option (UInt16 × UInt16)) :=
  if protocol = ipprotoTcp then parsePortsAt 20 buf off len else parsePortsAt 8 buf off len

def packetExtractFlowAt (buf : List UInt8) : Option (Except ParseFailure FlowExtractResult) := do
  match ← ethParseAt buf 0 buf.length with
  | none => some (.error .truncated)
  | some eth =>
      if eth.ethertype ≠ ethTypeIp then some (.error .unsupported)
      else if 14 > buf.length then some (.error .truncated)
      else
        match ← ipv4ParseAt buf 14 (← sizeSub buf.length 14) with
        | none => some (.error .truncated)
        | some ip =>
            if ip.protocol ≠ ipprotoTcp ∧ ip.protocol ≠ ipprotoUdp then some (.error .unsupported)
            else
              let l4Off := 14 + ip.headerLenBytes
              let l4Available ← sizeSub buf.length l4Off
              match ← portsAt ip.protocol buf l4Off l4Available with
              | none => some (.error .truncated)
              | some (srcPort, dstPort) =>
                  some (.ok ⟨⟨ip.srcIp, ip.dstIp, srcPort, dstPort, ip.protocol⟩, 14,
                    ip.totalLength.toNat⟩)

/-! ### No fault -/

theorem read_drop {buf : List UInt8} {off i : ℕ} (h : i < (buf.drop off).length) :
    buf[off + i]? = some (buf.drop off)[i] := by
  rw [← List.getElem?_drop, List.getElem?_eq_getElem h]

theorem sizeSub_length {buf : List UInt8} {off : ℕ} (h : off ≤ buf.length) :
    sizeSub buf.length off = some (buf.drop off).length := by
  rw [sizeSub, if_pos h, List.length_drop]

theorem ethParseAt_eq (buf : List UInt8) (off : ℕ) :
    ethParseAt buf off (buf.drop off).length = some (ethParse (buf.drop off)) := by
  unfold ethParseAt ethParse
  split
  · rfl
  · next h =>
      rw [read_drop (by omega), read_drop (by omega)]
      rfl

theorem parsePortsAt_eq {minLen : ℕ} (hmin : 4 ≤ minLen) (buf : List UInt8) (off : ℕ) :
    parsePortsAt minLen buf off (buf.drop off).length =
      some (parsePorts minLen hmin (buf.drop off)) := by
  unfold parsePortsAt parsePorts
  split
  · rfl
  · next h =>
      rw [read_drop (by omega), read_drop (by omega), read_drop (by omega), read_drop (by omega)]
      rfl

theorem portsAt_eq (protocol : UInt8) (buf : List UInt8) (off : ℕ) :
    portsAt protocol buf off (buf.drop off).length =
      some (if protocol = ipprotoTcp then tcpParsePorts (buf.drop off)
        else udpParsePorts (buf.drop off)) := by
  unfold portsAt
  split
  · exact parsePortsAt_eq (by decide) buf off
  · exact parsePortsAt_eq (by decide) buf off

theorem ipv4ParseAt_eq (buf : List UInt8) (off : ℕ) :
    ipv4ParseAt buf off (buf.drop off).length = some (ipv4Parse (buf.drop off)) := by
  unfold ipv4ParseAt ipv4Parse
  split
  · rfl
  · next h =>
      rw [read_drop (i := 0) (by omega), Option.bind_eq_bind, Option.bind_some,
        read_drop (i := 2) (by omega), read_drop (i := 3) (by omega),
        read_drop (i := 9) (by omega), read_drop (i := 12) (by omega),
        read_drop (i := 13) (by omega), read_drop (i := 14) (by omega),
        read_drop (i := 15) (by omega), read_drop (i := 16) (by omega),
        read_drop (i := 17) (by omega), read_drop (i := 18) (by omega),
        read_drop (i := 19) (by omega)]
      dsimp only [Option.bind_eq_bind, Option.bind_some]
      split_ifs <;> rfl

theorem ipv4Parse_header_le {buf : List UInt8} {ip : Ipv4HdrView} (h : ipv4Parse buf = some ip) :
    ip.headerLenBytes ≤ ip.totalLength.toNat := by
  unfold ipv4Parse at h
  split at h
  · cases h
  · dsimp only at h
    split_ifs at h with _ _ hfit
    cases h
    exact Nat.not_lt.mp fun hlt => hfit (Or.inl hlt)

/-- The parse chain meets no fault. -/
theorem packetExtractFlowAt_eq (buf : List UInt8) :
    packetExtractFlowAt buf = some (packetExtractFlow buf) := by
  have heth : ethParseAt buf 0 buf.length = some (ethParse buf) := ethParseAt_eq buf 0
  unfold packetExtractFlowAt packetExtractFlow
  rw [heth, Option.bind_eq_bind, Option.bind_some]
  cases ethParse buf with
  | none => rfl
  | some eth =>
      dsimp only
      split_ifs with htype hlen
      · rfl
      · rfl
      · rw [sizeSub_length (Nat.not_lt.mp hlen), Option.bind_eq_bind, Option.bind_some,
          ipv4ParseAt_eq, Option.bind_eq_bind, Option.bind_some]
        cases hip : ipv4Parse (buf.drop 14) with
        | none => rfl
        | some ip =>
            dsimp only
            have hfits := ipv4Parse_fits hip
            have hheader := ipv4Parse_header_le hip
            rw [List.length_drop] at hfits
            have hl4 : 14 + ip.headerLenBytes ≤ buf.length := by omega
            by_cases hproto : ip.protocol ≠ ipprotoTcp ∧ ip.protocol ≠ ipprotoUdp
            · rw [if_pos hproto, if_pos hproto]
            · rw [if_neg hproto, if_neg hproto, sizeSub_length hl4, Option.bind_eq_bind,
                Option.bind_some, portsAt_eq, Option.bind_some]
              generalize (if ip.protocol = ipprotoTcp then
                  tcpParsePorts (buf.drop (14 + ip.headerLenBytes))
                else udpParsePorts (buf.drop (14 + ip.headerLenBytes))) = rc
              cases rc with
              | none => rfl
              | some ports => rfl

/-! ### The bytes that decide -/

/-- The length of the fixed transport header. -/
def transportLen (protocol : UInt8) : ℕ := if protocol = ipprotoTcp then 20 else 8

/-- The header length and the total length that a frame declares. -/
def headerLen (byte : ℕ → UInt8) : ℕ := (byte 14 &&& 0x0F).toNat * 4

theorem headerLen_le (byte : ℕ → UInt8) : headerLen byte ≤ 60 := by
  have hle : (byte 14 &&& 0x0F).toNat ≤ 15 := by
    rw [UInt8.toNat_and]
    exact Nat.and_le_right
  unfold headerLen
  omega

def totalLen (byte : ℕ → UInt8) : ℕ := (be16 (byte 16) (byte 17)).toNat

/-- The checks of `ipv4_parse` on a frame of length `len`. -/
def Ipv4Ok (len : ℕ) (byte : ℕ → UInt8) : Prop :=
  34 ≤ len ∧ byte 14 >>> 4 = 4 ∧ 20 ≤ headerLen byte ∧ headerLen byte ≤ totalLen byte ∧
    14 + totalLen byte ≤ len

instance (len : ℕ) (byte : ℕ → UInt8) : Decidable (Ipv4Ok len byte) :=
  inferInstanceAs (Decidable (_ ∧ _ ∧ _ ∧ _ ∧ _))

def keyOf (byte : ℕ → UInt8) : FlowKey where
  srcIp := le32 (byte 26) (byte 27) (byte 28) (byte 29)
  dstIp := le32 (byte 30) (byte 31) (byte 32) (byte 33)
  srcPort := le16 (byte (14 + headerLen byte)) (byte (14 + headerLen byte + 1))
  dstPort := le16 (byte (14 + headerLen byte + 2)) (byte (14 + headerLen byte + 3))
  proto := byte 23

/-- The answer of the parse chain from the received length and the bytes. -/
def extractFrom (len : ℕ) (byte : ℕ → UInt8) : Except ParseFailure FlowExtractResult :=
  if len < 14 then .error .truncated
  else if be16 (byte 12) (byte 13) ≠ ethTypeIp then .error .unsupported
  else if ¬ Ipv4Ok len byte then .error .truncated
  else if byte 23 ≠ ipprotoTcp ∧ byte 23 ≠ ipprotoUdp then .error .unsupported
  else if len < 14 + headerLen byte + transportLen (byte 23) then .error .truncated
  else .ok ⟨keyOf byte, 14, totalLen byte⟩

/-- The bytes of a frame; nothing depends on those behind its end. -/
def byteOf (buf : List UInt8) (i : ℕ) : UInt8 := buf.getD i 0

theorem getElem_eq_byteOf {buf : List UInt8} {i : ℕ} (h : i < buf.length) :
    buf[i] = byteOf buf i := by
  rw [byteOf, List.getD_eq_getElem?_getD, List.getElem?_eq_getElem h, Option.getD_some]

theorem drop_getElem_eq_byteOf {buf : List UInt8} {off i : ℕ} (h : i < (buf.drop off).length) :
    (buf.drop off)[i] = byteOf buf (off + i) := by
  rw [List.getElem_drop, getElem_eq_byteOf]

theorem parsePorts_eq {minLen : ℕ} (hmin : 4 ≤ minLen) (buf : List UInt8) (off : ℕ) :
    parsePorts minLen hmin (buf.drop off) =
      if buf.length - off < minLen then none
      else some (le16 (byteOf buf off) (byteOf buf (off + 1)),
        le16 (byteOf buf (off + 2)) (byteOf buf (off + 3))) := by
  unfold parsePorts
  by_cases h : (buf.drop off).length < minLen
  · rw [dif_pos h, if_pos (List.length_drop ▸ h)]
  · rw [dif_neg h, if_neg (List.length_drop ▸ h)]
    simp only [drop_getElem_eq_byteOf]
    rfl

theorem ports_eq (protocol : UInt8) (buf : List UInt8) (off : ℕ) :
    (if protocol = ipprotoTcp then tcpParsePorts (buf.drop off) else udpParsePorts (buf.drop off)) =
      if buf.length - off < transportLen protocol then none
      else some (le16 (byteOf buf off) (byteOf buf (off + 1)),
        le16 (byteOf buf (off + 2)) (byteOf buf (off + 3))) := by
  unfold transportLen
  split
  · exact parsePorts_eq (by decide) buf off
  · exact parsePorts_eq (by decide) buf off

/-- The checks in the order of the source. -/
theorem ipv4Ok_iff {len : ℕ} {byte : ℕ → UInt8} (h : 34 ≤ len) :
    Ipv4Ok len byte ↔ ¬ (byte 14 >>> 4 ≠ 4 ∨ byte 14 &&& 0x0F < 5) ∧
      ¬ headerLen byte > len - 14 ∧
      ¬ (totalLen byte < headerLen byte ∨ totalLen byte > len - 14) := by
  have hihl : byte 14 &&& 0x0F < 5 ↔ headerLen byte < 20 := by
    rw [UInt8.lt_iff_toNat_lt, headerLen]
    change _ < 5 ↔ _
    omega
  rw [hihl, not_or, not_not]
  constructor
  · rintro ⟨-, hver, hmin, hhdr, htot⟩
    exact ⟨⟨hver, by omega⟩, by omega, by omega⟩
  · rintro ⟨⟨hver, hmin⟩, hhdr, htot⟩
    exact ⟨h, hver, by omega, by omega, by omega⟩

theorem ipv4Parse_eq (buf : List UInt8) :
    ipv4Parse (buf.drop 14) = if Ipv4Ok buf.length (byteOf buf) then
      some
        { ihlWords := byteOf buf 14 &&& 0x0F, protocol := byteOf buf 23
          totalLength := be16 (byteOf buf 16) (byteOf buf 17)
          srcIp := (keyOf (byteOf buf)).srcIp, dstIp := (keyOf (byteOf buf)).dstIp
          headerLenBytes := headerLen (byteOf buf) }
      else none := by
  unfold ipv4Parse
  by_cases h : (buf.drop 14).length < 20
  · rw [dif_pos h, if_neg]
    rintro ⟨hlen, -⟩
    rw [List.length_drop] at h
    omega
  · rw [dif_neg h]
    simp only [drop_getElem_eq_byteOf, List.length_drop] at h ⊢
    have hlen : 34 ≤ buf.length := by omega
    by_cases hok : Ipv4Ok buf.length (byteOf buf)
    · rw [if_pos hok]
      obtain ⟨h₁, h₂, h₃⟩ := (ipv4Ok_iff hlen).mp hok
      exact (if_neg h₁).trans ((if_neg h₂).trans (if_neg h₃))
    · rw [if_neg hok]
      split_ifs with h₁ h₂ h₃
      · rfl
      · rfl
      · rfl
      · exact absurd ((ipv4Ok_iff hlen).mpr ⟨h₁, h₂, h₃⟩) hok

theorem packetExtractFlow_eq (buf : List UInt8) :
    packetExtractFlow buf = extractFrom buf.length (byteOf buf) := by
  unfold packetExtractFlow extractFrom ethParse
  by_cases hlen : buf.length < 14
  · rw [dif_pos hlen]
    exact (if_pos hlen).symm
  · simp only [dif_neg hlen, if_neg hlen, getElem_eq_byteOf]
    by_cases htype : be16 (byteOf buf 12) (byteOf buf 13) ≠ ethTypeIp
    · rw [if_pos htype, if_pos htype]
    · rw [if_neg htype, if_neg htype, ipv4Parse_eq]
      by_cases hok : Ipv4Ok buf.length (byteOf buf)
      · rw [if_pos hok, if_neg (not_not.mpr hok)]
        dsimp only
        by_cases hproto : byteOf buf 23 ≠ ipprotoTcp ∧ byteOf buf 23 ≠ ipprotoUdp
        · rw [if_pos hproto, if_pos hproto]
        · rw [if_neg hproto, if_neg hproto, ports_eq]
          obtain ⟨-, -, -, hhdr, htot⟩ := hok
          by_cases hshort : buf.length < 14 + headerLen (byteOf buf) + transportLen (byteOf buf 23)
          · rw [if_pos hshort, if_pos (by omega)]
          · rw [if_neg hshort, if_neg (by omega)]
            rfl
      · rw [if_neg hok, if_pos hok]

theorem extractFrom_ok {len : ℕ} {byte : ℕ → UInt8} {r : FlowExtractResult}
    (h : extractFrom len byte = .ok r) :
    be16 (byte 12) (byte 13) = ethTypeIp ∧ Ipv4Ok len byte ∧
      (byte 23 = ipprotoTcp ∨ byte 23 = ipprotoUdp) ∧
      14 + headerLen byte + transportLen (byte 23) ≤ len ∧ r = ⟨keyOf byte, 14, totalLen byte⟩ := by
  unfold extractFrom at h
  split_ifs at h with _ htype hok hproto hshort
  cases h
  exact ⟨not_not.mp htype, hok, by tauto, Nat.not_lt.mp hshort, rfl⟩

theorem extractFrom_of_ok {len : ℕ} {byte : ℕ → UInt8}
    (htype : be16 (byte 12) (byte 13) = ethTypeIp) (hok : Ipv4Ok len byte)
    (hproto : byte 23 = ipprotoTcp ∨ byte 23 = ipprotoUdp)
    (hlong : 14 + headerLen byte + transportLen (byte 23) ≤ len) :
    extractFrom len byte = .ok ⟨keyOf byte, 14, totalLen byte⟩ := by
  have hlen : ¬ len < 14 := by
    have := hok.1
    omega
  rw [extractFrom, if_neg hlen, if_neg (not_not.mpr htype), if_neg (not_not.mpr hok),
    if_neg (by tauto), if_neg (Nat.not_lt.mpr hlong)]

/-! ### Prefixes -/

theorem byteOf_take (buf : List UInt8) {k i : ℕ} (h : i < k) :
    byteOf (buf.take k) i = byteOf buf i := by
  rw [byteOf, byteOf, List.getD_eq_getElem?_getD, List.getElem?_take_of_lt h,
    List.getD_eq_getElem?_getD]

/-- A frame cut inside its datagram is truncated. -/
theorem packetExtractFlow_take {buf : List UInt8} {r : FlowExtractResult}
    (h : packetExtractFlow buf = .ok r) {k : ℕ} (hk : k < 14 + r.ipTotalLen) :
    packetExtractFlow (buf.take k) = .error .truncated := by
  rw [packetExtractFlow_eq] at h ⊢
  obtain ⟨htype, -, -, -, rfl⟩ := extractFrom_ok h
  have hlen : (buf.take k).length ≤ k := List.length_take_le k buf
  unfold extractFrom
  by_cases hshort : (buf.take k).length < 14
  · rw [if_pos hshort]
  · have htype' : ¬ be16 (byteOf (buf.take k) 12) (byteOf (buf.take k) 13) ≠ ethTypeIp := by
      rw [byteOf_take buf (by omega), byteOf_take buf (by omega)]
      exact not_not.mpr htype
    have hcut : ¬ Ipv4Ok (buf.take k).length (byteOf (buf.take k)) := by
      rintro ⟨hmin, -, -, -, htot⟩
      rw [totalLen, byteOf_take buf (by omega), byteOf_take buf (by omega)] at htot
      change k < 14 + totalLen (byteOf buf) at hk
      rw [totalLen] at hk
      omega
    rw [if_neg hshort, if_neg htype', if_pos hcut]

/-- The parse chain reads inside every buffer and subtracts without wrap-around. What it accepts
lies in the received bytes, header first, and no part of it is accepted. -/
theorem extract_safe (buf : List UInt8) :
    packetExtractFlowAt buf = some (packetExtractFlow buf) ∧
    ∀ r, packetExtractFlow buf = .ok r →
      r.ipOffset + r.ipTotalLen ≤ buf.length ∧
      (∃ ip, ipv4Parse (buf.drop r.ipOffset) = some ip ∧ r.ipTotalLen = ip.totalLength.toNat ∧
        r.ipOffset + ip.headerLenBytes ≤ r.ipOffset + r.ipTotalLen) ∧
      ((buf.drop r.ipOffset).take r.ipTotalLen).length = r.ipTotalLen ∧
      ∀ k < 14 + r.ipTotalLen, packetExtractFlow (buf.take k) = .error .truncated := by
  refine ⟨packetExtractFlowAt_eq buf, fun r hr => ?_⟩
  have hparts := hr
  rw [packetExtractFlow_eq] at hparts
  obtain ⟨-, hok, -, -, rfl⟩ := extractFrom_ok hparts
  have hip := ipv4Parse_eq buf
  rw [if_pos hok] at hip
  obtain ⟨-, -, -, hhdr, htot⟩ := hok
  refine ⟨htot, ⟨_, hip, rfl, Nat.add_le_add_left hhdr 14⟩, ?_, fun k hk =>
    packetExtractFlow_take hr hk⟩
  rw [List.length_take, List.length_drop]
  dsimp only
  omega

/-- A UDP datagram with one word of options, in a padded frame. -/
def optionsFrame : List UInt8 :=
  List.replicate 12 0 ++ [0x08, 0x00] ++
    [0x46, 0, 0, 32, 0, 0, 0x40, 0, 64, 17, 0, 0, 10, 0, 0, 7, 10, 0, 0, 100, 1, 1, 1, 0] ++
    [0x0f, 0xa0, 0, 80, 0, 8, 0, 0] ++ List.replicate 14 0

theorem extract_safe_options :
    packetExtractFlow optionsFrame = .ok ⟨⟨0x0700000a, 0x6400000a, 0xa00f, 0x5000, 17⟩, 14, 32⟩ ∧
      ∀ k < 46, packetExtractFlow (optionsFrame.take k) = .error .truncated := by
  have hok : packetExtractFlow optionsFrame =
      .ok ⟨⟨0x0700000a, 0x6400000a, 0xa00f, 0x5000, 17⟩, 14, 32⟩ := by
    decide +kernel
  exact ⟨hok, ((extract_safe optionsFrame).2 _ hok).2.2.2⟩

end MaglevLb.PacketReads
