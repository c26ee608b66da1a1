import MaglevLb.InternetChecksum

/-!
# What is built parses

Each builder followed by the parser of the same layer gives back the fields, and
the checksum over a built IPv4 header is zero. Together they decode the outer
frame of an encapsulated packet down to the inner bytes.
-/
namespace MaglevLb.PacketFormat
open Bytes OnesComplement

theorem ethBuild_length (dstMac srcMac : Mac) (ethertype : UInt16) :
    (ethBuild dstMac srcMac ethertype).length = 14 := by
  simp [ethBuild]

theorem ethParse_ethBuild (dstMac srcMac : Mac) (ethertype : UInt16) (rest : List UInt8) :
    ethParse (ethBuild dstMac srcMac ethertype ++ rest) =
      some ⟨dstMac.toList, srcMac.toList, ethertype⟩ := by
  have hlen : ¬ (ethBuild dstMac srcMac ethertype ++ rest).length < 14 := by
    rw [List.length_append, ethBuild_length]
    omega
  unfold ethParse
  rw [dif_neg hlen]
  simp [ethBuild]

theorem ipv4Parse_ipv4Header (srcIp dstIp : UInt32) (protocol : UInt8) {totalLen : UInt16}
    (ttl : UInt8) (csum : UInt16) {rest : List UInt8} (hmin : 20 ≤ totalLen.toNat)
    (hfit : totalLen.toNat ≤ 20 + rest.length) :
    ipv4Parse (ipv4Header srcIp dstIp protocol totalLen ttl csum ++ rest) =
      some ⟨5, protocol, totalLen, srcIp, dstIp, 20⟩ := by
  have hlen : (ipv4Header srcIp dstIp protocol totalLen ttl csum ++ rest).length =
      20 + rest.length := by
    rw [List.length_append, ipv4Header_length]
  have hihl : (ipv4Header srcIp dstIp protocol totalLen ttl csum ++ rest)[0] &&& 0x0F = 5 :=
    (by decide : (0x45 : UInt8) &&& 0x0F = 5)
  have htotal : be16 (ipv4Header srcIp dstIp protocol totalLen ttl csum ++ rest)[2]
      (ipv4Header srcIp dstIp protocol totalLen ttl csum ++ rest)[3] = totalLen :=
    be16_hiByte_loByte totalLen
  have hfive : (5 : UInt8).toNat = 5 := rfl
  unfold ipv4Parse
  rw [dif_neg (by omega)]
  simp only [hihl, htotal, hfive]
  refine (if_neg ?_).trans ((if_neg ?_).trans ((if_neg ?_).trans ?_))
  · exact (by decide : ¬ ((0x45 : UInt8) >>> 4 ≠ 4 ∨ (5 : UInt8) < 5))
  · omega
  · omega
  · congr 2
    · exact le32_of_bytes srcIp
    · exact le32_of_bytes dstIp

/-- The source's length field is exact as long as it fits in 16 bits. -/
theorem outerLength_toNat {len : ℕ} (h : 20 + 4 + len < 65536) :
    (UInt16.ofNat (20 + 4 + len)).toNat = 24 + len := by
  rw [UInt16.toNat_ofNat', Nat.mod_eq_of_lt h]

theorem greParse_greBuild (protocolType : UInt16) (rest : List UInt8) :
    greParse (greBuild protocolType ++ rest) = some ⟨0, protocolType⟩ := by
  unfold greParse
  rw [dif_neg (by simp [greBuild])]
  simp only [greBuild, List.cons_append, List.nil_append, List.getElem_cons_zero,
    List.getElem_cons_succ, be16_hiByte_loByte]
  rfl

/-- The builder gives up exactly when the frame does not fit. -/
theorem greEncapBuild_eq_none (outCap : ℕ) (dstMac srcMac : Mac) (outerSrcIp outerDstIp : UInt32)
    (ttl : UInt8) (inner : List UInt8) :
    greEncapBuild outCap dstMac srcMac outerSrcIp outerDstIp ttl inner = none ↔
      38 + inner.length > outCap := by
  unfold greEncapBuild
  split
  · next h => exact ⟨fun _ => h, fun _ => rfl⟩
  · next h => exact ⟨fun hnone => absurd hnone (Option.some_ne_none _), fun hgt => absurd hgt h⟩

/-- The outer frame decodes layer by layer down to the inner packet. -/
theorem greEncapBuild_decodes {outCap : ℕ} {dstMac srcMac : Mac} {outerSrcIp outerDstIp : UInt32}
    {ttl : UInt8} {inner out : List UInt8} (hlen : 20 + 4 + inner.length < 65536)
    (h : greEncapBuild outCap dstMac srcMac outerSrcIp outerDstIp ttl inner = some out) :
    out.length = 38 + inner.length ∧
    ethParse out = some ⟨dstMac.toList, srcMac.toList, ethTypeIp⟩ ∧
    ipv4Parse (out.drop 14) = some ⟨5, ipprotoGre, UInt16.ofNat (20 + 4 + inner.length),
      outerSrcIp, outerDstIp, 20⟩ ∧
    greParse (out.drop (14 + 20)) = some ⟨0, ethTypeIp⟩ ∧
    ipv4Checksum ((out.drop 14).take 20) = 0 ∧ out.drop (14 + 20 + 4) = inner := by
  let totalLen := UInt16.ofNat (20 + 4 + inner.length)
  let ip := ipv4Build outerSrcIp outerDstIp ipprotoGre totalLen ttl
  have hip : ip.length = 20 := ipv4Header_length ..
  have hgre : (greBuild ethTypeIp).length = 4 := rfl
  unfold greEncapBuild at h
  split at h
  · cases h
  · cases h
    have hbehindEth : (ethBuild dstMac srcMac ethTypeIp ++ (ip ++ (greBuild ethTypeIp ++
        inner))).drop 14 = ip ++ (greBuild ethTypeIp ++ inner) :=
      List.drop_left' (ethBuild_length ..)
    have hbehindIp : (ip ++ (greBuild ethTypeIp ++ inner)).drop 20 = greBuild ethTypeIp ++ inner :=
      List.drop_left' hip
    have htotal : totalLen.toNat = 24 + inner.length := outerLength_toNat hlen
    refine ⟨?_, ethParse_ethBuild .., ?_, ?_, ?_, ?_⟩
    · simp only [List.length_append, ethBuild_length, hgre]
      change 14 + (ip.length + _) = _
      omega
    · rw [hbehindEth]
      apply ipv4Parse_ipv4Header
      · omega
      · rw [List.length_append, hgre]
        omega
    · rw [← List.drop_drop, hbehindEth, hbehindIp]
      exact greParse_greBuild ..
    · rw [hbehindEth, List.take_left' hip]
      exact ipv4Checksum_ipv4Build ..
    · rw [← List.drop_drop, ← List.drop_drop, hbehindEth, hbehindIp, List.drop_left' hgre]

/-! ## The inner packet -/

theorem ipv4Parse_fits {buf : List UInt8} {ip : Ipv4HdrView} (h : ipv4Parse buf = some ip) :
    ip.totalLength.toNat ≤ buf.length := by
  unfold ipv4Parse at h
  split at h
  · cases h
  · dsimp only at h
    split at h
    · cases h
    · split at h
      · cases h
      · split at h
        · cases h
        · next hfit =>
            cases h
            exact Nat.not_lt.mp fun hlt => hfit (Or.inr hlt)

/-- An extracted flow lies in the received bytes, behind the Ethernet header. -/
theorem packetExtractFlow_fits {buf : List UInt8} {fx : FlowExtractResult}
    (h : packetExtractFlow buf = .ok fx) :
    fx.ipOffset = 14 ∧ 14 + fx.ipTotalLen ≤ buf.length := by
  unfold packetExtractFlow at h
  split at h
  · cases h
  · split at h
    · cases h
    · split at h
      · cases h
      · next hlen =>
          split at h
          · cases h
          · next ip hip =>
              split at h
              · cases h
              · dsimp only at h
                split at h
                · cases h
                · cases h
                  have hfits := ipv4Parse_fits hip
                  rw [List.length_drop] at hfits
                  refine ⟨rfl, ?_⟩
                  dsimp only
                  omega

end MaglevLb.PacketFormat
