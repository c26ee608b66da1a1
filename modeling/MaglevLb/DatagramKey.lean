import MaglevLb.PacketReads

/-!
# The flow key and the datagram

The transport header is looked for in the received bytes, the datagram that is
forwarded ends at its declared length. The two agree unless the datagram is
shorter than its transport header and the frame is not.
-/
namespace MaglevLb.DatagramKey
open Bytes PacketFormat PacketReads

/-- The frames declare the same total length and have the same bytes up to it. -/
def Agrees (buf buf' : List UInt8) : Prop :=
  totalLen (byteOf buf') = totalLen (byteOf buf) ∧
    buf'.take (14 + totalLen (byteOf buf)) = buf.take (14 + totalLen (byteOf buf))

instance (buf buf' : List UInt8) : Decidable (Agrees buf buf') :=
  inferInstanceAs (Decidable (_ ∧ _))

/-- The frame carries something that is not routed. -/
def Unrouted (byte : ℕ → UInt8) : Prop :=
  be16 (byte 12) (byte 13) ≠ ethTypeIp ∨ (byte 23 ≠ ipprotoTcp ∧ byte 23 ≠ ipprotoUdp)

instance (byte : ℕ → UInt8) : Decidable (Unrouted byte) := inferInstanceAs (Decidable (_ ∨ _))

/-- A TCP or UDP datagram is as long as its IPv4 header and its fixed transport header. -/
def TransportInside (buf : List UInt8) : Prop :=
  Ipv4Ok buf.length (byteOf buf) → ¬ Unrouted (byteOf buf) →
    headerLen (byteOf buf) + transportLen (byteOf buf 23) ≤ totalLen (byteOf buf)

variable {buf buf' : List UInt8}

theorem Agrees.symm (h : Agrees buf buf') : Agrees buf' buf := by
  obtain ⟨htot, htake⟩ := h
  exact ⟨htot.symm, by rw [htot, htake]⟩

theorem Agrees.byteOf_eq (h : Agrees buf buf') {i : ℕ} (hi : i < 14 + totalLen (byteOf buf)) :
    byteOf buf' i = byteOf buf i := by
  rw [← byteOf_take buf hi, ← h.2, byteOf_take buf' hi]

theorem Agrees.length_iff (h : Agrees buf buf') {k : ℕ} (hk : k ≤ 14 + totalLen (byteOf buf)) :
    k ≤ buf'.length ↔ k ≤ buf.length := by
  have hlen := congrArg List.length h.2
  rw [List.length_take, List.length_take] at hlen
  omega

theorem Agrees.ipv4Ok (h : Agrees buf buf') (hok : Ipv4Ok buf.length (byteOf buf)) :
    Ipv4Ok buf'.length (byteOf buf') := by
  obtain ⟨hlen, hver, hmin, hhdr, htot⟩ := hok
  have hver' : byteOf buf' 14 = byteOf buf 14 := h.byteOf_eq (by omega)
  have hhdr' : headerLen (byteOf buf') = headerLen (byteOf buf) := by
    rw [headerLen, hver', headerLen]
  refine ⟨(h.length_iff (by omega)).mpr hlen, by rw [hver', hver], by omega, ?_, ?_⟩
  · rw [hhdr', h.1]
    exact hhdr
  · rw [h.1]
    exact (h.length_iff (Nat.le_refl _)).mpr htot

theorem Agrees.keyOf_eq (h : Agrees buf buf') (hok : Ipv4Ok buf.length (byteOf buf))
    (hin : headerLen (byteOf buf) + 4 ≤ totalLen (byteOf buf)) :
    keyOf (byteOf buf') = keyOf (byteOf buf) := by
  obtain ⟨-, -, hmin, -, -⟩ := hok
  have hbyte : ∀ i, i < 14 + totalLen (byteOf buf) → byteOf buf' i = byteOf buf i :=
    fun i hi => h.byteOf_eq hi
  have hhdr : headerLen (byteOf buf') = headerLen (byteOf buf) := by
    rw [headerLen, hbyte 14 (by omega), headerLen]
  unfold keyOf
  rw [hhdr, hbyte 23 (by omega), hbyte 26 (by omega), hbyte 27 (by omega), hbyte 28 (by omega),
    hbyte 29 (by omega), hbyte 30 (by omega), hbyte 31 (by omega), hbyte 32 (by omega),
    hbyte 33 (by omega), hbyte (14 + headerLen (byteOf buf)) (by omega),
    hbyte (14 + headerLen (byteOf buf) + 1) (by omega),
    hbyte (14 + headerLen (byteOf buf) + 2) (by omega),
    hbyte (14 + headerLen (byteOf buf) + 3) (by omega)]

theorem transportLen_ge (protocol : UInt8) : 4 ≤ transportLen protocol := by
  unfold transportLen
  split <;> omega

/-- The answer when the IPv4 header is good. -/
theorem packetExtractFlow_of_ipv4Ok (hok : Ipv4Ok buf.length (byteOf buf)) :
    packetExtractFlow buf =
      if Unrouted (byteOf buf) then .error .unsupported
      else if buf.length < 14 + headerLen (byteOf buf) + transportLen (byteOf buf 23) then
        .error .truncated
      else .ok ⟨keyOf (byteOf buf), 14, totalLen (byteOf buf)⟩ := by
  have hlen : ¬ buf.length < 14 := by
    have := hok.1
    omega
  rw [packetExtractFlow_eq, extractFrom, if_neg hlen]
  by_cases htype : be16 (byteOf buf 12) (byteOf buf 13) ≠ ethTypeIp
  · rw [if_pos htype]
    exact (if_pos (Or.inl htype)).symm
  · rw [if_neg htype, if_neg (not_not.mpr hok)]
    by_cases hproto : byteOf buf 23 ≠ ipprotoTcp ∧ byteOf buf 23 ≠ ipprotoUdp
    · rw [if_pos hproto]
      exact (if_pos (Or.inr hproto)).symm
    · rw [if_neg hproto]
      exact (if_neg (not_or.mpr ⟨htype, hproto⟩)).symm

theorem Agrees.unrouted_iff (h : Agrees buf buf') (hok : Ipv4Ok buf.length (byteOf buf)) :
    Unrouted (byteOf buf') ↔ Unrouted (byteOf buf) := by
  have htot : 20 ≤ totalLen (byteOf buf) := hok.2.2.1.trans hok.2.2.2.1
  unfold Unrouted
  rw [h.byteOf_eq (i := 12) (by omega), h.byteOf_eq (i := 13) (by omega),
    h.byteOf_eq (i := 23) (by omega)]

/-- What is left to depend on the trailing bytes: the received length, and the key. -/
theorem Agrees.extract (h : Agrees buf buf') (hok : Ipv4Ok buf.length (byteOf buf))
    (hun : ¬ Unrouted (byteOf buf)) :
    packetExtractFlow buf' =
      if buf'.length < 14 + headerLen (byteOf buf) + transportLen (byteOf buf 23) then
        .error .truncated
      else .ok ⟨keyOf (byteOf buf'), 14, totalLen (byteOf buf)⟩ := by
  have htot : 20 ≤ totalLen (byteOf buf) := hok.2.2.1.trans hok.2.2.2.1
  have hhdr : headerLen (byteOf buf') = headerLen (byteOf buf) := by
    rw [headerLen, h.byteOf_eq (by omega), headerLen]
  rw [packetExtractFlow_of_ipv4Ok (h.ipv4Ok hok),
    if_neg (fun h' => hun ((h.unrouted_iff hok).mp h')), hhdr,
    h.byteOf_eq (i := 23) (by omega), h.1]

theorem Agrees.refl (buf : List UInt8) : Agrees buf buf := ⟨rfl, rfl⟩

/-- With the transport header inside the datagram the trailing bytes do not matter. -/
theorem extract_agrees (h : Agrees buf buf') (hin : TransportInside buf) :
    packetExtractFlow buf' = packetExtractFlow buf := by
  by_cases hok : Ipv4Ok buf.length (byteOf buf)
  · by_cases hun : Unrouted (byteOf buf)
    · rw [packetExtractFlow_of_ipv4Ok (h.ipv4Ok hok), packetExtractFlow_of_ipv4Ok hok, if_pos hun,
        if_pos ((h.unrouted_iff hok).mpr hun)]
    · have hinside := hin hok hun
      have hfour := transportLen_ge (byteOf buf 23)
      have htot := hok.2.2.2.2
      have htot' := (h.length_iff (Nat.le_refl _)).mpr htot
      rw [h.extract hok hun, (Agrees.refl buf).extract hok hun, if_neg (by omega),
        if_neg (by omega), h.keyOf_eq hok (by omega)]
  · have hok' : ¬ Ipv4Ok buf'.length (byteOf buf') := fun hok' => hok (h.symm.ipv4Ok hok')
    have hlen : buf'.length < 14 ↔ buf.length < 14 := by
      have := h.length_iff (k := 14) (by omega)
      omega
    rw [packetExtractFlow_eq, packetExtractFlow_eq, extractFrom, extractFrom, if_pos hok',
      if_pos hok, h.byteOf_eq (i := 12) (by omega), h.byteOf_eq (i := 13) (by omega)]
    simp only [hlen]

/-! ### Cutting and padding -/

/-- The datagram and nothing else, behind the Ethernet header. -/
def bare (buf : List UInt8) : List UInt8 := buf.take (14 + totalLen (byteOf buf))

theorem agrees_append (hok : Ipv4Ok buf.length (byteOf buf)) (rest : List UInt8) :
    Agrees buf (bare buf ++ rest) ∧
      (bare buf ++ rest).length = 14 + totalLen (byteOf buf) + rest.length := by
  obtain ⟨-, -, hmin, hhdr, htot⟩ := hok
  have hlen : (bare buf).length = 14 + totalLen (byteOf buf) := by
    rw [bare, List.length_take, Nat.min_eq_left htot]
  have htake : (bare buf ++ rest).take (14 + totalLen (byteOf buf)) =
      buf.take (14 + totalLen (byteOf buf)) := by
    rw [← hlen, List.take_left, hlen, bare]
  have hbyte : ∀ i, i < 14 + totalLen (byteOf buf) →
      byteOf (bare buf ++ rest) i = byteOf buf i := by
    intro i hi
    rw [← byteOf_take _ hi, htake, byteOf_take _ hi]
  refine ⟨⟨?_, htake⟩, by rw [List.length_append, hlen]⟩
  rw [totalLen, hbyte 16 (by omega), hbyte 17 (by omega), totalLen]

/-- A datagram that ends before its transport header does is truncated when it comes alone, and
accepted with enough bytes behind it. -/
theorem outside_depends (hok : Ipv4Ok buf.length (byteOf buf)) (hun : ¬ Unrouted (byteOf buf))
    (hout : totalLen (byteOf buf) < headerLen (byteOf buf) + transportLen (byteOf buf 23)) :
    packetExtractFlow (bare buf) = .error .truncated ∧
      packetExtractFlow (bare buf ++ List.replicate 20 0) ≠ .error .truncated := by
  have hmin := hok.2.2.2.1
  have htwenty : transportLen (byteOf buf 23) ≤ 20 := by
    unfold transportLen
    split <;> omega
  obtain ⟨hcut, hcutLen⟩ := agrees_append hok []
  obtain ⟨hpad, hpadLen⟩ := agrees_append hok (List.replicate 20 0)
  rw [List.append_nil] at hcut hcutLen
  rw [List.length_nil] at hcutLen
  rw [List.length_replicate] at hpadLen
  constructor
  · rw [hcut.extract hok hun, if_pos (by omega)]
  · rw [hpad.extract hok hun, if_neg (by omega)]
    exact fun h => nomatch h

/-- Trailing bytes cannot change the answer for a datagram exactly if it holds its transport
header; then, and only then, is the forwarded datagram parsed to the same flow. -/
theorem flow_key_of_datagram (buf : List UInt8) :
    ((∀ buf', Agrees buf buf' → packetExtractFlow buf' = packetExtractFlow buf) ↔
      TransportInside buf) ∧
    ∀ r, packetExtractFlow buf = .ok r →
      (TransportInside buf ↔
        14 + headerLen (byteOf buf) + transportLen r.key.proto ≤ r.ipOffset + r.ipTotalLen) ∧
      (packetExtractFlow (buf.take (14 + r.ipTotalLen)) = .ok r ↔ TransportInside buf) := by
  have hiff : (∀ buf', Agrees buf buf' → packetExtractFlow buf' = packetExtractFlow buf) ↔
      TransportInside buf := by
    constructor
    · intro hsame hok hun
      by_contra hout
      obtain ⟨hcut, hpad⟩ := outside_depends hok hun (Nat.not_le.mp hout)
      have hbare := (agrees_append hok []).1
      rw [List.append_nil] at hbare
      rw [hsame _ (agrees_append hok (List.replicate 20 0)).1, ← hsame _ hbare] at hpad
      exact hpad hcut
    · intro hin buf' h
      exact extract_agrees h hin
  refine ⟨hiff, fun r hr => ?_⟩
  have hparts := hr
  rw [packetExtractFlow_eq] at hparts
  obtain ⟨htype, hok, hproto, -, rfl⟩ := extractFrom_ok hparts
  have hun : ¬ Unrouted (byteOf buf) := by
    unfold Unrouted
    tauto
  have hbare := (agrees_append hok []).1
  rw [List.append_nil] at hbare
  have hinside : TransportInside buf ↔ 14 + headerLen (byteOf buf) +
      transportLen (byteOf buf 23) ≤ 14 + totalLen (byteOf buf) := by
    constructor
    · intro hin
      have := hin hok hun
      omega
    · intro hle _ _
      omega
  refine ⟨hinside, fun hcut => ?_, fun hin => (extract_agrees hbare hin).trans hr⟩
  by_contra hout
  rw [hinside] at hout
  have htrunc := (outside_depends hok hun (by omega)).1
  exact nomatch hcut.symm.trans htrunc

/-- A UDP datagram of twenty bytes, header only, and the same with eight bytes of padding. -/
def headerOnly : List UInt8 :=
  List.replicate 12 0 ++ [0x08, 0x00] ++
    [0x45, 0, 0, 20, 0, 0, 0x40, 0, 64, 17, 0, 0, 10, 0, 0, 7, 10, 0, 0, 100]

def paddedWith (b : UInt8) : List UInt8 := headerOnly ++ List.replicate 8 b

/-- The padding decides whether the datagram is accepted and what its ports are. -/
theorem ports_from_padding :
    Agrees headerOnly (paddedWith 0) ∧ Agrees headerOnly (paddedWith 1) ∧
      packetExtractFlow headerOnly = .error .truncated ∧
      packetExtractFlow (paddedWith 0) = .ok ⟨⟨0x0700000a, 0x6400000a, 0, 0, 17⟩, 14, 20⟩ ∧
      packetExtractFlow (paddedWith 1) =
        .ok ⟨⟨0x0700000a, 0x6400000a, 0x0101, 0x0101, 17⟩, 14, 20⟩ := by
  decide +kernel

/-- A datagram with its UDP header is parsed alike with and without padding. -/
theorem flow_key_of_datagram_options :
    packetExtractFlow (optionsFrame.take 46) = packetExtractFlow optionsFrame := by
  have hok : packetExtractFlow optionsFrame =
      .ok ⟨⟨0x0700000a, 0x6400000a, 0xa00f, 0x5000, 17⟩, 14, 32⟩ := by
    decide +kernel
  obtain ⟨hinside, hcut⟩ := (flow_key_of_datagram optionsFrame).2 _ hok
  exact (hcut.mpr (hinside.mpr (by decide +kernel))).trans hok.symm

end MaglevLb.DatagramKey
