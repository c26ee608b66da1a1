import MaglevLb.OnesComplement

/-!
# Header parsing and building

Ethernet, IPv4, TCP/UDP and GRE headers as the datapath reads and writes them.
A buffer is the list of its bytes; a pointer into it is the list behind that
pointer. Every read carries the bound that makes it legal, so a parser that
looked behind the received length would not elaborate. Builders return the
bytes they store, in order.

IP addresses and ports stay the opaque values that copying header bytes into a
variable gives; they are never swapped, only compared and hashed.
-/
namespace MaglevLb.PacketFormat
open Bytes OnesComplement

/-- Six bytes of hardware address. -/
abbrev Mac := Vector UInt8 6

def ethTypeIp : UInt16 := 0x0800
def ipprotoTcp : UInt8 := 6
def ipprotoUdp : UInt8 := 17
def ipprotoGre : UInt8 := 47

structure EthHdrView where
  dstMac : List UInt8
  srcMac : List UInt8
  ethertype : UInt16
deriving DecidableEq, Repr

def ethParse (buf : List UInt8) : Option EthHdrView :=
  if h : buf.length < 14 then none
  else some ⟨buf.take 6, (buf.drop 6).take 6, be16 buf[12] buf[13]⟩

def ethBuild (dstMac srcMac : Mac) (ethertype : UInt16) : List UInt8 :=
  dstMac.toList ++ srcMac.toList ++ [hiByte ethertype, loByte ethertype]

structure Ipv4HdrView where
  ihlWords : UInt8
  protocol : UInt8
  totalLength : UInt16
  srcIp : UInt32
  dstIp : UInt32
  headerLenBytes : ℕ
deriving DecidableEq, Repr

def ipv4Parse (buf : List UInt8) : Option Ipv4HdrView :=
  if h : buf.length < 20 then none
  else
    let version := buf[0] >>> 4
    let ihl := buf[0] &&& 0x0F
    if version ≠ 4 ∨ ihl < 5 then none
    else
      let headerLen := ihl.toNat * 4
      if headerLen > buf.length then none
      else
        let totalLength := be16 buf[2] buf[3]
        if totalLength.toNat < headerLen ∨ totalLength.toNat > buf.length then none
        else some
          { ihlWords := ihl, protocol := buf[9], totalLength := totalLength
            srcIp := le32 buf[12] buf[13] buf[14] buf[15]
            dstIp := le32 buf[16] buf[17] buf[18] buf[19]
            headerLenBytes := headerLen }

/-- The accumulation loop of the checksum, in a 32-bit accumulator. -/
def checksumLoop : ℕ → List UInt8 → ℕ
  | sum, [] => sum
  | sum, [a] => (sum + a.toNat * 256) % 2 ^ 32
  | sum, a :: b :: rest => checksumLoop ((sum + (be16 a b).toNat) % 2 ^ 32) rest

def ipv4Checksum (data : List UInt8) : UInt16 :=
  ~~~ UInt16.ofNat (foldCarry (checksumLoop 0 data))

/-- The twenty header bytes with a given checksum field. -/
def ipv4Header (srcIp dstIp : UInt32) (protocol : UInt8) (totalLen : UInt16) (ttl : UInt8)
    (csum : UInt16) : List UInt8 :=
  [0x45, 0x00, hiByte totalLen, loByte totalLen, 0x00, 0x00, 0x40, 0x00, ttl, protocol] ++
    ([hiByte csum, loByte csum] ++ (le32Bytes srcIp ++ le32Bytes dstIp))

/-- The checksum is computed over the header whose checksum field is zero. -/
def ipv4Build (srcIp dstIp : UInt32) (protocol : UInt8) (totalLen : UInt16) (ttl : UInt8) :
    List UInt8 :=
  ipv4Header srcIp dstIp protocol totalLen ttl
    (ipv4Checksum (ipv4Header srcIp dstIp protocol totalLen ttl 0))

/-- Both transports keep the ports in the first four bytes; they differ in the
length of the fixed header that has to be present. -/
def parsePorts (minLen : ℕ) (hmin : 4 ≤ minLen) (buf : List UInt8) :
    Option (UInt16 × UInt16) :=
  if h : buf.length < minLen then none
  else some (le16 buf[0] buf[1], le16 buf[2] buf[3])

def tcpParsePorts (buf : List UInt8) : Option (UInt16 × UInt16) :=
  parsePorts 20 (by decide) buf

def udpParsePorts (buf : List UInt8) : Option (UInt16 × UInt16) :=
  parsePorts 8 (by decide) buf

structure GreHdrView where
  flagsVersion : UInt16
  protocolType : UInt16
deriving DecidableEq, Repr

def greParse (buf : List UInt8) : Option GreHdrView :=
  if h : buf.length < 4 then none
  else
    let flagsVersion := be16 buf[0] buf[1]
    if flagsVersion ≠ 0 then none
    else some ⟨flagsVersion, be16 buf[2] buf[3]⟩

def greBuild (protocolType : UInt16) : List UInt8 :=
  [0x00, 0x00, hiByte protocolType, loByte protocolType]

/-- The whole outer frame, or `none` when it does not fit in `outCap` bytes
(the source then returns 0). The length field is a 16-bit cast. -/
def greEncapBuild (outCap : ℕ) (dstMac srcMac : Mac) (outerSrcIp outerDstIp : UInt32)
    (ttl : UInt8) (inner : List UInt8) : Option (List UInt8) :=
  if 14 + 20 + 4 + inner.length > outCap then none
  else some (ethBuild dstMac srcMac ethTypeIp ++
    (ipv4Build outerSrcIp outerDstIp ipprotoGre (UInt16.ofNat (20 + 4 + inner.length)) ttl ++
      (greBuild ethTypeIp ++ inner)))

/-- The 5-tuple of a client flow. -/
structure FlowKey where
  srcIp : UInt32
  dstIp : UInt32
  srcPort : UInt16
  dstPort : UInt16
  proto : UInt8
deriving DecidableEq, Repr

inductive ParseFailure where
  | truncated
  | unsupported
deriving DecidableEq, Repr

structure FlowExtractResult where
  key : FlowKey
  ipOffset : ℕ
  ipTotalLen : ℕ
deriving DecidableEq, Repr

/-- Ethernet, IPv4 and TCP/UDP in turn; anything else is unsupported. -/
def packetExtractFlow (buf : List UInt8) : Except ParseFailure FlowExtractResult :=
  match ethParse buf with
  | none => .error .truncated
  | some eth =>
      if eth.ethertype ≠ ethTypeIp then .error .unsupported
      else if 14 > buf.length then .error .truncated
      else
        match ipv4Parse (buf.drop 14) with
        | none => .error .truncated
        | some ip =>
            if ip.protocol ≠ ipprotoTcp ∧ ip.protocol ≠ ipprotoUdp then .error .unsupported
            else
              let l4 := buf.drop (14 + ip.headerLenBytes)
              let rc := if ip.protocol = ipprotoTcp then tcpParsePorts l4 else udpParsePorts l4
              match rc with
              | none => .error .truncated
              | some (srcPort, dstPort) =>
                  .ok ⟨⟨ip.srcIp, ip.dstIp, srcPort, dstPort, ip.protocol⟩, 14,
                    ip.totalLength.toNat⟩

end MaglevLb.PacketFormat
