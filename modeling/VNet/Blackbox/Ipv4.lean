import VNet.Protocol

namespace VNet.Blackbox

open VNet.Protocol

/-- `IPv4Header`. The fields of several bytes are in network order: `memcpy`
puts the packet's bytes into an integer of a little-endian host. -/
structure IPv4Header where
  version : UInt8
  ihl : UInt8
  totalLength : UInt16
  protocol : UInt8
  srcIp : UInt32
  dstIp : UInt32
  srcPort : UInt16
  dstPort : UInt16
  deriving DecidableEq, Repr

def protoTcp : UInt8 := 6

def protoUdp : UInt8 := 17

def memcpy16 (b₀ b₁ : UInt8) : UInt16 := b₀.toUInt16 ||| b₁.toUInt16 <<< 8

def memcpy32 (b₀ b₁ b₂ b₃ : UInt8) : UInt32 :=
  b₀.toUInt32 ||| b₁.toUInt32 <<< 8 ||| b₂.toUInt32 <<< 16 ||| b₃.toUInt32 <<< 24

/-- `ipv4_parse`. Every byte is read under a check that it is there. -/
def ipv4Parse (data : Bytes) : Option IPv4Header :=
  if hlen : data.length < 20 then none
  else
    let version := (data[0] >>> 4) &&& 0x0F
    let ihl := data[0] &&& 0x0F
    if version ≠ 4 then none
    else if ihl < 5 then none
    else
      let ipHeaderBytes := ihl.toNat * 4
      if data.length < ipHeaderBytes then none
      else
        let protocol := data[9]
        let totalHost := data[2].toUInt16 <<< 8 ||| data[3].toUInt16
        if totalHost.toNat > data.length then none
        else
          let out : IPv4Header :=
            { version
              ihl
              totalLength := memcpy16 data[2] data[3]
              protocol
              srcIp := memcpy32 data[12] data[13] data[14] data[15]
              dstIp := memcpy32 data[16] data[17] data[18] data[19]
              srcPort := 0
              dstPort := 0 }
          if protocol = protoTcp ∨ protocol = protoUdp then
            if htransport : data.length < ipHeaderBytes + 4 then none
            else
              some { out with
                srcPort := memcpy16 data[ipHeaderBytes] data[ipHeaderBytes + 1]
                dstPort := memcpy16 data[ipHeaderBytes + 2] data[ipHeaderBytes + 3] }
          else some out

end VNet.Blackbox
