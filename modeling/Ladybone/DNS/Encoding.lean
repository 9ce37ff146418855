import Ladybone.DNS.Message

/-!
# DNS names and records onto the wire

The `to_raw` side of `DNS::Messages`. Names are written without compression and assert
that their labels fit a length octet; a few record types are not implemented and
answer with an error. The textual forms of names key the resolver's cache and group
the records of an answer.
-/

namespace Ladybone.DNS

def ResourceType.toCode : ResourceType → UInt16
  | .A => 1
  | .NS => 2
  | .CNAME => 5
  | .SOA => 6
  | .PTR => 12
  | .HINFO => 13
  | .MX => 15
  | .TXT => 16
  | .AAAA => 28
  | .SRV => 33
  | .OPT => 41
  | .DS => 43
  | .RRSIG => 46
  | .DNSKEY => 48
  | .CDS => 59
  | .CDNSKEY => 60
  | .other code => code

def Class.toCode : Class → UInt16
  | .IN => 1
  | .CH => 3
  | .HS => 4
  | .other code => code

def Algorithm.toCode : Algorithm → UInt8
  | .RSAMD5 => 1
  | .DSA => 3
  | .RSASHA1 => 5
  | .RSASHA1NSEC3SHA1 => 7
  | .RSASHA256 => 8
  | .RSASHA512 => 10
  | .ECDSAP256SHA256 => 13
  | .ECDSAP384SHA384 => 14
  | .ED25519 => 15
  | .Unknown => 255
  | .other code => code

def DigestType.toCode : DigestType → UInt8
  | .SHA1 => 1
  | .SHA256 => 2
  | .GOST3411 => 3
  | .SHA384 => 4
  | .SHA512 => 5
  | .SHA224 => 6
  | .Unknown => 255
  | .other code => code

def toNetworkOrder (width value : Nat) : Octets :=
  (List.range width).reverse.map fun place => UInt8.ofNat (value / 256 ^ place)

def writeU16 (value : UInt16) : Octets := toNetworkOrder 2 value.toNat

def writeU32 (value : UInt32) : Octets := toNetworkOrder 4 value.toNat

namespace DomainName

def toRaw (name : DomainName) : Except Failure Octets :=
  if name.labels.all fun label => label.length ≤ 63 then
    .ok (name.labels.flatMap (fun label => UInt8.ofNat label.length :: label) ++ [0])
  else .error .verifyFailed

def dot : UInt8 := 46

def fromString (name : Octets) : DomainName :=
  { labels := (name.splitOn dot).filter fun piece => !piece.isEmpty }

def toString (name : DomainName) : Octets :=
  if name.labels.isEmpty then [dot]
  else name.labels.flatMap fun label => label ++ [dot]

def toAsciiLowercase (octet : UInt8) : UInt8 :=
  if 65 ≤ octet.toNat ∧ octet.toNat ≤ 90 then octet + 32 else octet

def toCanonicalString (name : DomainName) : Octets :=
  if name.labels.isEmpty then [dot]
  else name.labels.flatMap fun label => label.map toAsciiLowercase ++ [dot]

def parent (name : DomainName) : DomainName := { labels := name.labels.tail }

end DomainName

namespace Records

def characterStringToRaw (content : Octets) : Octets :=
  UInt8.ofNat content.length :: content

def SOA.toRaw (record : SOA) : Except Failure Octets := do
  let mname ← record.mname.toRaw
  let rname ← record.rname.toRaw
  return mname ++ rname ++ writeU32 record.serial ++ writeU32 record.refresh ++
    writeU32 record.retry ++ writeU32 record.expire ++ writeU32 record.minimum

def DNSKEY.toRaw (record : DNSKEY) : Octets :=
  writeU16 record.flags ++ [record.protocol, record.algorithm.toCode] ++ record.publicKey

def DS.toRaw (record : DS) : Octets :=
  writeU16 record.keyTag ++ [record.algorithm.toCode, record.digestType.toCode] ++ record.digest

def SIG.toRawExcludingSignature (record : SIG) : Except Failure Octets := do
  let signersName ← record.signersName.toRaw
  return writeU16 record.typeCovered.toCode ++ [record.algorithm.toCode, record.labelCount] ++
    writeU32 record.originalTtl ++ writeU32 record.expiration ++ writeU32 record.inception ++
    writeU16 record.keyTag ++ signersName

def SIG.toRaw (record : SIG) : Except Failure Octets := do
  let signed ← record.toRawExcludingSignature
  return signed ++ record.signature

def OPT.toRaw (record : OPT) : Octets :=
  let rdLength := record.options.foldl
    (fun length option => length + UInt16.ofNat (4 + option.2.length)) 0
  writeU16 record.udpPayloadSize ++ writeU32 record.extendedRcodeAndFlags ++
    writeU16 rdLength ++ record.options.flatMap fun option =>
      writeU16 option.1 ++ writeU16 (UInt16.ofNat option.2.length) ++ option.2

end Records

def Record.toRaw : Record → Except Failure Octets
  | .A address => .ok address
  | .AAAA address => .ok address
  | .TXT content =>
    -- the length octet wraps, and only as many octets are copied
    .ok (UInt8.ofNat content.length :: content.take (content.length % 256))
  | .CNAME names => names.toRaw
  | .NS _ => .error (.error "Not implemented: NS::to_raw")
  | .SOA record => record.toRaw
  | .MX _ => .error (.error "Not implemented: MX::to_raw")
  | .PTR _ => .error (.error "Not implemented: PTR::to_raw")
  | .SRV _ => .error (.error "Not implemented: SRV::to_raw")
  | .DNSKEY record => .ok record.toRaw
  | .CDNSKEY record => .ok record.toRaw
  | .DS record => .ok record.toRaw
  | .CDS record => .ok record.toRaw
  | .RRSIG record => record.toRaw
  | .HINFO record =>
    .ok (Records.characterStringToRaw record.cpu ++ Records.characterStringToRaw record.os)
  | .OPT record => .ok record.toRaw
  | .raw content => .ok content

def ResourceRecord.toRaw (record : ResourceRecord) : Except Failure Octets := do
  let name ← record.name.toRaw
  let rdata ← record.record.toRaw
  if record.type = .OPT then
    return name ++ writeU16 record.type.toCode ++ rdata
  else
    return name ++ writeU16 record.type.toCode ++ writeU16 record.class_.toCode ++
      writeU32 record.ttl ++ writeU16 (UInt16.ofNat rdata.length) ++ rdata

end Ladybone.DNS
