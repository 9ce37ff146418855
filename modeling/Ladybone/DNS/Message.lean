import Mathlib.Algebra.GroupWithZero.Nat
import Ladybone.AK.RedBlackTree
import Ladybone.Support.Parsing

/-!
# DNS messages off the wire

`DNS::Messages::Message::from_raw` with everything it calls: the header, questions,
resource records and their RDATA. A stream is the octets still to be read and the
count `CountingStream` keeps; `pointers` is the tree of expanded names that
compression pointers are resolved in.

Enumerations are cast from the wire without a check in the source, so each has a
constructor for the codes it does not list.
-/

namespace Ladybone.DNS

open AK.RedBlackTree Support.Parsing

abbrev Octets := List UInt8

structure DomainName where
  labels : List Octets
deriving DecidableEq

inductive ResourceType where
  | A | NS | CNAME | SOA | PTR | HINFO | MX | TXT | AAAA | SRV | OPT
  | DS | RRSIG | DNSKEY | CDS | CDNSKEY
  | other (code : UInt16)
deriving DecidableEq

def ResourceType.ofCode (code : UInt16) : ResourceType :=
  match code.toNat with
  | 1 => .A
  | 2 => .NS
  | 5 => .CNAME
  | 6 => .SOA
  | 12 => .PTR
  | 13 => .HINFO
  | 15 => .MX
  | 16 => .TXT
  | 28 => .AAAA
  | 33 => .SRV
  | 41 => .OPT
  | 43 => .DS
  | 46 => .RRSIG
  | 48 => .DNSKEY
  | 59 => .CDS
  | 60 => .CDNSKEY
  | _ => .other code

inductive Class where
  | IN | CH | HS
  | other (code : UInt16)
deriving DecidableEq

def Class.ofCode (code : UInt16) : Class :=
  match code.toNat with
  | 1 => .IN
  | 3 => .CH
  | 4 => .HS
  | _ => .other code

inductive Algorithm where
  | RSAMD5 | DSA | RSASHA1 | RSASHA1NSEC3SHA1 | RSASHA256 | RSASHA512
  | ECDSAP256SHA256 | ECDSAP384SHA384 | ED25519 | Unknown
  | other (code : UInt8)
deriving DecidableEq

def Algorithm.ofCode (code : UInt8) : Algorithm :=
  match code.toNat with
  | 1 => .RSAMD5
  | 3 => .DSA
  | 5 => .RSASHA1
  | 7 => .RSASHA1NSEC3SHA1
  | 8 => .RSASHA256
  | 10 => .RSASHA512
  | 13 => .ECDSAP256SHA256
  | 14 => .ECDSAP384SHA384
  | 15 => .ED25519
  | 255 => .Unknown
  | _ => .other code

inductive DigestType where
  | SHA1 | SHA256 | GOST3411 | SHA384 | SHA512 | SHA224 | Unknown
  | other (code : UInt8)
deriving DecidableEq

def DigestType.ofCode (code : UInt8) : DigestType :=
  match code.toNat with
  | 1 => .SHA1
  | 2 => .SHA256
  | 3 => .GOST3411
  | 4 => .SHA384
  | 5 => .SHA512
  | 6 => .SHA224
  | 255 => .Unknown
  | _ => .other code

def DigestType.size : DigestType → Option Nat
  | .SHA1 => some 20
  | .SHA256 => some 32
  | .GOST3411 => some 32
  | .SHA384 => some 48
  | .SHA512 => some 64
  | .SHA224 => some 28
  | .Unknown => none
  | .other _ => none

namespace Records

structure SOA where
  (mname rname : DomainName)
  (serial refresh retry expire minimum : UInt32)
deriving DecidableEq

structure MX where
  preference : UInt16
  exchange : DomainName
deriving DecidableEq

structure SRV where
  (priority weight port : UInt16)
  target : DomainName
deriving DecidableEq

structure DNSKEY where
  flags : UInt16
  protocol : UInt8
  algorithm : Algorithm
  publicKey : Octets
  calculatedKeyTag : UInt16
deriving DecidableEq

structure DS where
  keyTag : UInt16
  algorithm : Algorithm
  digestType : DigestType
  digest : Octets
deriving DecidableEq

structure SIG where
  typeCovered : ResourceType
  algorithm : Algorithm
  labelCount : UInt8
  (originalTtl expiration inception : UInt32)
  keyTag : UInt16
  signersName : DomainName
  signature : Octets
deriving DecidableEq

structure HINFO where
  (cpu os : Octets)
deriving DecidableEq

structure OPT where
  udpPayloadSize : UInt16
  extendedRcodeAndFlags : UInt32
  options : List (UInt16 × Octets)
deriving DecidableEq

end Records

/-- The variants `from_raw` builds; `raw` is the fallback for types it does not parse. -/
inductive Record where
  | A (address : Octets)
  | AAAA (address : Octets)
  | TXT (content : Octets)
  | CNAME (names : DomainName)
  | NS (name : DomainName)
  | SOA (record : Records.SOA)
  | MX (record : Records.MX)
  | PTR (name : DomainName)
  | SRV (record : Records.SRV)
  | DNSKEY (record : Records.DNSKEY)
  | CDNSKEY (record : Records.DNSKEY)
  | DS (record : Records.DS)
  | CDS (record : Records.DS)
  | RRSIG (record : Records.SIG)
  | HINFO (record : Records.HINFO)
  | OPT (record : Records.OPT)
  | raw (content : Octets)
deriving DecidableEq

structure ResourceRecord where
  name : DomainName
  type : ResourceType
  class_ : Class
  ttl : UInt32
  record : Record
  raw : Option Octets
deriving DecidableEq

structure Question where
  name : DomainName
  type : ResourceType
  class_ : Class
deriving DecidableEq

structure Header where
  (id options questionCount answerCount authorityCount additionalCount : UInt16)
deriving DecidableEq

structure Message where
  header : Header
  questions : List Question
  (answers authorities additionalRecords : List ResourceRecord)
deriving DecidableEq

structure Site where
  offset : Nat
  name : DomainName
deriving DecidableEq

structure CountingStream where
  remaining : Octets
  readBytes : Nat
deriving DecidableEq

/-- `inserted` is no part of the source's context: it lists what was put into the
tree, in order and before the offset is cut to the tree's 16-bit keys. -/
structure ParseContext where
  stream : CountingStream
  pointers : Tree Nat DomainName
  inserted : List Site
deriving DecidableEq

/-- How a parse ends without a message: with an error, or in a failed assertion. -/
inductive Failure where
  | error (text : String)
  | verifyFailed
deriving DecidableEq

abbrev Parser := StateT ParseContext (Except Failure)

def readUntilFilled (size : Nat) : Parser Octets := fun ctx =>
  if ctx.stream.remaining.length < size then
    .error (.error "Reached end-of-file before filling the entire buffer")
  else
    .ok (ctx.stream.remaining.take size,
      { ctx with
        stream :=
          { remaining := ctx.stream.remaining.drop size,
            readBytes := ctx.stream.readBytes + size } })

def readUntilEof : Parser Octets := fun ctx =>
  readUntilFilled ctx.stream.remaining.length ctx

def isEof : Parser Bool := fun ctx => .ok (ctx.stream.remaining.isEmpty, ctx)

def readBytes : Parser Nat := fun ctx => .ok (ctx.stream.readBytes, ctx)

def fromNetworkOrder (octets : Octets) : Nat :=
  octets.foldl (fun value octet => value * 256 + octet.toNat) 0

def readU8 : Parser UInt8 := do
  let octets ← readUntilFilled 1
  return UInt8.ofNat (fromNetworkOrder octets)

def readU16 : Parser UInt16 := do
  let octets ← readUntilFilled 2
  return UInt16.ofNat (fromNetworkOrder octets)

def readU32 : Parser UInt32 := do
  let octets ← readUntilFilled 4
  return UInt32.ofNat (fromNetworkOrder octets)

/-- The walk over the labels of an earlier name to a pointer's target. The distance
is a `size_t`, so stepping over a label longer than what is left of it wraps. -/
def skipLabels : List Octets → Nat → List Octets × Nat
  | [], distance => ([], distance)
  | label :: rest, distance =>
    if 0 < distance then
      skipLabels rest ((distance + 2 ^ 64 - (label.length + 1)) % 2 ^ 64)
    else (label :: rest, distance)

def labelsFrom (labels : List Octets) (distance : Nat) : List Octets :=
  match skipLabels labels distance with
  | ([], _) => []
  | (first :: rest, left) => first.drop left :: rest

def offsetMarkerMask : UInt8 := 0b11000000

def pointerOffset (high low : UInt8) : Nat :=
  (high &&& ~~~offsetMarkerMask).toNat * 256 + low.toNat

def followPointer (offset : Nat) : Parser (List Octets) := fun ctx =>
  match findLargestNotAbove offset ctx.pointers none with
  | some (key, earlier) => .ok (labelsFrom earlier.labels (offset - key), ctx)
  | none => .error (.error "Invalid domain name pointer in label")

namespace DomainName

/-- The loop of `from_raw`. Each round reads an octet, so a fuel above the number of
octets left is never used up. -/
def readLabels : Nat → List Octets → Parser (List Octets)
  | 0, _ => throw (.error "out of fuel")
  | fuel + 1, labels => do
      let length ← readU8
      if length = 0 then
        return labels
      else if length &&& offsetMarkerMask = offsetMarkerMask then do
        let low ← readU8
        let pointed ← followPointer (pointerOffset length low)
        return labels ++ pointed
      else do
        let content ← readUntilFilled length.toNat
        readLabels fuel (labels ++ [content])

def remember (marker : Nat) (name : DomainName) : Parser Unit := fun ctx =>
  .ok ((),
    { ctx with
      pointers := AK.RedBlackTree.insert (marker % 2 ^ 16) name ctx.pointers
      inserted := ctx.inserted ++ [{ offset := marker, name := name }] })

def fromRaw : Parser DomainName := do
  let inputOffsetMarker ← readBytes
  let ctx ← get
  let labels ← readLabels (ctx.stream.remaining.length + 1) []
  remember inputOffsetMarker { labels := labels }
  return { labels := labels }

end DomainName

def Question.fromRaw : Parser Question := do
  let name ← DomainName.fromRaw
  let type ← readU16
  let class_ ← readU16
  return { name := name, type := .ofCode type, class_ := .ofCode class_ }

namespace Records

def characterString : Parser Octets := do
  let length ← readU8
  readUntilFilled length.toNat

def SOA.fromRaw : Parser SOA := do
  let mname ← DomainName.fromRaw
  let rname ← DomainName.fromRaw
  let serial ← readU32
  let refresh ← readU32
  let retry ← readU32
  let expire ← readU32
  let minimum ← readU32
  return { mname, rname, serial, refresh, retry, expire, minimum }

def MX.fromRaw : Parser MX := do
  let preference ← readU16
  let exchange ← DomainName.fromRaw
  return { preference, exchange }

def SRV.fromRaw : Parser SRV := do
  let priority ← readU16
  let weight ← readU16
  let port ← readU16
  let target ← DomainName.fromRaw
  return { priority, weight, port, target }

/-- The octets of the key, alternately as high and low octet of a 16-bit sum. -/
def keyTagSum : Octets → UInt32
  | [] => 0
  | [high] => high.toUInt32 <<< 8
  | high :: low :: rest => (high.toUInt32 <<< 8) + low.toUInt32 + keyTagSum rest

def keyTag (flags : UInt16) (protocol algorithm : UInt8) (publicKey : Octets) : UInt16 :=
  let sum := flags.toUInt32 + (protocol.toUInt32 <<< 8) + algorithm.toUInt32 + keyTagSum publicKey
  (sum + ((sum >>> 16) &&& 0xffff)).toUInt16

def DNSKEY.fromRaw : Parser DNSKEY := do
  let flags ← readU16
  let protocol ← readU8
  let algorithm ← readU8
  let publicKey ← readUntilEof
  if publicKey.isEmpty then throw (.error "Empty public key in DNSKEY record")
  else
    return { flags := flags, protocol := protocol, algorithm := .ofCode algorithm,
             publicKey := publicKey,
             calculatedKeyTag := keyTag flags protocol algorithm publicKey }

def DS.fromRaw : Parser DS := do
  let keyTag ← readU16
  let algorithm ← readU8
  let digestType ← readU8
  match (DigestType.ofCode digestType).size with
  | none => throw (.error "Unknown digest type in DS record")
  | some digestSize => do
      let digest ← readUntilFilled digestSize
      return { keyTag := keyTag, algorithm := .ofCode algorithm,
               digestType := .ofCode digestType, digest := digest }

def SIG.fromRaw : Parser SIG := do
  let typeCovered ← readU16
  let algorithm ← readU8
  let labels ← readU8
  let originalTtl ← readU32
  let signatureExpiration ← readU32
  let signatureInception ← readU32
  let keyTag ← readU16
  let signerName ← DomainName.fromRaw
  let signature ← readUntilEof
  return { typeCovered := .ofCode typeCovered, algorithm := .ofCode algorithm,
           labelCount := labels, originalTtl := originalTtl,
           expiration := signatureExpiration, inception := signatureInception,
           keyTag := keyTag, signersName := signerName, signature := signature }

def HINFO.fromRaw : Parser HINFO := do
  let cpu ← characterString
  let os ← characterString
  return { cpu, os }

/-- The option loop of `OPT::from_raw`: the 16-bit length left wraps when an option
is longer than it. A round reads four octets at least. -/
def OPT.readOptions : Nat → UInt16 → List (UInt16 × Octets) →
    Parser (UInt16 × List (UInt16 × Octets))
  | 0, _, _ => throw (.error "out of fuel")
  | fuel + 1, rdLength, options => do
      let eof ← isEof
      if rdLength = 0 ∨ eof = true then
        return (rdLength, options)
      else do
        let code ← readU16
        let length ← readU16
        let data ← readUntilFilled length.toNat
        readOptions fuel (rdLength - (4 + length)) (options ++ [(code, data)])

def OPT.fromRaw : Parser OPT := do
  let udpSize ← readU16
  let rcodeAndFlags ← readU32
  let rdLength ← readU16
  let ctx ← get
  let read ← readOptions (ctx.stream.remaining.length + 1) rdLength []
  if read.1 ≠ 0 then throw (.error "Invalid OPT record")
  else
    return { udpPayloadSize := udpSize, extendedRcodeAndFlags := rcodeAndFlags,
             options := read.2 }

end Records

namespace ResourceRecord

/-- The record parser of a type and the name it has in error texts. -/
def contentParser : ResourceType → Option (String × Parser Record)
  | .A => some ("A", .A <$> readUntilFilled 4)
  | .AAAA => some ("AAAA", .AAAA <$> readUntilFilled 16)
  | .TXT => some ("TXT", .TXT <$> Records.characterString)
  | .CNAME => some ("CNAME", .CNAME <$> DomainName.fromRaw)
  | .NS => some ("NS", .NS <$> DomainName.fromRaw)
  | .SOA => some ("SOA", .SOA <$> Records.SOA.fromRaw)
  | .MX => some ("MX", .MX <$> Records.MX.fromRaw)
  | .PTR => some ("PTR", .PTR <$> DomainName.fromRaw)
  | .SRV => some ("SRV", .SRV <$> Records.SRV.fromRaw)
  | .DNSKEY => some ("DNSKEY", .DNSKEY <$> Records.DNSKEY.fromRaw)
  | .CDNSKEY => some ("CDNSKEY", .CDNSKEY <$> Records.DNSKEY.fromRaw)
  | .DS => some ("DS", .DS <$> Records.DS.fromRaw)
  | .CDS => some ("CDS", .CDS <$> Records.DS.fromRaw)
  | .RRSIG => some ("RRSIG", .RRSIG <$> Records.SIG.fromRaw)
  | .HINFO => some ("HINFO", .HINFO <$> Records.HINFO.fromRaw)
  | .OPT => none
  | .other _ => none

/-- `PARSE_AS_RR`. When octets are left over the source first formats the RDATA from
the stream's absolute offset on, which asserts that the offset is inside the RDATA. -/
def parseAs (label : String) (parser : Parser Record) (rdata : Octets) : Parser Record := do
  let record ← parser
  let eof ← isEof
  if eof = true then
    return record
  else do
    let offset ← readBytes
    if rdata.length < offset then
      throw .verifyFailed
    else throw (.error ("Extra data in " ++ label ++ " record content"))

/-- The RDATA is parsed from a stream of its own that counts from where the RDATA
started; the tree of names goes in and comes back. -/
def withRdata (offset : Nat) (rdata : Octets) (parser : Parser Record) : Parser Record :=
  fun ctx => do
    let (record, after) ← parser { ctx with stream := { remaining := rdata, readBytes := offset } }
    return (record, { after with stream := ctx.stream })

/-- What has been read since `start`, as `RecordingStream` collects it. -/
def recordedSince (start : CountingStream) : Parser Octets := fun ctx =>
  .ok (start.remaining.take (ctx.stream.readBytes - start.readBytes), ctx)

def readContent (type : ResourceType) (offset : Nat) (rdata : Octets) : Parser Record :=
  match contentParser type with
  | some (label, parser) => withRdata offset rdata (parseAs label parser rdata)
  | none => return .raw rdata

def fromRaw : Parser ResourceRecord := do
  let ctx ← get
  let name ← DomainName.fromRaw
  let code ← readU16
  if ResourceType.ofCode code = .OPT then do
    let record ← Records.OPT.fromRaw
    let raw ← recordedSince ctx.stream
    return { name := name, type := .OPT, class_ := .IN, ttl := 0, record := .OPT record,
             raw := some raw }
  else do
    let class_ ← readU16
    let ttl ← readU32
    let rdLength ← readU16
    let originalOffset ← readBytes
    let rdata ← readUntilFilled rdLength.toNat
    let raw ← recordedSince ctx.stream
    let record ← readContent (.ofCode code) originalOffset rdata
    return { name := name, type := .ofCode code, class_ := .ofCode class_, ttl := ttl,
             record := record, raw := some raw }

end ResourceRecord

def Header.fromRaw : Parser Header := do
  let id ← readU16
  let options ← readU16
  let questionCount ← readU16
  let answerCount ← readU16
  let authorityCount ← readU16
  let additionalCount ← readU16
  return { id, options, questionCount, answerCount, authorityCount, additionalCount }

namespace Message

def fromContext : Parser Message := do
  let header ← Header.fromRaw
  let questions ← repeated Question.fromRaw header.questionCount.toNat
  let answers ← repeated ResourceRecord.fromRaw header.answerCount.toNat
  let authorities ← repeated ResourceRecord.fromRaw header.authorityCount.toNat
  let additionalRecords ← repeated ResourceRecord.fromRaw header.additionalCount.toNat
  return { header, questions, answers, authorities, additionalRecords }

def initialContext (octets : Octets) : ParseContext :=
  { stream := { remaining := octets, readBytes := 0 }, pointers := .leaf, inserted := [] }

/-- `from_raw` on a stream over the octets; the context it ends in comes with it. -/
def fromRaw (octets : Octets) : Except Failure (Message × ParseContext) :=
  fromContext (initialContext octets)

end Message

/-! ## The names of a message, in the order they are parsed in -/

def Record.names : Record → List DomainName
  | .CNAME name => [name]
  | .NS name => [name]
  | .SOA record => [record.mname, record.rname]
  | .MX record => [record.exchange]
  | .PTR name => [name]
  | .SRV record => [record.target]
  | .RRSIG record => [record.signersName]
  | _ => []

def ResourceRecord.names (record : ResourceRecord) : List DomainName :=
  record.name :: record.record.names

def Message.names (message : Message) : List DomainName :=
  message.questions.map Question.name ++ message.answers.flatMap ResourceRecord.names ++
    message.authorities.flatMap ResourceRecord.names ++
    message.additionalRecords.flatMap ResourceRecord.names

end Ladybone.DNS
