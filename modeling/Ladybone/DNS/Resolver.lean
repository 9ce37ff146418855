import Ladybone.DNS.Encoding
import Mathlib.Data.List.Sort

/-!
# The resolver

`DNS::Resolver` as a transition system. `LookupResult` objects are shared between the
cache, pending lookups, promises and validations, so they live in an arena and are
referred to by index; promises likewise. The server is the environment: a step may
deliver any octets. A validation waits on lookups of its own several times; each wait
is a task that a later step resumes once its promises have settled.

Signature checks and the recognition of address literals are parameters (`Platform`),
as are the configured root keys. The identifiers of queries are drawn at random, so
each step that sends one is given the identifier; whether there is a connection and
whether the write succeeds is also up to the environment.
-/

namespace Ladybone.DNS

structure Platform where
  verify : Algorithm → Octets → Octets → Octets → Except String Bool
  (ipv4FromString ipv6FromString : Octets → Option Octets)
  rootZoneDnskeys : List Records.DNSKEY

abbrev ResultRef := Nat
abbrev PromiseRef := Nat

/-! ## Lookup results -/

structure CachedRecord where
  record : ResourceRecord
  expiration : Option Nat
deriving DecidableEq

structure LookupResult where
  name : DomainName
  (valid requestDone dnssecValidated beingDnssecValidated : Bool)
  cachedRecords : List CachedRecord
  desiredTypes : List ResourceType
  usedDnskeys : List Records.DNSKEY
  seenKeyTags : List UInt16
  id : UInt16
deriving DecidableEq

namespace LookupResult

def make (name : DomainName) : LookupResult :=
  { name := name, valid := false, requestDone := false, dnssecValidated := false,
    beingDnssecValidated := false, cachedRecords := [], desiredTypes := [],
    usedDnskeys := [], seenKeyTags := [], id := 0 }

def isFresh (now : Nat) (cached : CachedRecord) : Bool :=
  match cached.expiration with
  | some expiration => now ≤ expiration
  | none => true

def checkExpiration (now : Nat) (result : LookupResult) : LookupResult :=
  if result.valid then
    let kept := result.cachedRecords.filter (isFresh now)
    { result with
      cachedRecords := kept
      valid := !(kept.isEmpty && result.requestDone) }
  else result

def addRecord (now : Nat) (record : ResourceRecord) (result : LookupResult) : LookupResult :=
  let expiration := if 0 < record.ttl then some (now + record.ttl.toNat) else none
  { result with
    valid := true
    cachedRecords := result.cachedRecords ++ [{ record := record, expiration := expiration }] }

def addRecords (now : Nat) (records : List ResourceRecord) (result : LookupResult) : LookupResult :=
  records.foldl (fun result record => addRecord now record result) result

def records (result : LookupResult) : List ResourceRecord :=
  result.cachedRecords.map CachedRecord.record

def recordsOfType (type : ResourceType) (result : LookupResult) : List ResourceRecord :=
  result.records.filter fun record => record.type = type

def hasRecordOfType (type : ResourceType) (later : Bool) (result : LookupResult) : Bool :=
  (later && result.desiredTypes.contains type) || !(result.recordsOfType type).isEmpty

def canBeRemoved (result : LookupResult) : Bool := !result.valid && result.requestDone

def addDnskey (key : Records.DNSKEY) (result : LookupResult) : LookupResult :=
  if result.seenKeyTags.contains key.calculatedKeyTag then result
  else
    { result with
      seenKeyTags := key.calculatedKeyTag :: result.seenKeyTags
      usedDnskeys := result.usedDnskeys ++ [key] }

def addDnskeys (keys : List Records.DNSKEY) (result : LookupResult) : LookupResult :=
  keys.foldl (fun result key => addDnskey key result) result

end LookupResult

/-! ## Checking one answer -/

structure RecordsAndRRSIG where
  records : List ResourceRecord
  rrsig : Records.SIG
deriving DecidableEq

def Records.SIG.empty : Records.SIG :=
  { typeCovered := .other 0, algorithm := .other 0, labelCount := 0, originalTtl := 0,
    expiration := 0, inception := 0, keyTag := 0, signersName := { labels := [] },
    signature := [] }

/-- What is left in an `RRSIG` that has been moved from. -/
def Records.SIG.movedFrom (rrsig : Records.SIG) : Records.SIG :=
  { rrsig with signersName := { labels := [] }, signature := [] }

abbrev Groups := List (ResourceType × RecordsAndRRSIG)

/-- `HashMap` update: change the entry of a key in place, or add one. -/
def upsert {Key Value : Type} [DecidableEq Key] (key : Key) (change : Value → Value)
    (added : Value) : List (Key × Value) → List (Key × Value)
  | [] => [(key, added)]
  | (other, value) :: rest =>
    if other = key then (other, change value) :: rest
    else (other, value) :: upsert key change added rest

def groupAnswer (groups : Groups) (record : ResourceRecord) : Except Failure Groups :=
  if record.type = .RRSIG then
    match record.record with
    | .RRSIG rrsig =>
      .ok (upsert rrsig.typeCovered (fun group => { group with rrsig := rrsig })
        { records := [], rrsig := rrsig } groups)
    | _ => .error .verifyFailed
  else
    .ok (upsert record.type (fun group => { group with records := group.records ++ [record] })
      { records := [record], rrsig := .empty } groups)

def groupAnswers (answers : List ResourceRecord) : Except Failure Groups :=
  answers.foldlM groupAnswer []

def dnskeysOf : List ResourceRecord → Except Failure (List Records.DNSKEY)
  | [] => .ok []
  | record :: rest =>
    match record.record with
    | .DNSKEY key => do
        let keys ← dnskeysOf rest
        return key :: keys
    | _ => .error .verifyFailed

def inMessageRecords (groups : Groups) : List ResourceRecord :=
  (groups.filter fun group => group.1 = .DNSKEY).flatMap fun group => group.2.records

structure CanonicalizedRRSet where
  rrset : List ResourceRecord
  rrsig : Records.SIG
  dnskeys : List Records.DNSKEY
deriving DecidableEq

abbrev SetKey := Octets × ResourceType × Class

def setKey (record : ResourceRecord) : SetKey :=
  (record.name.toCanonicalString, record.type, record.class_)

/-- One record of a group. The first record of an owner takes the group's `RRSIG` with
it by a move, so a second owner in the same group finds it emptied. -/
def addToSet (keys : List Records.DNSKEY)
    (acc : List (SetKey × CanonicalizedRRSet) × Records.SIG) (record : ResourceRecord) :
    List (SetKey × CanonicalizedRRSet) × Records.SIG :=
  let key := setKey record
  let sets := upsert key
    (fun set => { set with rrset := set.rrset ++ [record] })
    { rrset := [record], rrsig := acc.2,
      dnskeys := keys.filter fun candidate => candidate.algorithm = acc.2.algorithm } acc.1
  if acc.1.any fun entry => entry.1 = key then (sets, acc.2)
  else (sets, acc.2.movedFrom)

def canonicalSets (keys : List Records.DNSKEY) (groups : Groups) :
    List (SetKey × CanonicalizedRRSet) :=
  groups.foldl
    (fun sets group => (group.2.records.foldl (addToSet keys) (sets, group.2.rrsig)).1) []

def findDnskey (set : CanonicalizedRRSet) : Option Records.DNSKEY :=
  set.dnskeys.find? fun key => key.calculatedKeyTag = set.rrsig.keyTag

def octetsBefore : Octets → Octets → Bool
  | first :: rest, second :: others =>
    if first = second then octetsBefore rest others else first < second
  | _, _ => false

def toBeSigned (rrset : List ResourceRecord) (rrsig : Records.SIG) : Except Failure Octets := do
  let encoded ← rrset.mapM fun record =>
    ResourceRecord.toRaw { record with ttl := rrsig.originalTtl }
  let sorted := encoded.insertionSort fun one other => !octetsBefore other one
  let header ← rrsig.toRawExcludingSignature
  return header ++ sorted.flatten

/-- The signature checks of `validate_rrset_with_rrsig`, by the name in their error. -/
def Algorithm.checkName : Algorithm → Option String
  | .RSAMD5 => some "RSA/MD5"
  | .ECDSAP256SHA256 => some "ECDSA/SHA256"
  | .ECDSAP384SHA384 => some "ECDSA/SHA384"
  | .RSASHA512 => some "RSA/SHA512"
  | .RSASHA1 => some "RSA/SHA1"
  | .RSASHA256 => some "RSA/SHA256"
  | .ED25519 => some "ED25519"
  | .DSA => none
  | .RSASHA1NSEC3SHA1 => none
  | .Unknown => none
  | .other _ => none

/-- The `switch` over the key's algorithm, which has no case for a value outside the
enumeration and so lets it pass. -/
def checkSignature (platform : Platform) (key : Records.DNSKEY) (data signature : Octets) :
    Except Failure Unit :=
  match key.algorithm.checkName with
  | some name =>
    if key.algorithm = .RSAMD5 ∧ signature = [] then
      .error (.error "RRSIG has an empty signature")
    else
      match platform.verify key.algorithm key.publicKey data signature with
      | .error text => .error (.error text)
      | .ok false => .error (.error (name ++ " signature validation failed"))
      | .ok true => .ok ()
  | none =>
    match key.algorithm with
    | .other _ => .ok ()
    | _ => .error (.error "Unsupported algorithm for DNSSEC validation")

/-- `validate_rrset_with_rrsig`: the records to add to the result. The source
dereferences what `find_dnskey` returns without a check. -/
def validateRrset (platform : Platform) (set : CanonicalizedRRSet) :
    Except Failure (List ResourceRecord) :=
  match toBeSigned set.rrset set.rrsig, findDnskey set with
  | .error failure, _ => .error failure
  | .ok _, none => .error .verifyFailed
  | .ok data, some key =>
    match checkSignature platform key data set.rrsig.signature with
    | .error failure => .error failure
    | .ok () =>
      .ok (set.rrset.map fun record => { record with ttl := set.rrsig.originalTtl })

/-! ## The resolver's state -/

structure PendingLookup where
  id : UInt16
  name : Octets
  parsedName : DomainName
  result : ResultRef
  promise : PromiseRef
  desiredTypes : List ResourceType
  (validate timerRunning : Bool)
  timesRepeated : Nat
deriving DecidableEq

inductive Settled where
  | pending
  | resolved (result : ResultRef)
  | rejected (error : String)
deriving DecidableEq

/-- What a validation of an answer carries from wait to wait. -/
structure Job where
  lookup : PendingLookup
  name : DomainName
  groups : Groups
  result : ResultRef
deriving DecidableEq

inductive Task where
  | start (job : Job)
  | chainDelegation (job : Job) (name : DomainName) (promises : List PromiseRef)
  | chainDs (job : Job) (promise : PromiseRef)
  | parentKeys (job : Job) (promise : PromiseRef)
  | ownKeys (job : Job) (promise : PromiseRef) (parentZoneKeys : List Records.DNSKEY)
deriving DecidableEq

def Task.job : Task → Job
  | start job => job
  | chainDelegation job _ _ => job
  | chainDs job _ => job
  | parentKeys job _ => job
  | ownKeys job _ _ => job

inductive AddressFamily where
  | ipv4Only
  | ipv6Only
deriving DecidableEq

inductive Address where
  | v4 (octets : Octets)
  | v6 (octets : Octets)
deriving DecidableEq

/-- An in-flight lookup of the system resolver, one worker for each family. -/
structure SystemResolution where
  name : Octets
  result : ResultRef
  waitingPromises : List PromiseRef
  (a aaaa promiseResolved graceTimer : Bool)
deriving DecidableEq

structure Resolver where
  now : Nat
  results : List LookupResult
  cache : List (Octets × ResultRef)
  pending : List PendingLookup
  promises : List Settled
  tasks : List Task
  system : List SystemResolution
  crashed : Bool
deriving DecidableEq

structure Supply where
  id : UInt16
  (connected sent : Bool)
deriving DecidableEq

namespace Resolver

def addressRecord (ttl : UInt32) : Address → ResourceRecord
  | .v4 octets =>
    { name := { labels := [] }, type := .A, class_ := .IN, ttl := ttl, record := .A octets,
      raw := none }
  | .v6 octets =>
    { name := { labels := [] }, type := .AAAA, class_ := .IN, ttl := ttl,
      record := .AAAA octets, raw := none }

def localhostName : Octets := [108, 111, 99, 97, 108, 104, 111, 115, 116]

def localhost : LookupResult :=
  let named :=
    { LookupResult.make (.fromString localhostName) with desiredTypes := [.A, .AAAA] }
  let filled := named.addRecords 0
    [addressRecord 0 (.v4 [127, 0, 0, 1]), addressRecord 0 (.v6 (List.replicate 15 0 ++ [1]))]
  { filled with requestDone := true }

def initial : Resolver :=
  { now := 0, results := [localhost], cache := [(localhostName, 0)], pending := [],
    promises := [], tasks := [], system := [], crashed := false }

variable (platform : Platform) (resolver : Resolver)

def modifyResult (result : ResultRef) (change : LookupResult → LookupResult) : Resolver :=
  { resolver with results := resolver.results.modify result change }

def newResult (result : LookupResult) : Resolver :=
  { resolver with results := resolver.results ++ [result] }

def newPromise : Resolver := { resolver with promises := resolver.promises ++ [.pending] }

def settle (promise : PromiseRef) (outcome : Settled) : Resolver :=
  { resolver with promises := resolver.promises.set promise outcome }

def settleAll (promises : List PromiseRef) (outcome : Settled) : Resolver :=
  promises.foldl (fun resolver promise => resolver.settle promise outcome) resolver

def removable (result : ResultRef) : Bool :=
  match resolver.results[result]? with
  | some found => found.canBeRemoved
  | none => false

/-- Every cached result drops its expired records, and those left with none are
removed from the cache. -/
def flushCache : Resolver :=
  let expired := resolver.cache.foldl
    (fun resolver entry =>
      resolver.modifyResult entry.2 (LookupResult.checkExpiration resolver.now))
    resolver
  { expired with cache := expired.cache.filter fun entry => !expired.removable entry.2 }

def cached (name : Octets) : Option (ResultRef × LookupResult) :=
  match resolver.cache.find? fun entry => entry.1 = name with
  | none => none
  | some entry => (resolver.results[entry.2]?).map fun result => (entry.2, result)

def setCached (name : Octets) (result : ResultRef) : Resolver :=
  { resolver with cache := upsert name (fun _ => result) result resolver.cache }

def lookupInCache (name : Octets) (desiredTypes : List ResourceType) :
    Option (ResultRef × LookupResult) :=
  match resolver.cached name with
  | none => none
  | some (ref, result) =>
    if desiredTypes.all fun type => result.hasRecordOfType type result.requestDone then
      some (ref, result)
    else none

def findPending (id : UInt16) : Option PendingLookup :=
  resolver.pending.find? fun lookup => lookup.id = id

def removePending (id : UInt16) : Resolver :=
  { resolver with pending := resolver.pending.filter fun lookup => lookup.id ≠ id }

def changePending (id : UInt16) (change : PendingLookup → PendingLookup) : Resolver :=
  { resolver with
    pending := resolver.pending.map fun lookup =>
      if lookup.id = id then change lookup else lookup }

/-- A result of its own for an address literal, not kept in the cache. -/
def resolveLiteral (promise : PromiseRef) (address : Address) : Resolver :=
  let result := { (LookupResult.make { labels := [] }).addRecord resolver.now
    (addressRecord 0 address) with requestDone := true }
  (resolver.newResult result).settle promise (.resolved resolver.results.length)

section
variable (name : Octets) (desiredTypes : List ResourceType)

def resolveBySystem (promise : PromiseRef) : Resolver :=
  match resolver.system.find? fun resolution => resolution.name = name with
  | some existing =>
    if existing.promiseResolved then
      match resolver.results[existing.result]? with
      | none => resolver
      | some result =>
        if result.cachedRecords.isEmpty then
          resolver.settle promise (.rejected "Could not resolve to IPv4 or IPv6 address")
        else resolver.settle promise (.resolved existing.result)
    else
      { resolver with
        system := resolver.system.map fun resolution =>
          if resolution.name = name then
            { resolution with waitingPromises := resolution.waitingPromises ++ [promise] }
          else resolution }
  | none =>
    let result := { LookupResult.make (.fromString name) with desiredTypes := desiredTypes }
    { resolver.newResult result with
      system := resolver.system ++
        [{ name := name, result := resolver.results.length, waitingPromises := [promise],
           a := false, aaaa := false, promiseResolved := false, graceTimer := false }] }

/-- The cache entry a query's answer will go to; a new one for a validating lookup is
marked as validated before there is an answer. -/
def queryResult (validate : Bool) : Resolver × ResultRef × Bool :=
  match resolver.cached name with
  | some (ref, result) =>
    let unvalidated := !validate && !result.beingDnssecValidated
    (resolver, ref, (unvalidated || result.dnssecValidated) &&
      desiredTypes.all fun type => result.hasRecordOfType type unvalidated)
  | none =>
    let result :=
      { LookupResult.make (.fromString name) with
        dnssecValidated := validate
        desiredTypes := desiredTypes }
    ((resolver.newResult result).setCached name resolver.results.length,
      resolver.results.length, false)

def sendQuery (validate : Bool)
    (result : ResultRef) (promise : PromiseRef) (id : UInt16) (repeating sent : Bool) : Resolver :=
  let marked := resolver.modifyResult result fun found => { found with id := id }
  let queued :=
    if repeating then
      marked.changePending id fun lookup =>
        { lookup with timesRepeated := lookup.timesRepeated + 1 }
    else
      { marked with
        pending := marked.pending ++
          [{ id := id, name := name, parsedName := .fromString name, result := result,
             promise := promise, desiredTypes := desiredTypes, validate := validate,
             timerRunning := false, timesRepeated := 0 }] }
  if sent then
    -- a repeated query under the identifier of the cached result has no pending lookup
    if (queued.findPending id).isSome then
      queued.changePending id fun lookup => { lookup with timerRunning := true }
    else { queued with crashed := true }
  else queued.settle promise (.rejected "write failed")

/-- The asynchronous path of `lookup`. `none` when the drawn identifier is in use: the
source draws again. -/
def query (validate : Bool) (promise : PromiseRef) (repeating : Option UInt16) (supply : Supply) :
    Option (Resolver × PromiseRef) :=
  let (found, result, alreadyInCache) := resolver.queryResult name desiredTypes validate
  match found.results[result]? with
  | none => none
  | some entry =>
    if alreadyInCache then
      match found.findPending entry.id with
      | some lookup => some (found, lookup.promise)
      | none =>
        if entry.requestDone then some (found.settle promise (.resolved result), promise)
        else
          some (found.sendQuery name desiredTypes validate result promise entry.id
            repeating.isSome supply.sent, promise)
    else
      match repeating with
      | some id =>
        some (found.sendQuery name desiredTypes validate result promise id true
          supply.sent, promise)
      | none =>
        if (found.findPending supply.id).isSome then none
        else
          some (found.sendQuery name desiredTypes validate result promise supply.id false
            supply.sent, promise)

def lookupMissed (validate : Bool)
    (promise : PromiseRef) (repeating : Option UInt16) (supply : Supply) :
    Option (Resolver × PromiseRef) :=
  if supply.connected then
    resolver.query name desiredTypes validate promise repeating supply
  else if validate then
    some (resolver.settle promise (.rejected "No connection available to validate DNSSEC"), promise)
  else some (resolver.resolveBySystem name desiredTypes promise, promise)

def lookupCached (validate : Bool)
    (promise : PromiseRef) (repeating : Option UInt16) (supply : Supply) :
    Option (Resolver × PromiseRef) :=
  match resolver.lookupInCache name desiredTypes with
  | some (ref, result) =>
    if !validate || result.dnssecValidated then
      some (resolver.settle promise (.resolved ref), promise)
    else resolver.lookupMissed name desiredTypes validate promise repeating supply
  | none => resolver.lookupMissed name desiredTypes validate promise repeating supply

def literalAddress : Option Address :=
  ((platform.ipv4FromString name).filter fun _ => desiredTypes.contains .A).map .v4 <|>
    ((platform.ipv6FromString name).filter fun _ => desiredTypes.contains .AAAA).map .v6

def lookupWith (validate : Bool)
    (promise : PromiseRef) (repeating : Option UInt16) (supply : Supply) :
    Option (Resolver × PromiseRef) :=
  match literalAddress platform name desiredTypes with
  | some address => some (resolver.resolveLiteral promise address, promise)
  | none => resolver.lookupCached name desiredTypes validate promise repeating supply

def lookup (validate : Bool) (supply : Supply) : Option (Resolver × PromiseRef) :=
  let flushed := resolver.flushCache
  lookupWith platform flushed.newPromise name desiredTypes validate flushed.promises.length
    none supply

end

def repeatLookup (id : UInt16) (supply : Supply) : Option Resolver :=
  match resolver.findPending id with
  | none => none
  | some pending =>
    if pending.timerRunning then
      let fired := resolver.changePending id fun lookup =>
        { lookup with timerRunning := false }
      let flushed := fired.flushCache
      if 5 ≤ pending.timesRepeated then
        some ((flushed.settle pending.promise (.rejected "DNS lookup timed out")).removePending id)
      else
        (lookupWith platform flushed pending.name pending.desiredTypes pending.validate
          pending.promise (some id) supply).map Prod.fst
    else none

/-! ## Incoming messages -/

def answerUnvalidated (lookup : PendingLookup) (answers : List ResourceRecord) : Resolver :=
  let filled := resolver.modifyResult lookup.result fun result =>
    { result.addRecords resolver.now answers with requestDone := true }
  (filled.settle lookup.promise (.resolved lookup.result)).removePending lookup.id

def crash : Resolver := { resolver with crashed := true }

/-- `validate_dnssec` up to its deferred part. -/
def validateDnssec (lookup : PendingLookup) (result : LookupResult)
    (answers : List ResourceRecord) : Resolver :=
  match groupAnswers answers with
  | .error _ => resolver.crash
  | .ok groups =>
    if groups.isEmpty then resolver
    else
      { resolver with
        tasks := resolver.tasks ++
          [.start { lookup := lookup, name := result.name, groups := groups,
                    result := lookup.result }] }

/-- One message of `process_incoming_messages`. `purged` says that the weak pointer to
the result is gone, which needs the cache to have dropped it. -/
def processMessage (octets : Octets) (purged : Bool) : Resolver :=
  match Message.fromRaw octets with
  | .error .verifyFailed => resolver.crash
  | .error (.error _) => resolver
  | .ok (message, _) =>
    match resolver.findPending message.header.id with
    | none => resolver
    | some lookup =>
      if purged && !(resolver.cache.any fun entry => entry.2 = lookup.result) then resolver
      else
        let stopped := resolver.changePending lookup.id fun lookup =>
          { lookup with timerRunning := false }
        match stopped.results[lookup.result]? with
        | none => resolver
        | some result =>
          if result.dnssecValidated then
            stopped.validateDnssec lookup result message.answers
          else stopped.answerUnvalidated lookup message.answers

/-! ## Validations -/

def awaitAll (promises : List PromiseRef) : Option (Except String ResultRef) :=
  let outcomes := promises.filterMap fun promise => resolver.promises[promise]?
  if outcomes.contains .pending then none
  else
    let values := outcomes.filterMap fun outcome =>
      match outcome with
      | .resolved result => some result
      | _ => none
    let errors := outcomes.filterMap fun outcome =>
      match outcome with
      | .rejected error => some error
      | _ => none
    match values.head?, errors.getLast? with
    | some value, _ => some (.ok value)
    | none, some error => some (.error error)
    | none, none => none

def await (promise : PromiseRef) : Option (Except String ResultRef) :=
  resolver.awaitAll [promise]

/-- Checks the sets of an answer one after the other and adds the valid ones to the
result; with the text of the last rejection. -/
def addValidated (result : ResultRef) : List CanonicalizedRRSet → Resolver → Option String →
      Except Failure (Resolver × Option String)
  | [], resolver, error => .ok (resolver, error)
  | set :: rest, resolver, error =>
    match validateRrset platform set with
    | .error .verifyFailed => .error .verifyFailed
    | .error (.error text) => addValidated result rest resolver (some text)
    | .ok records =>
      addValidated result rest
        (resolver.modifyResult result (LookupResult.addRecords resolver.now records)) error

/-- The sets of the answer that are checked; those without a key are passed over. -/
def checkedSets (keys : List Records.DNSKEY) (groups : Groups) : List CanonicalizedRRSet :=
  ((canonicalSets keys groups).map Prod.snd).filter fun set => !set.dnskeys.isEmpty

def resolveUsingKeys (job : Job) (keys : List Records.DNSKEY) : Resolver :=
  match dnskeysOf (inMessageRecords job.groups) with
  | .error _ => resolver.crash
  | .ok fromMessage =>
    let all := keys ++ fromMessage
    let sets := checkedSets all job.groups
    -- nothing to wait for: the promise of no promises never settles
    if sets.isEmpty then resolver
    else
      match addValidated platform job.result sets resolver none with
      | .error _ => resolver.crash
      | .ok (checked, none) =>
        (checked.modifyResult job.result fun result =>
          { result.addDnskeys all with
            dnssecValidated := true
            beingDnssecValidated := false
            requestDone := true }).settle job.lookup.promise (.resolved job.result)
      | .ok (checked, some error) =>
        (checked.modifyResult job.result fun result =>
          { result with
            requestDone := true
            beingDnssecValidated := false }).settle job.lookup.promise (.rejected error)

def reject (job : Job) (error : String) : Resolver :=
  resolver.settle job.lookup.promise (.rejected error)

/-- After the chain: the keys of the parent zone, from a validated lookup. -/
def chainDone (job : Job) (valid : Bool) (supply : Supply) : Option (Resolver × Option Task) :=
  if valid then
    (resolver.lookup platform job.lookup.parsedName.parent.toString [.DNSKEY] true supply).map
      fun found => (found.1, some (.parentKeys job found.2))
  else some (resolver.reject job "DNSSEC chain is invalid", none)

/-- `validate_dnssec_chain_step` up to its first wait. -/
def chainStep (job : Job) (name : DomainName) (topLevel : Bool) (first second third : Supply) :
    Option (Resolver × Option Task) :=
  if name.labels.isEmpty then resolver.chainDone platform job true first
  else do
    let (afterSoa, soa) ← resolver.lookup platform name.toString [.SOA] (!topLevel) first
    let (afterDs, ds) ← afterSoa.lookup platform name.toString [.DS] (!topLevel) second
    let (afterNs, ns) ← afterDs.lookup platform name.toString [.NS] (!topLevel) third
    return (afterNs, some (.chainDelegation job name [soa, ds, ns]))

/-- Runs a task to its end or to its next wait; `none` while what it waits for has not
settled. The resumed task itself is still in the list. -/
def runTask (task : Task) (first second third : Supply) : Option (Resolver × Option Task) :=
  match task with
  | .start job =>
    let marked := resolver.modifyResult job.result fun result =>
      { result with dnssecValidated := false, beingDnssecValidated := true }
    if job.lookup.parsedName.labels.isEmpty then
      some (marked.resolveUsingKeys platform job platform.rootZoneDnskeys, none)
    else marked.chainStep platform job job.name true first second third
  | .chainDelegation job name promises => do
      let outcome ← resolver.awaitAll promises
      match outcome with
      | .error error => return (resolver.reject job error, none)
      | .ok ref => do
          let result ← resolver.results[ref]?
          match (result.recordsOfType .SOA).head? with
          | none =>
            if result.hasRecordOfType .DS false || result.hasRecordOfType .NS false then
              resolver.chainDone platform job false first
            else resolver.chainStep platform job name.parent false first second third
          | some record =>
            match record.record with
            | .SOA soa =>
              if soa.mname = name.parent then
                resolver.chainStep platform job name.parent false first second third
              else do
                let (next, ds) ← resolver.lookup platform name.toString [.DS] false first
                return (next, some (.chainDs job ds))
            | _ => return (resolver.crash, none)
  | .chainDs job promise => do
      let outcome ← resolver.await promise
      match outcome with
      | .error error => return (resolver.reject job error, none)
      | .ok ref => do
          let result ← resolver.results[ref]?
          resolver.chainDone platform job (result.hasRecordOfType .DS false) first
  | .parentKeys job promise => do
      let outcome ← resolver.await promise
      match outcome with
      | .error error => return (resolver.reject job error, none)
      | .ok ref => do
          let result ← resolver.results[ref]?
          if result.dnssecValidated then
            match dnskeysOf (result.recordsOfType .DNSKEY) with
            | .error _ => return (resolver.crash, none)
            | .ok keys => do
                let (next, own) ← resolver.lookup platform job.lookup.name [.DNSKEY] false first
                return (next, some (.ownKeys job own (result.usedDnskeys ++ keys)))
          else return (resolver.reject job "Parent zone is not DNSSEC validated", none)
  | .ownKeys job promise parentZoneKeys => do
      let outcome ← resolver.await promise
      match outcome with
      | .error error =>
        -- the rejection does not keep the source from going on with the parent's keys
        let rejected := if parentZoneKeys.isEmpty then resolver.reject job error else resolver
        return (rejected.resolveUsingKeys platform job parentZoneKeys, none)
      | .ok ref => do
          let result ← resolver.results[ref]?
          match dnskeysOf (result.recordsOfType .DNSKEY) with
          | .error _ => return (resolver.crash, none)
          | .ok keys =>
            return (resolver.resolveUsingKeys platform job (parentZoneKeys ++ keys), none)

def replaceTask (index : Nat) : Option Task → Resolver
  | some task => { resolver with tasks := resolver.tasks.set index task }
  | none => { resolver with tasks := resolver.tasks.eraseIdx index }

/-! ## The system resolver -/

def finalizeSystem (resolution : SystemResolution) : Resolver :=
  if resolution.promiseResolved then resolver
  else
    match resolver.results[resolution.result]? with
    | none => resolver
    | some result =>
      if result.cachedRecords.isEmpty then
        resolver.settleAll resolution.waitingPromises
          (.rejected "Could not resolve to IPv4 or IPv6 address")
      else resolver.settleAll resolution.waitingPromises (.resolved resolution.result)

def changeSystem (name : Octets) (change : SystemResolution → SystemResolution) : Resolver :=
  { resolver with
    system := resolver.system.map fun resolution =>
      if resolution.name = name then change resolution else resolution }

def systemTtl : UInt32 := 60

def completeSystem (name : Octets) (family : AddressFamily) (answer : Option (List Address)) :
    Option Resolver :=
  match resolver.system.find? fun resolution => resolution.name = name with
  | none => none
  | some resolution =>
    let a := resolution.a || family = .ipv4Only
    let aaaa := resolution.aaaa || family = .ipv6Only
    let records := (answer.getD []).map (addressRecord systemTtl)
    let merged := resolver.modifyResult resolution.result
      (LookupResult.addRecords resolver.now records)
    if a && aaaa then
      let finished := (merged.modifyResult resolution.result fun result =>
        { result with requestDone := true }).setCached name resolution.result
      some ({ finished with
        system := finished.system.filter fun other => other.name ≠ name }.finalizeSystem
          resolution)
    else
      let starts := !resolution.promiseResolved && !records.isEmpty
      some (merged.changeSystem name fun other =>
        { other with a := a, aaaa := aaaa, graceTimer := other.graceTimer || starts })

def graceTimeout (name : Octets) : Option Resolver :=
  match resolver.system.find? fun resolution => resolution.name = name with
  | none => none
  | some resolution =>
    if resolution.graceTimer then
      some ((resolver.finalizeSystem resolution).changeSystem name fun other =>
        { other with promiseResolved := true, graceTimer := false, waitingPromises := [] })
    else none

end Resolver

/-! ## Steps -/

inductive ResolverAction where
  | advance (seconds : Nat)
  | request (name : Octets) (desiredTypes : List ResourceType) (validate : Bool)
      (supply : Supply)
  | receive (octets : Octets) (purged : Bool)
  | timeout (id : UInt16) (supply : Supply)
  | run (task : Nat) (first second third : Supply)
  | systemCompletion (name : Octets) (family : AddressFamily) (answer : Option (List Address))
  | graceTimeout (name : Octets)
deriving DecidableEq

def Resolver.step (platform : Platform) (resolver : Resolver) (action : ResolverAction) :
    Option Resolver :=
  if resolver.crashed then none
  else
    match action with
    | .advance seconds => some { resolver with now := resolver.now + seconds }
    | .request name desiredTypes validate supply =>
      (resolver.lookup platform name desiredTypes validate supply).map Prod.fst
    | .receive octets purged => some (resolver.processMessage octets purged)
    | .timeout id supply => resolver.repeatLookup platform id supply
    | .run index first second third => do
        let task ← resolver.tasks[index]?
        let (next, remaining) ← resolver.runTask platform task first second third
        return next.replaceTask index remaining
    | .systemCompletion name family answer => resolver.completeSystem name family answer
    | .graceTimeout name => resolver.graceTimeout name

end Ladybone.DNS
