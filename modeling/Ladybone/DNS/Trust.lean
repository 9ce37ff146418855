import Ladybone.DNS.Resolver

/-!
# What a validated lookup result is worth

`Trusted` are the keys that are linked to the configured root keys by signed DNSKEY and
DS records, `Authentic` the records of a set with a signature by such a key, made over
the set and inside its validity period. The resolver checks the signature, and nothing
else on that list: `Careful` is what the answers have to bring themselves for every
result that is reported as validated to hold authentic records only.
-/

namespace Ladybone.DNS

open List

/-- The digest of a key for a DS record, of which the resolver computes none. -/
abbrev KeyDigest := DigestType → DomainName → Records.DNSKEY → Octets

section
variable (platform : Platform) (digest : KeyDigest)

def InWindow (time : Nat) (rrsig : Records.SIG) : Prop :=
  rrsig.inception.toNat ≤ time ∧ time ≤ rrsig.expiration.toNat

/-- The signature is one of the key, over records of one owner, type and class, of the
type it says it covers. -/
structure Signed (time : Nat) (key : Records.DNSKEY) (rrset : List ResourceRecord)
    (rrsig : Records.SIG) : Prop where
  uniform : ∀ record ∈ rrset, ∀ other ∈ rrset, setKey record = setKey other
  covers : ∀ record ∈ rrset, record.type = rrsig.typeCovered
  window : InWindow time rrsig
  tagged : key.calculatedKeyTag = rrsig.keyTag ∧ key.algorithm = rrsig.algorithm
  verified : ∃ data, toBeSigned rrset rrsig = .ok data ∧
    platform.verify key.algorithm key.publicKey data rrsig.signature = .ok true

inductive Trusted (now : Nat) : Records.DNSKEY → Prop where
  | root {key : Records.DNSKEY} (configured : key ∈ platform.rootZoneDnskeys) :
      Trusted now key
  | keySet {key signer : Records.DNSKEY} {time : Nat} {rrset : List ResourceRecord}
      {rrsig : Records.SIG} {record : ResourceRecord} (trusted : Trusted now signer)
      (past : time ≤ now) (signed : Signed platform time signer rrset rrsig)
      (member : record ∈ rrset) (isKey : record.record = .DNSKEY key) : Trusted now key
  | delegation {key signer : Records.DNSKEY} {time : Nat} {rrset : List ResourceRecord}
      {rrsig : Records.SIG} {record : ResourceRecord} {ds : Records.DS}
      (trusted : Trusted now signer) (past : time ≤ now)
      (signed : Signed platform time signer rrset rrsig) (member : record ∈ rrset)
      (isDs : record.record = .DS ds) (sameTag : ds.keyTag = key.calculatedKeyTag)
      (sameAlgorithm : ds.algorithm = key.algorithm)
      (sameDigest : ds.digest = digest ds.digestType record.name key) : Trusted now key

def Authentic (now : Nat) (record : ResourceRecord) : Prop :=
  ∃ time key rrset rrsig, time ≤ now ∧ Trusted platform digest now key ∧
    Signed platform time key rrset rrsig ∧ record ∈ rrset

theorem Trusted.later {now later : Nat} {key : Records.DNSKEY} (passed : now ≤ later)
    (trusted : Trusted platform digest now key) : Trusted platform digest later key := by
  induction trusted with
  | root configured => exact .root configured
  | keySet _ past signed mem isKey ih =>
    exact .keySet ih (Nat.le_trans past passed) signed mem isKey
  | delegation _ past signed mem isDs sameTag sameAlgorithm sameDigest ih =>
    exact .delegation ih (Nat.le_trans past passed) signed mem isDs sameTag sameAlgorithm sameDigest

theorem Authentic.later {now later : Nat} {record : ResourceRecord} (passed : now ≤ later)
    (authentic : Authentic platform digest now record) :
    Authentic platform digest later record := by
  rcases authentic with ⟨time, key, rrset, rrsig, past, trusted, signed, mem⟩
  exact ⟨time, key, rrset, rrsig, Nat.le_trans past passed, trusted.later platform digest passed,
    signed, mem⟩

end

/-! ## The sets of an answer -/

theorem mem_upsert {Key Value : Type} [DecidableEq Key] {key : Key} {change : Value → Value}
    {added : Value} {entries : List (Key × Value)} {entry : Key × Value}
    (mem : entry ∈ upsert key change added entries) :
    entry ∈ entries ∨ (∃ val, (key, val) ∈ entries ∧ entry = (key, change val)) ∨
      entry = (key, added) := by
  induction entries with
  | nil => exact .inr (.inr (mem_singleton.mp mem))
  | cons first _ ih =>
    rw [upsert] at mem
    split_ifs at mem with same
    · subst same
      rcases mem_cons.mp mem with changed | inRest
      · exact .inr (.inl ⟨first.2, mem_cons_self, changed⟩)
      · exact .inl (mem_cons_of_mem _ inRest)
    · rcases mem_cons.mp mem with rfl | inRest
      · exact .inl mem_cons_self
      · rcases ih inRest with old | ⟨val, found, changed⟩ | new
        · exact .inl (mem_cons_of_mem _ old)
        · exact .inr (.inl ⟨val, mem_cons_of_mem _ found, changed⟩)
        · exact .inr (.inr new)

def TypedFor (type : ResourceType) (rrsig : Records.SIG) : Prop :=
  rrsig.algorithm = .other 0 ∨ rrsig.typeCovered = type

variable {type : ResourceType} {groups : Groups} {record : ResourceRecord}
  {keys : List Records.DNSKEY} {platform : Platform} {set : CanonicalizedRRSet}
  {records : List ResourceRecord}

def Grouped (groups : Groups) : Prop :=
  ∀ group ∈ groups, (∀ record ∈ group.2.records, record.type = group.1) ∧
    TypedFor group.1 group.2.rrsig

theorem group_answer_grouped {next : Groups} (grouped : Grouped groups)
    (made : groupAnswer groups record = .ok next) : Grouped next := by
  rw [groupAnswer] at made
  split_ifs at made with isSignature
  · split at made
    · cases made
      intro group mem
      rcases mem_upsert mem with old | ⟨val, found, rfl⟩ | rfl
      · exact grouped group old
      · exact ⟨(grouped _ found).1, .inr rfl⟩
      · exact ⟨forall_mem_nil _, .inr rfl⟩
    · cases made
  · cases made
    intro group mem
    rcases mem_upsert mem with old | ⟨val, found, rfl⟩ | rfl
    · exact grouped group old
    · refine ⟨forall_mem_append.mpr ⟨(grouped _ found).1, ?_⟩, (grouped _ found).2⟩
      exact forall_mem_singleton.mpr rfl
    · exact ⟨forall_mem_singleton.mpr rfl, .inl rfl⟩

theorem group_answers_grouped {answers : List ResourceRecord} {start : Groups}
    (grouped : Grouped start) (made : answers.foldlM groupAnswer start = .ok groups) :
    Grouped groups := by
  induction answers generalizing start with
  | nil =>
    cases made
    exact grouped
  | cons record _ ih =>
    obtain ⟨_, first, made⟩ := Support.Checks.bind_eq_ok.mp made
    exact ih (group_answer_grouped grouped first) made

def SetsFrom (keys : List Records.DNSKEY) (sets : List (SetKey × CanonicalizedRRSet)) : Prop :=
  ∀ entry ∈ sets, (∀ record ∈ entry.2.rrset, setKey record = entry.1) ∧
    TypedFor entry.1.2.1 entry.2.rrsig ∧
    ∀ key ∈ entry.2.dnskeys, key ∈ keys ∧ key.algorithm = entry.2.rrsig.algorithm

theorem add_to_set_from {acc : List (SetKey × CanonicalizedRRSet) × Records.SIG}
    (sets : SetsFrom keys acc.1) (typed : TypedFor record.type acc.2) :
    SetsFrom keys (addToSet keys acc record).1 ∧
      TypedFor record.type (addToSet keys acc record).2 := by
  have added : SetsFrom keys (upsert (setKey record)
      (fun set => { set with rrset := set.rrset ++ [record] })
      { rrset := [record], rrsig := acc.2,
        dnskeys := keys.filter fun candidate => candidate.algorithm = acc.2.algorithm }
      acc.1) := by
    intro entry mem
    rcases mem_upsert mem with old | ⟨val, found, rfl⟩ | rfl
    · exact sets entry old
    · refine ⟨forall_mem_append.mpr ⟨(sets _ found).1, ?_⟩, (sets _ found).2⟩
      exact forall_mem_singleton.mpr rfl
    · refine ⟨forall_mem_singleton.mpr rfl, typed, ?_⟩
      intro key inKeys
      have parts := mem_filter.mp inKeys
      exact ⟨parts.1, of_decide_eq_true parts.2⟩
  simp only [addToSet]
  split_ifs
  all_goals exact ⟨added, typed⟩

theorem group_sets_from (ofType : ∀ record ∈ records, record.type = type)
    (acc : List (SetKey × CanonicalizedRRSet) × Records.SIG) (sets : SetsFrom keys acc.1)
    (typed : TypedFor type acc.2) : SetsFrom keys (records.foldl (addToSet keys) acc).1 := by
  induction records generalizing acc with
  | nil => exact sets
  | cons record _ ih =>
    have here := ofType record mem_cons_self
    have typedHere : TypedFor record.type acc.2 := here ▸ typed
    have step := add_to_set_from sets typedHere
    exact ih (fun other mem => ofType other (mem_cons_of_mem _ mem)) _ step.1 (here ▸ step.2)

theorem canonical_sets_from (keys : List Records.DNSKEY) (grouped : Grouped groups) :
    SetsFrom keys (canonicalSets keys groups) := by
  rw [canonicalSets]
  have start : SetsFrom keys [] := forall_mem_nil _
  generalize ([] : List (SetKey × CanonicalizedRRSet)) = sets at start ⊢
  induction groups generalizing sets with
  | nil => exact start
  | cons group _ ih =>
    have first := grouped group mem_cons_self
    exact ih (fun other mem => grouped other (mem_cons_of_mem _ mem)) _
      (group_sets_from first.1 (sets, group.2.rrsig) start first.2)

theorem check_signature_verified {key : Records.DNSKEY} {data signature : Octets}
    (passed : checkSignature platform key data signature = .ok ())
    (checks : key.algorithm.checkName.isSome = true) :
    platform.verify key.algorithm key.publicKey data signature = .ok true := by
  rw [checkSignature] at passed
  rcases Option.isSome_iff_exists.mp checks with ⟨name, isName⟩
  rw [isName] at passed
  dsimp only at passed
  split_ifs at passed
  split at passed
  · cases passed
  · cases passed
  · rename_i accepted
    exact accepted

theorem validate_rrset_passed (valid : validateRrset platform set = .ok records) :
    ∃ data key, toBeSigned set.rrset set.rrsig = .ok data ∧ findDnskey set = some key ∧
      checkSignature platform key data set.rrsig.signature = .ok () ∧
      records = set.rrset.map fun record => { record with ttl := set.rrsig.originalTtl } := by
  rw [validateRrset] at valid
  split at valid
  · cases valid
  · cases valid
  · rename_i data key encoded found
    split at valid
    · cases valid
    · rename_i passed
      cases valid
      exact ⟨data, key, encoded, found, passed, rfl⟩

theorem validate_rrset_signed {now : Nat} (grouped : Grouped groups)
    (mem : set ∈ Resolver.checkedSets keys groups) (window : InWindow now set.rrsig)
    (checks : ∀ key, findDnskey set = some key → key.algorithm.checkName.isSome = true)
    (valid : validateRrset platform set = .ok records) :
    ∃ key ∈ keys, Signed platform now key records set.rrsig := by
  obtain ⟨entry, inSets, rfl⟩ := mem_map.mp (mem_filter.mp mem).1
  obtain ⟨owners, typed, fromKeys⟩ := canonical_sets_from keys grouped entry inSets
  obtain ⟨data, key, encoded, found, passed, rfl⟩ := validate_rrset_passed valid
  have checked := checks key found
  have inKeys := fromKeys key (mem_of_find?_eq_some found)
  have matched := find?_some (l := entry.2.dnskeys) found
  have tagged : key.calculatedKeyTag = entry.2.rrsig.keyTag := of_decide_eq_true matched
  have isTyped : entry.2.rrsig.typeCovered = entry.1.2.1 := by
    rcases typed with unsigned | same
    · rw [inKeys.2, unsigned] at checked
      cases checked
    · exact same
  -- the records differ from the set's only in their time to live
  have source : ∀ record ∈ entry.2.rrset.map fun record =>
      { record with ttl := entry.2.rrsig.originalTtl }, setKey record = entry.1 :=
    forall_mem_map.mpr owners
  refine ⟨key, inKeys.1, ?_, ?_, window, ⟨tagged, inKeys.2⟩, data, ?_,
    check_signature_verified passed checked⟩
  · intro record inRecords other otherIn
    exact (source record inRecords).trans (source other otherIn).symm
  · intro record inRecords
    rw [isTyped, ← source record inRecords]
    rfl
  · rwa [toBeSigned, mapM_map]

end Ladybone.DNS
