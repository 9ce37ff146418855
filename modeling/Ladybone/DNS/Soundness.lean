import Ladybone.DNS.Trust
import Ladybone.Support.Runs

/-!
# Soundness of local validation

`Guarded` is what every step of the resolver keeps, as long as the answers are
`Careful`: results that are marked as validated or are being validated hold authentic
records only, and all keys on record are trusted. Most steps change results in ways
that cannot hurt it (`Lesser`); the ones that can are unvalidated answers for a result
under validation and the end of a validation.
-/

namespace Ladybone.DNS

open Support.Runs List Option Execution LookupResult

def Task.carried : Task → List Records.DNSKEY
  | .ownKeys _ _ keys => keys
  | _ => []

namespace Resolver

def UnderValidation (resolver : Resolver) (ref : ResultRef) : Prop :=
  ∃ task ∈ resolver.tasks, task.job.result = ref

structure Guarded (platform : Platform) (digest : KeyDigest) (resolver : Resolver) :
    Prop where
  records : ∀ (ref : ResultRef) (result : LookupResult),
    resolver.results[ref]? = some result →
    (result.dnssecValidated = true ∨ resolver.UnderValidation ref) →
      ∀ record ∈ result.records, Authentic platform digest resolver.now record
  keys : ∀ (ref : ResultRef) (result : LookupResult), resolver.results[ref]? = some result →
    ∀ key ∈ result.usedDnskeys, Trusted platform digest resolver.now key
  carried : ∀ task ∈ resolver.tasks, ∀ key ∈ task.carried, Trusted platform digest resolver.now key
  inArena : ∀ task ∈ resolver.tasks, task.job.result < resolver.results.length
  grouped : ∀ task ∈ resolver.tasks, Grouped task.job.groups
  apart : ∀ resolution ∈ resolver.system, resolution.result < resolver.results.length ∧
    ¬ resolver.UnderValidation resolution.result ∧
    ∀ result, resolver.results[resolution.result]? = some result → result.dnssecValidated = false

structure Lesser (before after : LookupResult) : Prop where
  records : ∀ record ∈ after.records, record ∈ before.records
  keys : after.usedDnskeys = before.usedDnskeys
  unmarked : after.dnssecValidated = true → before.dnssecValidated = true

variable {platform : Platform} {digest : KeyDigest} {resolver : Resolver}
  {change : LookupResult → LookupResult} {res : LookupResult}
  (guarded : Guarded platform digest resolver)

/-! ## Changes of the state -/

theorem modify_result_cases {ref other : ResultRef}
    (found : (resolver.modifyResult ref change).results[other]? = some res) :
    ∃ before, resolver.results[other]? = some before ∧
      (ref = other ∧ res = change before ∨ res = before) := by
  have modified : (resolver.results.modify ref change)[other]? = some res := found
  rw [getElem?_modify] at modified
  obtain ⟨before, isBefore, rfl⟩ := map_eq_some_iff.mp modified
  refine ⟨before, isBefore, ?_⟩
  split_ifs with same
  · exact .inl ⟨same, rfl⟩
  · exact .inr rfl

section

include guarded

theorem Guarded.frame {cache : List (Octets × ResultRef)} {pending : List PendingLookup}
    {promises : List Settled} {crashed : Bool} :
    Guarded platform digest
      { resolver with
        cache := cache, pending := pending, promises := promises, crashed := crashed } :=
  { guarded with }

theorem Guarded.advance (seconds : Nat) :
    Guarded platform digest { resolver with now := resolver.now + seconds } := by
  have passed : resolver.now ≤ resolver.now + seconds := Nat.le_add_right _ _
  refine ⟨?_, ?_, ?_, guarded.inArena, guarded.grouped, guarded.apart⟩
  · intro ref res found marked record mem
    exact (guarded.records ref res found marked record mem).later platform digest passed
  · intro ref res found key mem
    exact (guarded.keys ref res found key mem).later platform digest passed
  · intro task mem key inKeys
    exact (guarded.carried task mem key inKeys).later platform digest passed

theorem Guarded.modify {ref : ResultRef} (fine : ∀ res, resolver.results[ref]? = some res →
      (((change res).dnssecValidated = true ∨ resolver.UnderValidation ref) →
        ∀ record ∈ (change res).records, Authentic platform digest resolver.now record) ∧
      (∀ key ∈ (change res).usedDnskeys, Trusted platform digest resolver.now key) ∧
      ((change res).dnssecValidated = true →
        res.dnssecValidated = true ∨ resolver.UnderValidation ref)) :
    Guarded platform digest (resolver.modifyResult ref change) := by
  have len : (resolver.modifyResult ref change).results.length = resolver.results.length :=
    length_modify ..
  refine ⟨?_, ?_, guarded.carried, ?_, guarded.grouped, ?_⟩
  · intro other res found marked
    rcases modify_result_cases found with ⟨before, was, ⟨rfl, rfl⟩ | rfl⟩
    · exact (fine before was).1 marked
    · exact guarded.records other res was marked
  · intro other res found
    rcases modify_result_cases found with ⟨before, was, ⟨rfl, rfl⟩ | rfl⟩
    · exact (fine before was).2.1
    · exact guarded.keys other res was
  · intro task mem
    rw [len]
    exact guarded.inArena task mem
  · intro resolution mem
    have kept := guarded.apart resolution mem
    refine ⟨len ▸ kept.1, kept.2.1, ?_⟩
    intro res found
    rcases modify_result_cases found with ⟨before, was, ⟨rfl, rfl⟩ | rfl⟩
    · rw [Bool.eq_false_iff]
      intro marked
      rcases (fine before was).2.2 marked with wasMarked | under
      · rw [kept.2.2 before was] at wasMarked
        cases wasMarked
      · exact kept.2.1 under
    · exact kept.2.2 res was

theorem Guarded.lessen (ref : ResultRef) (lesser : ∀ res, Lesser res (change res)) :
    Guarded platform digest (resolver.modifyResult ref change) := by
  apply guarded.modify
  intro res found
  have less := lesser res
  refine ⟨?_, ?_, fun marked => .inl (less.unmarked marked)⟩
  · intro marked record mem
    exact guarded.records ref res found (marked.imp less.unmarked id) record
      (less.records record mem)
  · rw [less.keys]
    exact guarded.keys ref res found

theorem Guarded.new_result (res : LookupResult)
    (empty : res.dnssecValidated = true → res.records = [])
    (unused : res.usedDnskeys = []) : Guarded platform digest (resolver.newResult res) := by
  have len : (resolver.newResult res).results.length = resolver.results.length + 1 :=
    length_append
  have split : ∀ ref found, (resolver.newResult res).results[ref]? = some found →
      resolver.results[ref]? = some found ∨ ref = resolver.results.length ∧ found = res := by
    intro ref found isFound
    have appended : (resolver.results ++ [res])[ref]? = some found := isFound
    rw [getElem?_append, getElem?_singleton] at appended
    split_ifs at appended with old last
    · exact .inl appended
    · cases appended
      exact .inr ⟨by omega, rfl⟩
  refine ⟨?_, ?_, guarded.carried, ?_, guarded.grouped, ?_⟩
  · intro ref found isFound marked record mem
    rcases split ref found isFound with old | ⟨rfl, rfl⟩
    · exact guarded.records ref found old marked record mem
    · rcases marked with valid | ⟨task, inTasks, isJob⟩
      · rw [empty valid] at mem
        cases mem
      · have bound := guarded.inArena task inTasks
        rw [isJob] at bound
        exact absurd bound (Nat.lt_irrefl _)
  · intro ref found isFound key mem
    rcases split ref found isFound with old | ⟨rfl, rfl⟩
    · exact guarded.keys ref found old key mem
    · rw [unused] at mem
      cases mem
  · intro task mem
    rw [len]
    exact Nat.lt_succ_of_lt (guarded.inArena task mem)
  · intro resolution mem
    have kept := guarded.apart resolution mem
    rw [len]
    refine ⟨Nat.lt_succ_of_lt kept.1, kept.2.1, ?_⟩
    intro found isFound
    rcases split _ found isFound with old | ⟨isNew, _⟩
    · exact kept.2.2 found old
    · exact absurd isNew (Nat.ne_of_lt kept.1)

theorem Guarded.systems {system : List SystemResolution}
    (kept : ∀ resolution ∈ system, ∃ older ∈ resolver.system, resolution.result = older.result) :
    Guarded platform digest { resolver with system := system } := by
  refine { guarded with apart := ?_ }
  intro resolution mem
  rcases kept resolution mem with ⟨older, wasThere, same⟩
  rw [same]
  exact guarded.apart older wasThere

theorem Guarded.retask {tasks : List Task}
    (fine : ∀ task ∈ tasks, task ∈ resolver.tasks ∨ (Grouped task.job.groups ∧
        (∀ key ∈ task.carried, Trusted platform digest resolver.now key) ∧
        (resolver.UnderValidation task.job.result ∨
          ∃ res, resolver.results[task.job.result]? = some res ∧
            res.dnssecValidated = true))) :
    Guarded platform digest { resolver with tasks := tasks } := by
  have under : ∀ task ∈ tasks, resolver.UnderValidation task.job.result ∨
      ∃ res, resolver.results[task.job.result]? = some res ∧ res.dnssecValidated = true := by
    intro task mem
    rcases fine task mem with old | new
    · exact .inl ⟨task, old, rfl⟩
    · exact new.2.2
  refine ⟨?_, guarded.keys, ?_, ?_, ?_, ?_⟩
  · intro ref res found marked record mem
    rcases marked with valid | ⟨task, inTasks, isJob⟩
    · exact guarded.records ref res found (.inl valid) record mem
    · rcases under task inTasks with before | ⟨known, isKnown, valid⟩
      · exact guarded.records ref res found (.inr (isJob ▸ before)) record mem
      · cases (isJob ▸ isKnown).symm.trans found
        exact guarded.records ref res found (.inl valid) record mem
  · intro task mem
    rcases fine task mem with old | new
    · exact guarded.carried task old
    · exact new.2.1
  · intro task mem
    rcases under task mem with ⟨older, wasThere, same⟩ | ⟨known, isKnown, _⟩
    · rw [← same]
      exact guarded.inArena older wasThere
    · exact (List.getElem?_eq_some_iff.mp isKnown).1
  · intro task mem
    rcases fine task mem with old | new
    · exact guarded.grouped task old
    · exact new.1
  · intro resolution mem
    have kept := guarded.apart resolution mem
    refine ⟨kept.1, ?_, kept.2.2⟩
    rintro ⟨task, inTasks, isJob⟩
    rcases under task inTasks with before | ⟨known, isKnown, valid⟩
    · exact kept.2.1 (isJob ▸ before)
    · rw [kept.2.2 known (isJob ▸ isKnown)] at valid
      cases valid

end

/-! ## Lookups -/

theorem lesser_check_expiration (now : Nat) (res : LookupResult) :
    Lesser res (res.checkExpiration now) := by
  rw [checkExpiration]
  split_ifs with valid
  · refine ⟨?_, rfl, id⟩
    intro record mem
    obtain ⟨cached, kept, rfl⟩ := mem_map.mp mem
    exact mem_map_of_mem (mem_filter.mp kept).1
  · exact ⟨fun _ mem => mem, rfl, id⟩

structure SameWork (before after : Resolver) : Prop where
  tasks : after.tasks = before.tasks
  now : after.now = before.now

theorem SameWork.trans {first second third : Resolver} (one : SameWork first second)
    (other : SameWork second third) : SameWork first third :=
  ⟨other.tasks.trans one.tasks, other.now.trans one.now⟩

/-- What a lookup does to the resolver. -/
structure Keeps (platform : Platform) (digest : KeyDigest) (before after : Resolver) : Prop where
  guarded : Guarded platform digest after
  same : SameWork before after

theorem Keeps.trans {first second third : Resolver} (one : Keeps platform digest first second)
    (other : Keeps platform digest second third) : Keeps platform digest first third :=
  ⟨other.guarded, one.same.trans other.same⟩

section
variable {name : Octets} {desiredTypes : List ResourceType} {validate : Bool}
  {promise returned : PromiseRef} {repeating : Option UInt16} {supply : Supply} {next : Resolver}

include guarded

theorem Guarded.flush_cache : Keeps platform digest resolver resolver.flushCache := by
  have expired : ∀ (entries : List (Octets × ResultRef)) (state : Resolver),
      Guarded platform digest state → Keeps platform digest state (entries.foldl (fun state entry =>
          state.modifyResult entry.2 (checkExpiration state.now)) state) := by
    intro entries
    induction entries with
    | nil => exact fun state kept => ⟨kept, rfl, rfl⟩
    | cons entry _ ih =>
      intro state kept
      have first := kept.lessen entry.2 (lesser_check_expiration state.now)
      exact Keeps.trans ⟨first, rfl, rfl⟩ (ih _ first)
  have kept := expired resolver.cache resolver guarded
  exact ⟨kept.guarded.frame, kept.same.tasks, kept.same.now⟩

theorem Guarded.settle {promise : PromiseRef} {outcome : Settled} :
    Guarded platform digest (resolver.settle promise outcome) :=
  guarded.frame

theorem Guarded.change_pending (id : UInt16) (change : PendingLookup → PendingLookup) :
    Guarded platform digest (resolver.changePending id change) :=
  guarded.frame

theorem Guarded.resolve_by_system :
    Keeps platform digest resolver (resolver.resolveBySystem name desiredTypes promise) := by
  rw [resolveBySystem]
  split
  · split_ifs
    · split
      · exact ⟨guarded, rfl, rfl⟩
      · split_ifs
        all_goals exact ⟨guarded.settle, rfl, rfl⟩
    · refine ⟨guarded.systems ?_, rfl, rfl⟩
      intro resolution mem
      obtain ⟨older, wasThere, rfl⟩ := mem_map.mp mem
      refine ⟨older, wasThere, ?_⟩
      split_ifs <;> rfl
  · have grown := guarded.new_result
      { make (.fromString name) with desiredTypes := desiredTypes }
      (fun _ => rfl) rfl
    refine ⟨{ grown with apart := ?_ }, rfl, rfl⟩
    refine forall_mem_append.mpr ⟨grown.apart, forall_mem_singleton.mpr ⟨?_, ?_, ?_⟩⟩
    · simp [Resolver.newResult]
    · rintro ⟨task, inTasks, isJob⟩
      have bound := guarded.inArena task inTasks
      rw [isJob] at bound
      exact absurd bound (Nat.lt_irrefl _)
    · intro res found
      cases getElem?_concat_length.symm.trans found
      rfl

theorem Guarded.send_query {res : ResultRef} {id : UInt16} {repeating sent : Bool} :
    Keeps platform digest resolver
      (resolver.sendQuery name desiredTypes validate res promise id repeating sent) := by
  have marked : Guarded platform digest
      (resolver.modifyResult res fun found => { found with id := id }) :=
    guarded.lessen res fun found => ⟨fun _ mem => mem, rfl, fun flag => flag⟩
  simp only [sendQuery]
  split_ifs <;> exact ⟨marked.frame, rfl, rfl⟩

theorem Guarded.query (made : resolver.query name desiredTypes validate promise repeating supply =
    some (next, returned)) : Keeps platform digest resolver next := by
  have found :
      Keeps platform digest resolver (resolver.queryResult name desiredTypes validate).1 := by
    rw [queryResult]
    split
    · exact ⟨guarded, rfl, rfl⟩
    · exact ⟨(guarded.new_result _ (fun _ => rfl) rfl).frame, rfl, rfl⟩
  simp only [Resolver.query] at made
  split at made
  · cases made
  · split at made
    · split at made
      · cases made
        exact found
      · split at made
        · cases made
          exact ⟨found.guarded.settle, found.same.tasks, found.same.now⟩
        · cases made
          exact found.trans found.guarded.send_query
    · split at made
      · cases made
        exact found.trans found.guarded.send_query
      · split at made
        · cases made
        · cases made
          exact found.trans found.guarded.send_query

theorem Guarded.lookup_missed
    (made : resolver.lookupMissed name desiredTypes validate promise repeating supply =
      some (next, returned)) : Keeps platform digest resolver next := by
  rw [lookupMissed] at made
  split_ifs at made
  · exact guarded.query made
  · cases made
    exact ⟨guarded.settle, rfl, rfl⟩
  · cases made
    exact guarded.resolve_by_system

theorem Guarded.lookup_with
    (made : lookupWith platform resolver name desiredTypes validate promise repeating supply =
      some (next, returned)) : Keeps platform digest resolver next := by
  rw [lookupWith] at made
  split at made
  · cases made
    refine ⟨settle (guarded.new_result _ ?_ rfl) .., rfl, rfl⟩
    intro marked
    cases marked
  · rw [lookupCached] at made
    split at made
    · split at made
      · cases made
        exact ⟨guarded.settle, rfl, rfl⟩
      · exact guarded.lookup_missed made
    · exact guarded.lookup_missed made

theorem Guarded.lookup {next : Resolver × PromiseRef}
    (made : resolver.lookup platform name desiredTypes validate supply = some next) :
    Keeps platform digest resolver next.1 := by
  have flushed := guarded.flush_cache
  have start : Keeps platform digest resolver resolver.flushCache.newPromise :=
    ⟨flushed.guarded.frame, flushed.same.tasks, flushed.same.now⟩
  exact start.trans (start.guarded.lookup_with made)

end

/-! ## Answers -/

theorem add_records_eq (now : Nat) (added : List ResourceRecord) (res : LookupResult) :
    (res.addRecords now added).records = res.records ++ added ∧
      (res.addRecords now added).dnssecValidated = res.dnssecValidated ∧
      (res.addRecords now added).usedDnskeys = res.usedDnskeys := by
  induction added generalizing res with
  | nil => exact ⟨(append_nil _).symm, rfl, rfl⟩
  | cons record _ ih =>
    rcases ih (res.addRecord now record) with ⟨records, flag, keys⟩
    have one : (res.addRecord now record).records = res.records ++ [record] := by
      rw [LookupResult.records, LookupResult.addRecord, map_append]
      rfl
    refine ⟨?_, flag, keys⟩
    rwa [one, append_assoc] at records

section
variable {lookup : PendingLookup}

include guarded

theorem Guarded.gain (ref : ResultRef) {added : List ResourceRecord}
    (change : LookupResult → LookupResult)
    (gains : ∀ res, (change res).records = res.records ++ added ∧
      (change res).dnssecValidated = res.dnssecValidated ∧
      (change res).usedDnskeys = res.usedDnskeys)
    (authentic : ∀ res, resolver.results[ref]? = some res →
      (res.dnssecValidated = true ∨ resolver.UnderValidation ref) →
        ∀ record ∈ added, Authentic platform digest resolver.now record) :
    Guarded platform digest (resolver.modifyResult ref change) := by
  apply guarded.modify
  intro res found
  rcases gains res with ⟨records, flag, keys⟩
  rw [records, flag, keys]
  refine ⟨?_, guarded.keys ref res found, .inl⟩
  intro marked
  exact forall_mem_append.mpr ⟨guarded.records ref res found marked, authentic res found marked⟩

theorem Guarded.answer_unvalidated {answers : List ResourceRecord}
    (authentic : ∀ res, resolver.results[lookup.result]? = some res →
      (res.dnssecValidated = true ∨ resolver.UnderValidation lookup.result) →
        ∀ record ∈ answers, Authentic platform digest resolver.now record) :
    Guarded platform digest (resolver.answerUnvalidated lookup answers) := by
  have filled := guarded.gain lookup.result
    (fun res => { res.addRecords resolver.now answers with requestDone := true })
    (add_records_eq resolver.now answers) authentic
  exact filled.frame

theorem Guarded.validate_dnssec {answers : List ResourceRecord}
    (found : resolver.results[lookup.result]? = some res) (marked : res.dnssecValidated = true) :
    Guarded platform digest (resolver.validateDnssec lookup res answers) := by
  rw [validateDnssec]
  cases grouping : groupAnswers answers with
  | error => exact guarded.frame
  | ok =>
    dsimp only
    split_ifs
    · exact guarded
    · apply guarded.retask
      intro task mem
      rcases mem_append.mp mem with old | new
      · exact .inl old
      · rw [mem_singleton.mp new]
        refine .inr ⟨?_, forall_mem_nil _, .inr ⟨res, found, marked⟩⟩
        exact group_answers_grouped (fun _ none => absurd none not_mem_nil) grouping

end
end Resolver

/-! ## What the answers have to bring -/

section
variable (platform : Platform) (digest : KeyDigest)

/-- For the end of a validation: the keys that come with the answer are trusted, every
set that is checked is inside the validity period of its signature, and the key picked
for it has an algorithm that is checked at all. -/
def CarefulKeys (now : Nat) (job : Job) (keys : List Records.DNSKEY) : Prop :=
  ∀ fromMessage, dnskeysOf (inMessageRecords job.groups) = .ok fromMessage →
    (∀ key ∈ fromMessage, Trusted platform digest now key) ∧
    ∀ set ∈ Resolver.checkedSets (keys ++ fromMessage) job.groups, InWindow now set.rrsig ∧
      ∀ key, findDnskey set = some key → key.algorithm.checkName.isSome = true

/-- The keys a validation gets from its own, unvalidated DNSKEY lookup are trusted too. -/
def CarefulTask (resolver : Resolver) : Task → Prop
  | .start job =>
    job.lookup.parsedName.labels = [] →
      CarefulKeys platform digest resolver.now job platform.rootZoneDnskeys
  | .ownKeys job promise parentZoneKeys =>
    ∀ outcome, resolver.await promise = some outcome → match outcome with
      | .error _ => CarefulKeys platform digest resolver.now job parentZoneKeys
      | .ok ref => ∀ result, resolver.results[ref]? = some result →
          ∀ keys, dnskeysOf (result.recordsOfType .DNSKEY) = .ok keys →
            (∀ key ∈ keys, Trusted platform digest resolver.now key) ∧
              CarefulKeys platform digest resolver.now job (parentZoneKeys ++ keys)
  | _ => True

/-- An answer that is not validated, for a result whose validation is under way, has
authentic records only. -/
def CarefulAnswer (resolver : Resolver) (octets : Octets) : Prop :=
  ∀ message ctx lookup result, Message.fromRaw octets = .ok (message, ctx) →
    resolver.findPending message.header.id = some lookup →
    resolver.results[lookup.result]? = some result → result.dnssecValidated = false →
    resolver.UnderValidation lookup.result →
      ∀ record ∈ message.answers, Authentic platform digest resolver.now record

def Careful (resolver : Resolver) : ResolverAction → Prop
  | .receive octets _ => CarefulAnswer platform digest resolver octets
  | .run index _ _ _ => ∀ task, resolver.tasks[index]? = some task →
      CarefulTask platform digest resolver task
  | _ => True

end

namespace Resolver

variable {platform : Platform} {digest : KeyDigest} {resolver next : Resolver}
  {keys : List Records.DNSKEY} {job : Job} {outcome : Resolver × Option Task} {supply : Supply}
  {task : Task} (guarded : Guarded platform digest resolver)
  (trusted : ∀ key ∈ keys, Trusted platform digest resolver.now key)

include guarded in
theorem Guarded.process_message {octets : Octets} {purged : Bool}
    (careful : CarefulAnswer platform digest resolver octets) :
    Guarded platform digest (resolver.processMessage octets purged) := by
  rw [processMessage]
  split
  · exact guarded.frame
  · exact guarded
  · rename_i message ctx parsed
    split
    · exact guarded
    · rename_i lookup pending
      split
      · exact guarded
      · dsimp only
        have stopped := guarded.change_pending lookup.id fun lookup =>
          { lookup with timerRunning := false }
        split
        · exact guarded
        · rename_i res found
          split
          · rename_i marked
            exact stopped.validate_dnssec found marked
          · rename_i unmarked
            have isFalse : res.dnssecValidated = false := Bool.eq_false_iff.mpr unmarked
            apply stopped.answer_unvalidated
            intro same foundAgain marked
            cases found.symm.trans foundAgain
            have under := marked.resolve_left unmarked
            exact careful message ctx lookup res parsed pending found isFalse under

/-! ## Validations -/

include trusted in
theorem Guarded.add_validated (grouped : Grouped job.groups) {sets : List CanonicalizedRRSet}
    (checkable : ∀ set ∈ sets,
      set ∈ checkedSets keys job.groups ∧ InWindow resolver.now set.rrsig ∧
      ∀ key, findDnskey set = some key → key.algorithm.checkName.isSome = true)
    {state checked : Resolver} {error outcome : Option String}
    (kept : Keeps platform digest resolver state)
    (made : addValidated platform job.result sets state error = .ok (checked, outcome)) :
    Keeps platform digest resolver checked := by
  induction sets generalizing state error with
  | nil =>
    cases made
    exact kept
  | cons set _ ih =>
    have later := fun other mem => checkable other (mem_cons_of_mem set mem)
    rw [addValidated] at made
    cases valid : validateRrset platform set with
    | error failure =>
      rw [valid] at made
      cases failure with
      | verifyFailed => cases made
      | error => exact ih later kept made
    | ok records =>
      rw [valid] at made
      rcases checkable set mem_cons_self with ⟨isChecked, window, checks⟩
      rcases validate_rrset_signed grouped isChecked window checks valid with
        ⟨key, inKeys, signed⟩
      have authentic : ∀ record ∈ records, Authentic platform digest state.now record := by
        intro record mem
        rw [kept.same.now]
        exact ⟨resolver.now, key, records, set.rrsig, Nat.le_refl _, trusted key inKeys,
          signed, mem⟩
      have gained := kept.guarded.gain job.result _ (add_records_eq state.now records)
        fun _ _ _ => authentic
      exact ih later ⟨gained, kept.same.tasks, kept.same.now⟩ made

theorem add_dnskeys_eq (keys : List Records.DNSKEY) (res : LookupResult) :
    (res.addDnskeys keys).records = res.records ∧
      ∀ key ∈ (res.addDnskeys keys).usedDnskeys, key ∈ res.usedDnskeys ∨ key ∈ keys := by
  induction keys generalizing res with
  | nil => exact ⟨rfl, fun key mem => .inl mem⟩
  | cons first _ ih =>
    rcases ih (res.addDnskey first) with ⟨records, used⟩
    have one : (res.addDnskey first).records = res.records ∧
        ∀ key ∈ (res.addDnskey first).usedDnskeys, key ∈ res.usedDnskeys ∨ key = first := by
      rw [addDnskey]
      split_ifs
      · exact ⟨rfl, fun key mem => .inl mem⟩
      · refine ⟨rfl, fun key mem => ?_⟩
        exact (mem_append.mp mem).imp id mem_singleton.mp
    refine ⟨records.trans one.1, fun key mem => ?_⟩
    rcases used key mem with before | later
    · rcases one.2 key before with old | rfl
      · exact .inl old
      · exact .inr mem_cons_self
    · exact .inr (mem_cons_of_mem _ later)

include guarded trusted in
theorem Guarded.resolve_using_keys (grouped : Grouped job.groups)
    (under : resolver.UnderValidation job.result)
    (careful : CarefulKeys platform digest resolver.now job keys) :
    Keeps platform digest resolver (resolver.resolveUsingKeys platform job keys) := by
  rw [resolveUsingKeys]
  cases delivered : dnskeysOf (inMessageRecords job.groups) with
  | error => exact ⟨guarded.frame, rfl, rfl⟩
  | ok fromMessage =>
    rcases careful fromMessage delivered with ⟨trustedToo, checkable⟩
    have allTrusted : ∀ key ∈ keys ++ fromMessage,
        Trusted platform digest resolver.now key := fun key mem =>
      (mem_append.mp mem).elim (trusted key) (trustedToo key)
    have added : ∀ checked outcome, addValidated platform job.result
        (checkedSets (keys ++ fromMessage) job.groups) resolver none = .ok (checked, outcome) →
          Keeps platform digest resolver checked := fun checked outcome =>
      add_validated allTrusted grouped (fun set mem => ⟨mem, checkable set mem⟩) ⟨guarded, rfl, rfl⟩
    dsimp only
    split
    · exact ⟨guarded, rfl, rfl⟩
    · split
      · exact ⟨guarded.frame, rfl, rfl⟩
      · rename_i checked made
        have kept := added checked none made
        have stillUnder : checked.UnderValidation job.result := by
          rcases under with ⟨task, inTasks, isJob⟩
          exact ⟨task, kept.same.tasks ▸ inTasks, isJob⟩
        refine ⟨?_, kept.same.tasks, kept.same.now⟩
        apply settle
        apply kept.guarded.modify
        intro res found
        have keyed := add_dnskeys_eq (keys ++ fromMessage) res
        refine ⟨?_, ?_, fun _ => .inr stillUnder⟩
        · intro _ record mem
          have before : record ∈ (res.addDnskeys (keys ++ fromMessage)).records := mem
          rw [keyed.1] at before
          exact kept.guarded.records _ res found (.inr stillUnder) record before
        · intro key mem
          rcases keyed.2 key mem with old | new
          · exact kept.guarded.keys _ res found key old
          · rw [kept.same.now]
            exact allTrusted key new
      · rename_i checked error made
        have kept := added checked error made
        refine ⟨?_, kept.same.tasks, kept.same.now⟩
        apply settle
        exact kept.guarded.lessen _ fun res => ⟨fun _ mem => mem, rfl, id⟩

theorem dnskeys_of_mem {records : List ResourceRecord}
    (made : dnskeysOf records = .ok keys) {key : Records.DNSKEY} (mem : key ∈ keys) :
    ∃ record ∈ records, record.record = .DNSKEY key := by
  induction records generalizing keys with
  | nil =>
    cases made
    cases mem
  | cons record rest ih =>
    rw [dnskeysOf] at made
    split at made
    · rename_i first isFirst
      obtain ⟨restKeys, others, ⟨⟩⟩ := Support.Checks.bind_eq_ok.mp made
      rcases mem_cons.mp mem with rfl | inRest
      · exact ⟨record, mem_cons_self, isFirst⟩
      · rcases ih others inRest with ⟨other, inOthers, isKey⟩
        exact ⟨other, mem_cons_of_mem _ inOthers, isKey⟩
    · cases made

/-- What a task leaves behind when it has run to its end or its next wait. -/
structure Runs (platform : Platform) (digest : KeyDigest) (before : Resolver) (job : Job)
    (outcome : Resolver × Option Task) : Prop where
  guarded : Guarded platform digest outcome.1
  same : SameWork before outcome.1
  next : ∀ task, outcome.2 = some task → task.job = job ∧
    ∀ key ∈ task.carried, Trusted platform digest before.now key

theorem Runs.ends (kept : Keeps platform digest resolver next) :
    Runs platform digest resolver job (next, none) :=
  ⟨kept.guarded, kept.same, fun _ none => by cases none⟩

theorem Runs.waits (kept : Keeps platform digest resolver next) (sameJob : task.job = job)
    (carried : ∀ key ∈ task.carried, Trusted platform digest resolver.now key) :
    Runs platform digest resolver job (next, some task) := by
  refine ⟨kept.guarded, kept.same, ?_⟩
  rintro _ ⟨⟩
  exact ⟨sameJob, carried⟩

section

include guarded

theorem Runs.rejected (job : Job) (error : String) :
    Runs platform digest resolver job (resolver.reject job error, none) :=
  Runs.ends ⟨guarded.settle, rfl, rfl⟩

theorem Runs.crashed (job : Job) : Runs platform digest resolver job (resolver.crash, none) :=
  Runs.ends ⟨guarded.frame, rfl, rfl⟩

theorem Runs.settles {awaited : Option (Except String ResultRef)}
    {next : LookupResult → Option (Resolver × Option Task)} (made : (do
      let settled ← awaited
      match settled with
      | .error error => return (resolver.reject job error, none)
      | .ok ref => do
          let res ← resolver.results[ref]?
          next res) = some outcome)
    (goesOn : ∀ (ref : ResultRef) (res : LookupResult), resolver.results[ref]? = some res →
      next res = some outcome → Runs platform digest resolver job outcome) :
    Runs platform digest resolver job outcome := by
  rcases bind_eq_some_iff.mp made with ⟨settled, _, made⟩
  cases settled with
  | error error =>
    cases made
    exact Runs.rejected guarded job error
  | ok ref =>
    rcases bind_eq_some_iff.mp made with ⟨res, found, made⟩
    exact goesOn ref res found made

theorem Runs.chain_done {valid : Bool}
    (made : resolver.chainDone platform job valid supply = some outcome) :
    Runs platform digest resolver job outcome := by
  rw [chainDone] at made
  split_ifs at made
  · obtain ⟨found, looked, rfl⟩ := map_eq_some_iff.mp made
    exact Runs.waits (guarded.lookup looked) rfl (forall_mem_nil _)
  · cases made
    exact Runs.rejected guarded job _

theorem Runs.chain_step {name : DomainName} {topLevel : Bool} {first second third : Supply}
    (made : resolver.chainStep platform job name topLevel first second third = some outcome) :
    Runs platform digest resolver job outcome := by
  rw [chainStep] at made
  split_ifs at made
  · exact Runs.chain_done guarded made
  · rcases bind_eq_some_iff.mp made with ⟨soa, lookedSoa, made⟩
    rcases bind_eq_some_iff.mp made with ⟨ds, lookedDs, made⟩
    rcases bind_eq_some_iff.mp made with ⟨ns, lookedNs, made⟩
    cases made
    have afterSoa := guarded.lookup lookedSoa
    have afterDs := afterSoa.trans (afterSoa.guarded.lookup lookedDs)
    exact Runs.waits (afterDs.trans (afterDs.guarded.lookup lookedNs)) rfl (forall_mem_nil _)

theorem Guarded.zone_keys {ref : ResultRef} {res : LookupResult}
    (found : resolver.results[ref]? = some res) (marked : res.dnssecValidated = true)
    (made : dnskeysOf (res.recordsOfType .DNSKEY) = .ok keys) :
    ∀ key ∈ res.usedDnskeys ++ keys, Trusted platform digest resolver.now key := by
  refine forall_mem_append.mpr ⟨guarded.keys ref res found, fun key listed => ?_⟩
  obtain ⟨record, inRecords, isKey⟩ := dnskeys_of_mem made listed
  have inResult := (mem_filter.mp inRecords).1
  obtain ⟨time, signer, rrset, rrsig, past, trusted, signed, mem⟩ :=
    guarded.records ref res found (.inl marked) record inResult
  exact .keySet trusted past signed mem isKey

theorem Guarded.run_task (mem : task ∈ resolver.tasks)
    (careful : CarefulTask platform digest resolver task) {first second third : Supply}
    (made : resolver.runTask platform task first second third = some outcome) :
    Runs platform digest resolver task.job outcome := by
  have grouped := guarded.grouped task mem
  have carried := guarded.carried task mem
  have under : resolver.UnderValidation task.job.result := ⟨task, mem, rfl⟩
  cases task with
  | start job =>
    have marked : Guarded platform digest (resolver.modifyResult job.result fun res =>
        { res with dnssecValidated := false, beingDnssecValidated := true }) := by
      apply guarded.lessen
      intro res
      exact ⟨fun _ inRecords => inRecords, rfl, fun flag => by cases flag⟩
    simp only [runTask] at made
    split_ifs at made with isRoot
    · cases made
      have ended := marked.resolve_using_keys (fun key configured => Trusted.root configured)
        grouped under (careful (isEmpty_iff.mp isRoot))
      exact Runs.ends ⟨ended.guarded, ended.same.tasks, ended.same.now⟩
    · have steps := Runs.chain_step marked made
      exact ⟨steps.guarded, ⟨steps.same.tasks, steps.same.now⟩, steps.next⟩
  | chainDelegation job =>
    apply Runs.settles guarded made
    intro ref res found made
    split at made
    · split at made
      · exact Runs.chain_done guarded made
      · exact Runs.chain_step guarded made
    · split at made
      · split at made
        · exact Runs.chain_step guarded made
        · rcases bind_eq_some_iff.mp made with ⟨found, looked, made⟩
          cases made
          exact Runs.waits (guarded.lookup looked) rfl (forall_mem_nil _)
      · cases made
        exact Runs.crashed guarded job
  | chainDs job =>
    apply Runs.settles guarded made
    intro ref res found made
    exact Runs.chain_done guarded made
  | parentKeys job =>
    apply Runs.settles guarded made
    intro ref res found made
    split at made
    · rename_i marked
      split at made
      · cases made
        exact Runs.crashed guarded job
      · rename_i keys listed
        rcases bind_eq_some_iff.mp made with ⟨own, looked, made⟩
        cases made
        exact Runs.waits (guarded.lookup looked) rfl (guarded.zone_keys found marked listed)
    · cases made
      exact Runs.rejected guarded job _
  | ownKeys job _ parentZoneKeys =>
    rcases bind_eq_some_iff.mp made with ⟨settled, awaited, made⟩
    have condition := careful settled awaited
    cases settled with
    | error error =>
      cases made
      have rejected : Keeps platform digest resolver
          (if parentZoneKeys.isEmpty then resolver.reject job error else resolver) := by
        split
        · exact ⟨guarded.settle, rfl, rfl⟩
        · exact ⟨guarded, rfl, rfl⟩
      have stillUnder : UnderValidation
          (if parentZoneKeys.isEmpty then resolver.reject job error else resolver)
          job.result := ⟨_, rejected.same.tasks ▸ mem, rfl⟩
      have ended := rejected.guarded.resolve_using_keys (by rw [rejected.same.now]; exact carried)
        grouped stillUnder (by rw [rejected.same.now]; exact condition)
      exact Runs.ends (rejected.trans ended)
    | ok =>
      rcases bind_eq_some_iff.mp made with ⟨res, found, made⟩
      split at made
      · cases made
        exact Runs.crashed guarded job
      · rename_i keys listed
        cases made
        rcases condition res found keys listed with ⟨ownTrusted, enough⟩
        have trusted := fun key inKeys =>
          (mem_append.mp inKeys).elim (carried key) (ownTrusted key)
        have ended := guarded.resolve_using_keys trusted grouped under enough
        exact Runs.ends ended

end

theorem Guarded.replace_task (runs : Runs platform digest resolver job outcome)
    (grouped : Grouped job.groups) (under : resolver.UnderValidation job.result) {index : Nat} :
    Guarded platform digest (outcome.1.replaceTask index outcome.2) := by
  cases remaining : outcome.2 with
  | none =>
    apply runs.guarded.retask
    intro task mem
    exact .inl ((eraseIdx_sublist _ _).subset mem)
  | some next =>
    rcases runs.next next remaining with ⟨sameJob, carried⟩
    apply runs.guarded.retask
    intro task mem
    rcases mem_or_eq_of_mem_set mem with old | rfl
    · exact .inl old
    · rw [sameJob, runs.same.now]
      refine .inr ⟨grouped, carried, .inl ?_⟩
      rcases under with ⟨task, inTasks, isJob⟩
      exact ⟨task, runs.same.tasks ▸ inTasks, isJob⟩

/-! ## The system resolver -/

section
variable {name : Octets}

include guarded

theorem Guarded.settle_all {promises : List PromiseRef} {outcome : Settled} :
    Guarded platform digest (resolver.settleAll promises outcome) := by
  induction promises generalizing resolver with
  | nil => exact guarded
  | cons promise _ ih => exact ih guarded.settle

theorem Guarded.finalize_system {resolution : SystemResolution} :
    Guarded platform digest (resolver.finalizeSystem resolution) := by
  rw [finalizeSystem]
  split
  · exact guarded
  · split
    · exact guarded
    · split
      all_goals exact guarded.settle_all

theorem Guarded.change_system {change : SystemResolution → SystemResolution}
    (same : ∀ resolution, (change resolution).result = resolution.result) :
    Guarded platform digest (resolver.changeSystem name change) := by
  apply guarded.systems
  intro resolution mem
  obtain ⟨older, wasThere, rfl⟩ := mem_map.mp mem
  refine ⟨older, wasThere, ?_⟩
  split_ifs
  · exact same older
  · rfl

theorem Guarded.complete_system {family : AddressFamily} {answer : Option (List Address)}
    (made : resolver.completeSystem name family answer = some next) :
    Guarded platform digest next := by
  rw [completeSystem] at made
  split at made
  · cases made
  · rename_i resolution found
    have apart := guarded.apart resolution (mem_of_find?_eq_some found)
    have merged := guarded.gain resolution.result _ (add_records_eq resolver.now
      ((answer.getD []).map (addressRecord systemTtl))) fun res isResult marked => by
        rcases marked with flagged | under
        · rw [apart.2.2 res isResult] at flagged
          cases flagged
        · exact absurd under apart.2.1
    dsimp only at made
    split at made
    · cases made
      apply finalize_system
      apply systems
      · apply frame
        exact merged.lessen _ fun res => ⟨fun _ mem => mem, rfl, id⟩
      · intro other mem
        exact ⟨other, (mem_filter.mp mem).1, rfl⟩
    · cases made
      exact merged.change_system fun _ => rfl

theorem Guarded.grace_timeout (made : resolver.graceTimeout name = some next) :
    Guarded platform digest next := by
  rw [Resolver.graceTimeout] at made
  split at made
  · cases made
  · split at made
    · cases made
      exact guarded.finalize_system.change_system fun _ => rfl
    · cases made

theorem Guarded.repeat_lookup {id : UInt16}
    (made : resolver.repeatLookup platform id supply = some next) :
    Guarded platform digest next := by
  rw [repeatLookup] at made
  split at made
  · cases made
  · split at made
    · dsimp only at made
      have flushed := (guarded.change_pending id fun lookup =>
        { lookup with timerRunning := false }).flush_cache.guarded
      split at made
      · cases made
        exact flushed.settle.frame
      · obtain ⟨outcome, looked, rfl⟩ := map_eq_some_iff.mp made
        exact (flushed.lookup_with looked).guarded
    · cases made

end

/-! ## Runs -/

include guarded in
theorem guarded_step {action : ResolverAction}
    (careful : Careful platform digest resolver action)
    (steps : resolver.step platform action = some next) : Guarded platform digest next := by
  unfold step at steps
  split at steps
  · cases steps
  · cases action with
    | advance seconds =>
      cases steps
      exact guarded.advance seconds
    | request =>
      obtain ⟨outcome, looked, rfl⟩ := map_eq_some_iff.mp steps
      exact (guarded.lookup looked).guarded
    | receive octets purged =>
      cases steps
      exact guarded.process_message careful
    | timeout => exact guarded.repeat_lookup steps
    | run index =>
      rcases bind_eq_some_iff.mp steps with ⟨task, found, steps⟩
      rcases bind_eq_some_iff.mp steps with ⟨outcome, ran, steps⟩
      have mem := mem_of_getElem? found
      cases steps
      exact Guarded.replace_task (guarded.run_task mem (careful task found) ran)
        (guarded.grouped task mem) ⟨task, mem, rfl⟩
    | systemCompletion => exact guarded.complete_system steps
    | graceTimeout => exact guarded.grace_timeout steps

theorem initial_guarded : Guarded platform digest initial := by
  refine ⟨?_, ?_, forall_mem_nil _, forall_mem_nil _, forall_mem_nil _, forall_mem_nil _⟩
  · intro ref res found marked
    obtain rfl : res = localhost := mem_singleton.mp (mem_of_getElem? found)
    rcases marked with flagged | ⟨task, none, _⟩
    · cases flagged
    · cases none
  · intro ref res found key mem
    obtain rfl : res = localhost := mem_singleton.mp (mem_of_getElem? found)
    cases mem

/-- In every run with careful answers, whatever a lookup was resolved with: if it is
reported as validated, its records are authentic. -/
theorem validated_results_authentic (platform : Platform) (digest : KeyDigest)
    (run : Execution (step platform) (Careful platform digest) initial resolver) :
    ∀ (promise : PromiseRef) (ref : ResultRef) (result : LookupResult),
      resolver.promises[promise]? = some (.resolved ref) →
      resolver.results[ref]? = some result → result.dnssecValidated = true →
        ∀ record ∈ result.records, Authentic platform digest resolver.now record := by
  intro promise ref result _ found validated
  have guarded : Guarded platform digest resolver :=
    run.invariant (Guarded platform digest) initial_guarded
      fun _ _ _ kept careful stepped => guarded_step kept careful stepped
  exact guarded.records ref result found (.inl validated)

/-! ## A lookup of the root

An answer that brings the key its signature is made with. -/

def plainDigest : KeyDigest := fun _ _ key => key.publicKey

def deliveredKey : Records.DNSKEY :=
  { flags := 257, protocol := 3, algorithm := .ED25519, publicKey := [9],
    calculatedKeyTag := 3344 }

def configuredKey : Records.DNSKEY :=
  { deliveredKey with publicKey := [8], calculatedKeyTag := 20326 }

def signedBy (roots : List Records.DNSKEY) : Platform :=
  { verify := fun _ publicKey _ _ => .ok (publicKey = [9])
    ipv4FromString := fun _ => none
    ipv6FromString := fun _ => none
    rootZoneDnskeys := roots }

def signedAnswer : Octets :=
  [0, 7, 128, 0, 0, 0, 0, 3, 0, 0, 0, 0] ++
    [0, 0, 48, 0, 1, 0, 0, 14, 16, 0, 5, 1, 1, 3, 15, 9] ++
    [0, 0, 1, 0, 1, 0, 0, 14, 16, 0, 4, 6, 6, 6, 6] ++
    [0, 0, 46, 0, 1, 0, 0, 14, 16, 0, 20, 0, 1, 15, 0, 0, 0, 14, 16, 0, 0, 0, 1, 0, 0, 0, 0,
      13, 16, 0, 1]

def answeredAddress : ResourceRecord :=
  { name := { labels := [] }, type := .A, class_ := .IN, ttl := 3600, record := .A [6, 6, 6, 6],
    raw := some [0, 0, 1, 0, 1, 0, 0, 14, 16, 0, 4, 6, 6, 6, 6] }

def answeredSignature : Records.SIG :=
  { typeCovered := .A, algorithm := .ED25519, labelCount := 0, originalTtl := 3600,
    expiration := 1, inception := 0, keyTag := 3344, signersName := { labels := [] },
    signature := [1] }

def rootLookup : PendingLookup :=
  { id := 7, name := [], parsedName := { labels := [] }, result := 1, promise := 0,
    desiredTypes := [.A], validate := true, timerRunning := true, timesRepeated := 0 }

def rootJob : Job :=
  { lookup := rootLookup, name := { labels := [] },
    groups :=
      [(.DNSKEY,
        { records :=
            [{ name := { labels := [] }, type := .DNSKEY, class_ := .IN, ttl := 3600,
               record := .DNSKEY deliveredKey,
               raw := some [0, 0, 48, 0, 1, 0, 0, 14, 16, 0, 5, 1, 1, 3, 15, 9] }],
          rrsig := .empty }),
       (.A, { records := [answeredAddress], rrsig := answeredSignature })],
    result := 1 }

def rootResult : LookupResult :=
  { LookupResult.make { labels := [] } with
    dnssecValidated := true, desiredTypes := [.A], id := 7 }

def rootAsked (now : Nat) : Resolver :=
  { initial with
    now := now, results := [localhost, rootResult], cache := [(localhostName, 0), ([], 1)],
    pending := [rootLookup], promises := [.pending] }

def rootAnswered (now : Nat) : Resolver :=
  { rootAsked now with
    pending := [{ rootLookup with timerRunning := false }], tasks := [.start rootJob] }

def rootValidated (now : Nat) (keys : List Records.DNSKEY) : Resolver :=
  { rootAnswered now with
    results :=
      [localhost,
       { (rootResult.addRecord now answeredAddress).addDnskeys keys with requestDone := true }],
    promises := [.resolved 1], tasks := [] }

def rootRequest : ResolverAction :=
  .request [] [.A] true { id := 7, connected := true, sent := true }

def rootRun : ResolverAction :=
  .run 0 ⟨0, true, true⟩ ⟨0, true, true⟩ ⟨0, true, true⟩

theorem root_answer_authentic :
    Execution (step (signedBy [deliveredKey])) (Careful (signedBy [deliveredKey]) plainDigest)
        initial (rootValidated 0 [deliveredKey]) ∧
      Authentic (signedBy [deliveredKey]) plainDigest 0 answeredAddress := by
  have trusted : Trusted (signedBy [deliveredKey]) plainDigest 0 deliveredKey :=
    .root mem_cons_self
  have asked : step (signedBy [deliveredKey]) initial rootRequest = some (rootAsked 0) := by
    decide +kernel
  have answered : step (signedBy [deliveredKey]) (rootAsked 0) (.receive signedAnswer false) =
      some (rootAnswered 0) := by decide +kernel
  have ran : step (signedBy [deliveredKey]) (rootAnswered 0) rootRun =
      some (rootValidated 0 [deliveredKey]) := by decide +kernel
  have careful : CarefulKeys (signedBy [deliveredKey]) plainDigest 0 rootJob [deliveredKey] := by
    intro fromMessage delivered
    cases delivered
    refine ⟨fun key member => by rw [mem_singleton.mp member]; exact trusted, ?_⟩
    intro set member
    rw [mem_singleton.mp member]
    refine ⟨⟨by decide, by decide⟩, fun key found => ?_⟩
    cases found
    rfl
  have run : Execution (step (signedBy [deliveredKey]))
      (Careful (signedBy [deliveredKey]) plainDigest) initial (rootValidated 0 [deliveredKey]) := by
    apply tail rootRun _ _ ran
    · apply tail (.receive signedAnswer false) _ _ answered
      · exact tail rootRequest refl trivial asked
      · rintro message ctx lookup result _ _ _ _ ⟨task, none, _⟩
        cases none
    · intro task found
      cases found
      exact fun _ => careful
  refine ⟨run, validated_results_authentic _ plainDigest run 0 1 _ rfl rfl rfl answeredAddress ?_⟩
  exact mem_singleton.mpr rfl

/-- The delivered key is trusted for coming with the answer, and the signature has
expired long ago: the result is reported as validated all the same. -/
theorem forged_answer_validated :
    Execution (step (signedBy [configuredKey])) Unrestricted initial
        (rootValidated 100 [configuredKey, deliveredKey]) ∧
      (rootValidated 100 [configuredKey, deliveredKey]).promises[0]? = some (.resolved 1) ∧
      ∃ result, (rootValidated 100 [configuredKey, deliveredKey]).results[1]? = some result ∧
        result.dnssecValidated = true ∧ answeredAddress ∈ result.records ∧
        ¬ Authentic (signedBy [configuredKey]) plainDigest 100 answeredAddress := by
  -- no key but the delivered one verifies anything, and that one is not linked to the root
  have onlyRoot : ∀ key, Trusted (signedBy [configuredKey]) plainDigest 100 key →
      key = configuredKey := by
    intro key trusted
    have unsigned : ∀ time rrset rrsig,
        ¬ Signed (signedBy [configuredKey]) time configuredKey rrset rrsig := by
      rintro time rrset rrsig ⟨_, _, _, _, data, _, verified⟩
      cases verified
    induction trusted with
    | root configured => exact mem_singleton.mp configured
    | keySet _ _ signed _ _ ih | delegation _ _ signed _ _ _ _ _ ih =>
      exact absurd (ih ▸ signed) (unsigned _ _ _)
  refine ⟨?_, rfl, _, rfl, rfl, mem_singleton.mpr rfl, ?_⟩
  · apply of_actions [.advance 100, rootRequest, .receive signedAnswer false, rootRun]
    decide +kernel
  · rintro ⟨time, key, rrset, rrsig, _, trusted, signed, _⟩
    rcases signed.verified with ⟨data, _, verified⟩
    rw [onlyRoot key trusted] at verified
    cases verified

end Resolver
end Ladybone.DNS
