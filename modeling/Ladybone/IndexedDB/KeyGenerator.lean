import Ladybone.IndexedDB.ObjectStore

/-!
# Numbers handed out by a key generator

Sequences of `generate_a_key` and `possibly_update_the_key_generator` on one
store. The ledger keeps, beside the store, the numbers that earlier calls took:
every generated key and, for every explicit numeric key, the part of it the
generator looks at. A double cannot hold `2 ^ 53 + 1`, so an explicit key of at
least `2 ^ 53` parks the generator on `2 ^ 53` instead of behind it.
-/

namespace Ladybone.IndexedDB.KeyGenerator

open ObjectStore Option Double

variable {Data : Type}

inductive Call where
  | generateAKey
  | possiblyUpdateTheKeyGenerator (key : Key)

/-- The smaller of the floor of an explicit key and `2 ^ 53`. -/
def takenBy : Key → Option Int
  | .number number =>
    match number.value with
    | some (some finite) => some (min ⌊finite⌋ maxKeyGeneratorValue)
    | some none => some maxKeyGeneratorValue
    | none => none
  | _ => none

structure Ledger (Data : Type) where
  store : ObjectStore Data
  taken : List Int

def Ledger.perform (ledger : Ledger Data) : Call → Option (Ledger Data)
  | .generateAKey =>
    ledger.store.generateAKey.map fun
      | (.ok number, store) => { store := store, taken := number :: ledger.taken }
      | (.error _, store) => { ledger with store := store }
  | .possiblyUpdateTheKeyGenerator key =>
    (ledger.store.possiblyUpdateTheKeyGenerator key).map fun store =>
      { store := store, taken := (takenBy key).toList ++ ledger.taken }

def currentNumber (store : ObjectStore Data) : Nat := store.keyGenerator.getD 0

/-- What one call must respect: the number does not fall, stays in
`[1, 2 ^ 53 + 1]`, and a generated key exceeds everything taken before. -/
def StepSafe (before : Ledger Data) (call : Call) (after : Ledger Data) : Prop :=
  currentNumber before.store ≤ currentNumber after.store ∧
    1 ≤ currentNumber after.store ∧
    currentNumber after.store ≤ maxKeyGeneratorValue + 1 ∧
    ∀ number store, call = .generateAKey →
      before.store.generateAKey = some (.ok number, store) →
        ∀ earlier ∈ before.taken, earlier < number

def Safe : Ledger Data → List Call → Prop
  | _, [] => True
  | ledger, call :: rest =>
    ∃ next, ledger.perform call = some next ∧ StepSafe ledger call next ∧ Safe next rest

/-! ## One call on the number alone -/

def updated (current : Nat) : Option Int → Nat
  | none => current
  | some value =>
    if (roundToDouble current : Int) ≤ value then roundToDouble (value + 1).toNat
    else current

theorem round_to_double_small {val : Nat} (small : val ≤ maxKeyGeneratorValue) :
    roundToDouble val = val := by
  rcases Nat.lt_or_eq_of_le small with below | same
  · exact if_pos below
  · rw [same]
    decide +kernel

theorem round_to_double_past_limit :
    roundToDouble (maxKeyGeneratorValue + 1) = maxKeyGeneratorValue := by
  decide +kernel

theorem taken_by_number {val : Double} :
    takenBy (.number val) =
      match min val.value (Double.ofNat maxKeyGeneratorValue).value with
      | some (some finite) => some ⌊finite⌋
      | _ => none := by
  simp only [takenBy]
  match val.value with
  | none => rfl
  | some none =>
    exact congrArg some (Int.floor_natCast (R := ℚ) maxKeyGeneratorValue).symm
  | some (some finite) =>
    have floored : ⌊min finite (maxKeyGeneratorValue : ℚ)⌋ = min ⌊finite⌋ maxKeyGeneratorValue := by
      rw [Int.floor_mono.map_min, Int.floor_natCast]
    exact congrArg some floored.symm

variable {cur : Nat} {ledger : Ledger Data} {key : Key}

theorem update_current {store : ObjectStore Data} (present : store.keyGenerator = some cur)
    (key : Key) :
    ∃ after, store.possiblyUpdateTheKeyGenerator key = some after ∧
      after.keyGenerator = some (updated cur (takenBy key)) := by
  unfold possiblyUpdateTheKeyGenerator
  match key with
  | .date _ | .string _ | .binary _ | .array _ => exact ⟨store, rfl, present⟩
  | .number val =>
    rw [present, taken_by_number]
    dsimp only
    rcases min val.value (ofNat maxKeyGeneratorValue).value with _ | _ | finite
    · exact ⟨store, rfl, present⟩
    · exact ⟨store, rfl, present⟩
    · simp only [updated]
      split
      · exact ⟨_, rfl, rfl⟩
      · exact ⟨store, rfl, present⟩

/-! ## Whole sequences -/

def Followed : Call → Prop
  | .generateAKey => True
  | .possiblyUpdateTheKeyGenerator (.number value) =>
    value < Double.ofNat maxKeyGeneratorValue
  | .possiblyUpdateTheKeyGenerator _ => True

theorem followed_iff (key : Key) :
    Followed (.possiblyUpdateTheKeyGenerator key) ↔
      ∀ val ∈ takenBy key, val < maxKeyGeneratorValue := by
  match key with
  | .date _ | .string _ | .binary _ | .array _ => simp [Followed, takenBy]
  | .number number =>
    change number.value < (ofNat maxKeyGeneratorValue).value ↔ _
    simp only [takenBy]
    match number.value with
    | none =>
      change (⊥ : ExactValue) < _ ↔ _
      simp [Double.value]
    | some none =>
      change ((⊤ : WithTop ℚ) : ExactValue) < _ ↔ _
      simp [Double.value]
    | some (some finite) =>
      change ((finite : WithTop ℚ) : ExactValue) < (((maxKeyGeneratorValue : ℚ) : WithTop ℚ)) ↔ _
      rw [WithBot.coe_lt_coe, WithTop.coe_lt_coe]
      simp [Int.floor_lt]

/-- The state between calls: every number taken lies below the current one. -/
structure Ahead (ledger : Ledger Data) (current : Nat) : Prop where
  present : ledger.store.keyGenerator = some current
  positive : 1 ≤ current
  bounded : current ≤ maxKeyGeneratorValue + 1
  unused : ∀ earlier ∈ ledger.taken, earlier < current

theorem generate_current (present : ledger.store.keyGenerator = some cur) :
    if cur ≤ maxKeyGeneratorValue then
      ∃ store, ledger.store.generateAKey = some (.ok cur, store) ∧
        store.keyGenerator = some (cur + 1)
    else ∃ message, ledger.store.generateAKey = some (.error message, ledger.store) := by
  unfold generateAKey
  rw [present]
  split
  · rename_i usable
    have noWrap : (cur + 1) % 2 ^ 64 = cur + 1 := by
      unfold maxKeyGeneratorValue at usable
      omega
    exact ⟨_, if_neg (not_lt.mpr usable), congrArg some noWrap⟩
  · rename_i spent
    exact ⟨_, if_pos (not_le.mp spent)⟩

theorem updated_ahead {val : Option Int} (positive : 1 ≤ cur)
    (bounded : cur ≤ maxKeyGeneratorValue + 1)
    (followed : ∀ number ∈ val, number < maxKeyGeneratorValue) :
    cur ≤ updated cur val ∧ updated cur val ≤ maxKeyGeneratorValue + 1 ∧
      ∀ number ∈ val, number < updated cur val := by
  cases val with
  | none => simpa [updated] using bounded
  | some number =>
    have small := followed number rfl
    have rounded : roundToDouble (number + 1).toNat = (number + 1).toNat := by
      apply round_to_double_small
      omega
    simp only [updated, mem_some_iff, forall_eq']
    rcases Nat.lt_or_ge maxKeyGeneratorValue cur with past | usable
    · have same : cur = maxKeyGeneratorValue + 1 := by omega
      rw [same, round_to_double_past_limit]
      rw [if_neg (by omega)]
      omega
    · rw [round_to_double_small usable, rounded]
      split <;> omega

theorem perform_ahead (ledger : Ledger Data) (cur : Nat) (ahead : Ahead ledger cur)
    (call : Call) (followed : Followed call) :
    ∃ next number, ledger.perform call = some next ∧ StepSafe ledger call next ∧
      Ahead next number := by
  obtain ⟨present, positive, bounded, unused⟩ := ahead
  cases call with
  | generateAKey =>
    have generated := generate_current present
    split at generated
    · rename_i usable
      obtain ⟨store, res, advanced⟩ := generated
      refine ⟨{ store := store, taken := cur :: ledger.taken }, cur + 1,
        by simp [Ledger.perform, res], ?_, advanced, by omega, by omega, ?_⟩
      · refine ⟨by simp [currentNumber, present, advanced],
          by simp [currentNumber, advanced], by simpa [currentNumber, advanced], ?_⟩
        intro number _ _ returned
        rw [res] at returned
        cases returned
        exact unused
      · intro earlier mem
        rcases List.mem_cons.mp mem with same | before
        · omega
        · have := unused earlier before
          omega
    · obtain ⟨message, res⟩ := generated
      refine ⟨ledger, cur, by simp [Ledger.perform, res],
        ⟨le_refl _, by simpa [currentNumber, present], by simpa [currentNumber, present],
          ?_⟩, present, positive, bounded, unused⟩
      intro number _ _ returned
      rw [res] at returned
      cases returned
  | possiblyUpdateTheKeyGenerator key =>
    obtain ⟨store, res, advanced⟩ := update_current present key
    obtain ⟨grows, capped, beyond⟩ := updated_ahead positive bounded
      ((followed_iff key).mp followed)
    refine ⟨{ store := store, taken := (takenBy key).toList ++ ledger.taken }, _,
      by simp [Ledger.perform, res], ?_, advanced, by omega, capped, ?_⟩
    · refine ⟨by simpa [currentNumber, present, advanced],
        by simpa [currentNumber, advanced] using le_trans positive grows,
        by simpa [currentNumber, advanced], ?_⟩
      intro _ _ other
      cases other
    · intro earlier mem
      rcases List.mem_append.mp mem with new | before
      · exact beyond earlier (mem_toList.mp new)
      · have := unused earlier before
        omega

theorem taken_by_le : ∀ val ∈ takenBy key, val ≤ maxKeyGeneratorValue := by
  unfold takenBy
  split
  · split <;> simp
  · simp

theorem updated_limit (bounded : cur ≤ maxKeyGeneratorValue + 1) :
    updated cur (some maxKeyGeneratorValue) = maxKeyGeneratorValue := by
  have within : roundToDouble cur ≤ maxKeyGeneratorValue := by
    rcases Nat.lt_or_eq_of_le bounded with below | past
    · rw [round_to_double_small (by omega)]
      omega
    · rw [past, round_to_double_past_limit]
  have next : ((maxKeyGeneratorValue : Int) + 1).toNat = maxKeyGeneratorValue + 1 := by omega
  simp only [updated]
  rw [if_pos (by omega), next, round_to_double_past_limit]

theorem updated_parked : updated maxKeyGeneratorValue (takenBy key) = maxKeyGeneratorValue := by
  cases val : takenBy key with
  | none => rfl
  | some number =>
    rcases lt_or_eq_of_le (taken_by_le number val) with below | same
    · simp only [updated]
      exact if_neg (not_le.mpr below)
    · rw [same]
      exact updated_limit (by omega)

/-- The generator stands on a number that is already taken. -/
def Parked (ledger : Ledger Data) : Prop :=
  ledger.store.keyGenerator = some maxKeyGeneratorValue ∧
    (maxKeyGeneratorValue : Int) ∈ ledger.taken

theorem Parked.not_safe_generate (parked : Parked ledger) (rest : List Call) :
    ¬Safe ledger (.generateAKey :: rest) := by
  rintro ⟨next, -, step, -⟩
  have generated := generate_current parked.1
  obtain ⟨issued, res, -⟩ := generated
  exact lt_irrefl _ (step.2.2.2 _ issued rfl res _ parked.2)

theorem Parked.not_safe (parked : Parked ledger) (calls : List Call) :
    ¬Safe ledger (calls ++ [.generateAKey]) := by
  induction calls generalizing ledger with
  | nil => exact parked.not_safe_generate []
  | cons call _ ih =>
    cases call with
    | generateAKey => exact parked.not_safe_generate _
    | possiblyUpdateTheKeyGenerator key =>
      rintro ⟨next, performed, -, later⟩
      obtain ⟨store, res, advanced⟩ := update_current parked.1 key
      simp only [Ledger.perform, res, map_some, some.injEq] at performed
      subst performed
      rw [updated_parked] at advanced
      exact ih ⟨advanced, List.mem_append_right _ parked.2⟩ later

theorem Ahead.parked {next : Ledger Data} (ahead : Ahead ledger cur)
    (unfollowed : ¬Followed (.possiblyUpdateTheKeyGenerator key))
    (performed : ledger.perform (.possiblyUpdateTheKeyGenerator key) = some next) :
    Parked next := by
  have limit : takenBy key = some (maxKeyGeneratorValue : Int) := by
    rw [followed_iff] at unfollowed
    push Not at unfollowed
    obtain ⟨val, taken, large⟩ := unfollowed
    rw [taken, le_antisymm (taken_by_le val taken) large]
  obtain ⟨store, res, advanced⟩ := update_current ahead.present key
  simp only [Ledger.perform, res, map_some, some.injEq, limit] at performed
  subst performed
  rw [limit, updated_limit ahead.bounded] at advanced
  exact ⟨advanced, by simp⟩

theorem safe_iff_followed (ledger : Ledger Data) (cur : Nat)
    (ahead : Ahead ledger cur) (calls : List Call) :
    Safe ledger (calls ++ [.generateAKey]) ↔ ∀ call ∈ calls, Followed call := by
  induction calls generalizing ledger cur with
  | nil =>
    obtain ⟨next, number, performed, safe, -⟩ :=
      perform_ahead ledger cur ahead .generateAKey trivial
    simpa [Safe] using ⟨next, performed, safe⟩
  | cons call rest ih =>
    rw [List.forall_mem_cons]
    constructor
    · rintro ⟨next, performed, safe, later⟩
      have followed : Followed call := by
        by_contra unfollowed
        cases call with
        | generateAKey => exact unfollowed trivial
        | possiblyUpdateTheKeyGenerator key =>
          exact (ahead.parked unfollowed performed).not_safe rest later
      obtain ⟨same, number, reached, -, nextAhead⟩ :=
        perform_ahead ledger cur ahead call followed
      rw [performed] at reached
      cases reached
      exact ⟨followed, (ih next number nextAhead).mp later⟩
    · rintro ⟨followed, others⟩
      obtain ⟨next, number, performed, safe, nextAhead⟩ :=
        perform_ahead ledger cur ahead call followed
      exact ⟨next, performed, safe, (ih next number nextAhead).mpr others⟩

/-- In every sequence of calls on a store whose generator is in its documented
range, nothing is reused, lowered or out of range, up to and including one more
generated key, exactly when every explicit numeric key lies below `2 ^ 53`. -/
theorem key_generator_safe_iff (store : ObjectStore Data) (current : Nat)
    (present : store.keyGenerator = some current) (positive : 1 ≤ current)
    (bounded : current ≤ maxKeyGeneratorValue + 1) (calls : List Call) :
    Safe { store := store, taken := [] } (calls ++ [.generateAKey]) ↔
      ∀ call ∈ calls, Followed call :=
  safe_iff_followed _ current ⟨present, positive, bounded, by simp⟩ calls

def storeAt (current : Nat) : ObjectStore Unit :=
  { name := "", keyPath := none, keyGenerator := some current, records := [],
    indexSet := [],
    index := fun _ =>
      { name := "", unique := false, multiEntry := false, keyPath := .string "",
        deleted := false, records := [] },
    mutationLog := none }

theorem key_generator_safe_iff_fresh : Safe { store := storeAt 1, taken := [] }
        ([.possiblyUpdateTheKeyGenerator (.number (Double.ofNat 7))] ++ [.generateAKey]) ↔
      ∀ call ∈ [Call.possiblyUpdateTheKeyGenerator (.number (Double.ofNat 7))], Followed call :=
  key_generator_safe_iff (storeAt 1) 1 rfl (le_refl 1) (by decide) _

/-- After the explicit key `2 ^ 53` the generator returns `2 ^ 53`. Once that
key has been generated, the same explicit key lowers the number again. -/
theorem key_generator_reuses_limit :
    let explicit : Key := .number (Double.ofNat (2 ^ 53))
    (((storeAt 1).possiblyUpdateTheKeyGenerator explicit).bind fun store =>
        store.generateAKey.map Prod.fst) = some (.ok (2 ^ 53)) ∧
      ((storeAt (2 ^ 53)).generateAKey.bind fun (_, store) =>
        (store.possiblyUpdateTheKeyGenerator explicit).map currentNumber) = some (2 ^ 53) ∧
      ¬Safe { store := storeAt 1, taken := [] }
        [.possiblyUpdateTheKeyGenerator explicit, .generateAKey] := by
  have limit : takenBy (.number (ofNat (2 ^ 53))) =
      some (maxKeyGeneratorValue : Int) := by decide +kernel
  refine ⟨by decide +kernel, by decide +kernel, ?_⟩
  rintro safe
  have followed := (safe_iff_followed { store := storeAt 1, taken := [] } 1
    ⟨rfl, le_refl 1, by decide, by simp⟩
    [.possiblyUpdateTheKeyGenerator (.number (ofNat (2 ^ 53)))]).mp safe
  have below := (followed_iff _).mp (followed _ (by simp)) _ limit
  exact lt_irrefl _ below

end Ladybone.IndexedDB.KeyGenerator
