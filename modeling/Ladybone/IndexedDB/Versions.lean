import Ladybone.IndexedDB.Isolation

/-!
# Versions and aborted transactions

`revert_all_mutations` restores the version from a field that only
`set_up_mutation_logs` writes. An aborted transaction that never had logs, because
it only reads or is still blocked, sets the version to zero. Where every aborted
transaction had its logs, aborting one that is not an upgrade changes no version.
-/

namespace Ladybone.IndexedDB

open Function Support.Runs

/-! ## What lasts while a transaction exists -/

structure Lasting (s next : Schedule) (t : TransactionRef) : Prop where
  born : t < next.transactionCount
  mode : next.mode t = s.mode t
  owner : next.owner t = s.owner t
  finished : s.finished t = true → next.finished t = true

theorem Schedule.Move.lasting {s next : Schedule} (move : s.Move next) {t : TransactionRef}
    (born : t < s.transactionCount) : Lasting s next t := by
  have old : t ≠ s.transactionCount := Nat.ne_of_lt born
  have added : ∀ c mode scope, Lasting s (s.addTransaction c mode scope) t := by
    intro c mode scope
    refine ⟨Nat.lt_succ_of_lt born, update_of_ne old _ _, update_of_ne old _ _, ?_⟩
    intro concluded
    simp only [Schedule.addTransaction, update_of_ne old]
    exact concluded
  cases move with
  | openConnection | rescope | queueCommit | popUpgradeNeeded | popUpgradeFinished | popClosed
  | unblock | closed =>
    exact ⟨born, rfl, rfl, id⟩
  | create c mode scope => exact added c mode scope
  | createBlocked c mode scope =>
    exact { added c mode scope with }
  | startUpgrade c _ scope =>
    exact { added c .versionchange scope with }
  | abort u | popEnd u =>
    exact ⟨born, rfl, rfl, update_true_of_true⟩
  | close | awaitUpgrade =>
    simp only [Schedule.waitFor]
    split_ifs
    all_goals exact ⟨born, rfl, rfl, id⟩
  | dropWaits => exact ⟨born, rfl, rfl, id⟩

namespace Database

variable {t : TransactionRef} {db next before : Database} {standing : TransactionRef → Standing}
  {c : ConnectionRef} {action : Action} {mode : TransactionMode} {scope : List StoreRef}
  (tracked : db.Tracked)

theorem quiet_moves_lasting {s next : Schedule} (moves : QuietMoves s next)
    (born : t < s.transactionCount) : Lasting s next t := by
  induction moves with
  | refl => exact ⟨born, rfl, rfl, id⟩
  | tail _ move ih =>
    have later := move.1.lasting ih.born
    exact ⟨later.born, later.mode.trans ih.mode, later.owner.trans ih.owner,
      fun concluded => later.finished (ih.finished concluded)⟩

include tracked in
theorem Tracked.step_lasting (orderly : db.Orderly action)
    (steps : db.step action = some next) (born : t < db.transactionCount) :
    Lasting db.schedule next.schedule t := by
  cases creates : action.creates with
  | false =>
    exact quiet_moves_lasting (tracked.step_follows creates orderly steps).moves born
  | true =>
    cases action with
    | upgrade => exact (tracked.upgrade orderly steps).2.1.lasting born
    | transaction c mode scope =>
      exact (tracked.create_transaction c mode scope steps).2.lasting born
    | _ => exact absurd creates (by simp [Action.creates])

/-! ## Recorded versions -/

/-- Every read-write transaction that may run has recorded the current version. -/
def OriginalsKept (version : Nat) (standing : TransactionRef → Standing) : Prop :=
  ∀ t, (standing t).finished = false → (standing t).blocked = false →
    (standing t).mode = .readwrite → (standing t).originalVersion = version

theorem OriginalsKept.update {version : Nat} (kept : OriginalsKept version standing)
    (t : TransactionRef) {now : Standing}
    (here : now.finished = false → now.blocked = false → now.mode = .readwrite →
      now.originalVersion = version) :
    OriginalsKept version (Function.update standing t now) :=
  (forall_update_iff standing fun _ standing => standing.finished = false →
    standing.blocked = false → standing.mode = .readwrite →
      standing.originalVersion = version).mpr ⟨here, fun u _ => kept u⟩

theorem originals_of_none
    (none : ∀ t, (standing t).mode = .readwrite → (standing t).finished = true) {version : Nat} :
    OriginalsKept version standing := by
  intro t unfinished _ isReadwrite
  cases (unfinished.symm.trans (none t isReadwrite))

/-- The versions a transaction of an existing connection can see stay. -/
structure SameVersions (db next : Database) : Prop where
  version : next.version = db.version
  versions : ∀ c < db.connectionCount, (next.connection c).version = (db.connection c).version

theorem plain_finished (sane : db.schedule.Sane) (live : db.upgradeTransaction = some t) :
    ∀ u, (db.transaction u).mode ≠ .versionchange → (db.transaction u).isFinished = true := by
  intro u plain
  obtain ⟨_, isUpgrade, _, _, others⟩ := sane.live t live
  apply others u
  rintro rfl
  exact plain isUpgrade

theorem originals_of_upgrade (sane : db.schedule.Sane) (live : db.upgradeTransaction = some t) :
    OriginalsKept db.version db.standing := by
  apply originals_of_none
  intro u isReadwrite
  apply plain_finished sane live u
  intro isUpgrade
  cases (isUpgrade.symm.trans isReadwrite)

/-! ## Aborting -/

theorem unwound_version :
    (db.unwound t).version = (db.transaction t).originalVersion ∧
      ∀ c, ((db.unwound t).connection c).version =
        if c = (db.transaction t).connection then (db.transaction t).originalVersion
        else (db.connection c).version := by
  simp only [unwound]
  split_ifs
  all_goals
    refine ⟨?_, fun c => ?_⟩
    all_goals
      simp [abortAnUpgradeTransaction, discardMutationLogs, revertAllMutations, setTransaction,
        setConnection]
    simp only [update_apply]
    split_ifs <;> rfl

section
variable (kept : OriginalsKept db.version db.standing)

include kept

theorem SameStanding.originals (same : SameStanding db next) :
    OriginalsKept next.version next.standing := by
  rwa [same.version, same.standing]

/-- The transaction has its logs, and its connection the version of the database. -/
structure Started (db : Database) (t : TransactionRef) : Prop where
  isReadwrite : (db.transaction t).mode = .readwrite
  free : (db.transaction t).blocked = false
  current : (db.connection (db.transaction t).connection).version = db.version

theorem Started.abort_versions (started : db.Started t)
    (unfinished : (db.transaction t).isFinished = false) :
    (db.abortATransaction t).version = db.version ∧
      ∀ c, ((db.abortATransaction t).connection c).version = (db.connection c).version := by
  have original : (db.transaction t).originalVersion = db.version :=
    kept t unfinished started.free started.isReadwrite
  obtain ⟨version, versions⟩ := unwound_version
  rw [abort_eq db t unfinished]
  refine ⟨version.trans original, ?_⟩
  intro c
  refine (versions c).trans ?_
  split_ifs with same
  · rw [same, original, started.current]
  · rfl

/-- Of the transactions that are not upgrades, only started ones are aborted. -/
def AbortsStarted (db : Database) : Action → Prop
  | .abort t => (db.transaction t).mode ≠ .versionchange → db.Started t
  | .executeRequest t _ failed => failed = true → (db.transaction t).state = .committing →
      (db.transaction t).mode ≠ .versionchange → db.Started t
  | _ => True

/-- A step keeps the recorded versions right. It changes versions only while no
transaction but upgrades is unfinished. -/
structure VersionStep (db next : Database) : Prop where
  kept : OriginalsKept next.version next.standing
  same : SameVersions db next ∨
    ∀ t, (db.transaction t).mode ≠ .versionchange → (db.transaction t).isFinished = true

theorem SameStanding.version_step (same : SameStanding db next) : VersionStep db next :=
  ⟨same.originals kept, .inl ⟨same.version, fun c _ => same.versions c⟩⟩

theorem version_step_abort (sane : db.schedule.Sane)
    (unfinished : (db.transaction t).isFinished = false)
    (started : (db.transaction t).mode ≠ .versionchange → db.Started t) :
    VersionStep db (db.abortATransaction t) := by
  obtain ⟨scope, ended⟩ := abort_standing unfinished
  by_cases isUpgrade : (db.transaction t).mode = .versionchange
  · have live := (sane.registered t (sane.born t unfinished) isUpgrade).mpr (.inl unfinished)
    have others := (sane.live t live).2.2.2.2
    constructor
    · apply originals_of_none
      intro u isReadwrite
      rw [ended] at isReadwrite ⊢
      by_cases same : u = t
      · rw [same, update_self]
      · rw [update_of_ne same]
        exact others u same
    · right
      intro u plain
      apply others u
      rintro rfl
      exact plain isUpgrade
  · obtain ⟨version, versions⟩ := (started isUpgrade).abort_versions kept unfinished
    constructor
    · rw [version, ended]
      apply kept.update
      exact fun impossible => absurd impossible (by simp)
    · exact .inl ⟨version, fun c _ => versions c⟩

/-! ## Steps -/

theorem version_step_unblock {u : TransactionRef}
    (unfinished : (db.transaction u).isFinished = false) :
    OriginalsKept (db.unblockTransaction u).version (db.unblockTransaction u).standing ∧
      (db.unblockTransaction u).version = db.version ∧
        ∀ c, ((db.unblockTransaction u).connection c).version = (db.connection c).version := by
  cases waiting : (db.transaction u).requests.isEmpty with
  | true =>
    have same := same_standing_commit unfinished
    simp only [unblockTransaction, if_pos waiting]
    exact ⟨same.originals kept, same.version, same.versions⟩
  | false =>
    have versions : (db.unblockTransaction u).version = db.version ∧
        (db.unblockTransaction u).connection = db.connection := by
      rw [unblock_eq waiting, prepared]
      split_ifs
      all_goals exact ⟨rfl, rfl⟩
    refine ⟨?_, versions.1, fun c => by rw [versions.2]⟩
    rw [versions.1]
    by_cases reads : (db.transaction u).mode = .readonly
    · rw [unblock_reader_standing waiting reads]
      apply kept.update
      intro _ _ isReadwrite
      cases (reads.symm.trans isReadwrite)
    · rw [unblock_writer_standing waiting reads]
      apply kept.update
      exact fun _ _ _ => rfl

omit kept in
theorem originals_kept_by_waits (version : Nat) (versions : ConnectionRef → Nat) :
    KeptByWaits fun db => db.version = version ∧ (∀ c, (db.connection c).version = versions c) ∧
        OriginalsKept db.version db.standing where
  callback := by
    intro db next c wait tracked holds fires ran
    obtain ⟨isVersion, isVersions, kept⟩ := holds
    cases callback : wait.callback with
    | unblock u =>
      simp only [callback, runCallback] at ran
      split_ifs at ran
      cases ran
      obtain ⟨after, sameVersion, sameVersions⟩ :=
        version_step_unblock kept (fires.fresh u callback)
      exact ⟨sameVersion.trans isVersion, fun other => (sameVersions other).trans
        (isVersions other), after⟩
    | connectionClosed =>
      simp only [callback] at ran
      cases ran
      have closed := same_standing_set_connection c { db.connection c with closed := true } rfl
      exact ⟨isVersion, fun other => (closed.versions other).trans (isVersions other), kept⟩
    | upgradeFinished =>
      simp only [callback] at ran
      cases ran
      exact ⟨isVersion, isVersions, kept⟩
  drop := by
    intro db c rest tracked holds subset
    obtain ⟨isVersion, isVersions, kept⟩ := holds
    have dropped := same_standing_set_connection c
      { db.connection c with pendingTransactionWaits := rest } rfl
    exact ⟨isVersion, fun other => (dropped.versions other).trans (isVersions other), kept⟩

include tracked in
theorem version_step_run_task (orderly : db.Orderly .runTask) (ran : db.runTask = some next) :
    VersionStep db next := by
  have waits := originals_kept_by_waits db.version fun c => (db.connection c).version
  have held : ∀ {ended : Database}, SameStanding db ended → ended.version = db.version ∧
      (∀ c, (ended.connection c).version = (db.connection c).version) ∧
        OriginalsKept ended.version ended.standing :=
    fun same => ⟨same.version, same.versions, same.originals kept⟩
  obtain ⟨_, version, versions, after⟩ :=
    tracked.run_task_keeps waits orderly ran
      (by
        intro t later _
        have released := same_standing_released db t later
        refine ⟨released.version, released.versions, ?_⟩
        rw [finish_commit_standing]
        have version : (db.finishedCommit t later).version = db.version := released.version
        rw [version]
        exact kept.update _ fun impossible => absurd impossible (by simp))
      (fun t later _ => held (same_standing_released db t later))
      (fun t later inactive _ => held (same_standing_needed inactive))
      (fun c later _ => held ⟨rfl, rfl, rfl,
        (same_standing_set_connection c { db.connection c with closed := true } rfl).versions⟩)
      fun later _ => held ⟨rfl, rfl, rfl, fun _ => rfl⟩
  exact ⟨after, .inl ⟨version, fun c _ => versions c⟩⟩

theorem version_step_create
    (created : db.createTransaction c mode scope = some next) :
    OriginalsKept next.version next.standing ∧ next.version = db.version ∧
      ∀ other, (next.connection other).version = (db.connection other).version := by
  obtain ⟨_, version, versions, ⟨reads, _, standing⟩ | ⟨_, _, standing⟩ | ⟨_, standing⟩⟩ :=
    create_transaction_standing created
  all_goals
    refine ⟨?_, version, versions⟩
    rw [version, standing]
    apply kept.update
  · intro _ _ isReadwrite
    cases (reads.symm.trans isReadwrite)
  · exact fun _ _ _ => rfl
  · exact fun _ impossible => absurd impossible (by simp)

include tracked in
theorem version_step (orderly : db.Orderly action)
    (started : db.AbortsStarted action)
    (steps : db.step action = some next) : VersionStep db next := by
  have after := tracked.step action orderly steps
  cases routine : action.routine with
  | true => exact (routine_standing routine orderly steps).version_step kept
  | false =>
    cases action with
    | openConnection =>
      obtain ⟨_, made⟩ := Option.ite_none_right_eq_some.mp steps
      split_ifs at made
      all_goals
        cases made
        exact ⟨kept, .inl ⟨rfl, fun c inside => congrArg Connection.version
          (update_of_ne (Nat.ne_of_lt inside) _ _)⟩⟩
    | upgrade =>
      obtain ⟨_, _, concluded⟩ := tracked.upgrade orderly steps
      obtain ⟨pending, _, _, rfl⟩ := upgrade_made steps
      exact ⟨originals_of_upgrade (t := db.transactionCount) after.sane rfl,
        .inr fun t _ => concluded t⟩
    | createObjectStore =>
      obtain ⟨upgrade, live, _, rfl⟩ := create_object_store_made steps
      exact ⟨originals_of_upgrade (t := upgrade) after.sane live,
        .inr (plain_finished tracked.sane live)⟩
    | deleteObjectStore =>
      obtain ⟨upgrade, _, live, _, rfl⟩ := delete_object_store_made steps
      exact ⟨originals_of_upgrade (t := upgrade) after.sane live,
        .inr (plain_finished tracked.sane live)⟩
    | transaction c mode scope =>
      obtain ⟨originals, version, versions⟩ := version_step_create kept steps
      exact ⟨originals, .inl ⟨version, fun other _ => versions other⟩⟩
    | executeRequest t =>
      rcases execute_request_cases steps with ⟨fails, committing, made⟩ | same
      · rw [made]
        exact version_step_abort kept tracked.sane
          (by rw [Transaction.isFinished, committing]; rfl) (started fails committing)
      · exact same.version_step kept
    | abort t =>
      obtain ⟨unfinished, made⟩ := abort_action_eq steps
      rw [made]
      exact version_step_abort kept tracked.sane unfinished started
    | runTask => exact version_step_run_task tracked kept orderly steps
    | _ => exact absurd routine (by simp [Action.routine])

end

/-! ## Runs -/

/-- The runs in which every aborted transaction that is not an upgrade had started on a
connection with the version of the database. -/
def AbortsRecoverable (db : Database) (action : Action) : Prop :=
  db.Orderly action ∧ db.AbortsStarted action

theorem initial_originals : OriginalsKept initial.version initial.standing := by
  intro t unfinished
  exact absurd unfinished (by simp [initial, standing, Transaction.standing,
    Transaction.isFinished])

theorem run_versions (run : Execution step AbortsRecoverable initial db) :
    db.Tracked ∧ OriginalsKept db.version db.standing := by
  apply Execution.invariant (fun db : Database =>
    db.Tracked ∧ OriginalsKept db.version db.standing) ⟨initial_tracked, initial_originals⟩ _ run
  intro state action next holds allowed steps
  exact ⟨holds.1.step action allowed.1 steps,
    (version_step holds.1 holds.2 allowed.1 allowed.2 steps).kept⟩

/-- What a run keeps while a transaction that is not an upgrade is unfinished. -/
structure Holding (before : Database) (c : ConnectionRef) (t : TransactionRef)
    (db : Database) : Prop where
  tracked : db.Tracked
  kept : OriginalsKept db.version db.standing
  born : t < db.transactionCount
  plain : (db.transaction t).mode ≠ .versionchange
  owner : (db.transaction t).connection = c
  versions : (db.transaction t).isFinished = true ∨
    (db.version = before.version ∧ (db.connection c).version = (before.connection c).version)

theorem Holding.step (holding : Holding before c t db)
    (allowed : AbortsRecoverable db action) (steps : db.step action = some next) :
    Holding before c t next := by
  have lasting := holding.tracked.step_lasting allowed.1 steps holding.born
  have stepVersions := version_step holding.tracked holding.kept allowed.1 allowed.2 steps
  have mode : (next.transaction t).mode = (db.transaction t).mode := lasting.mode
  have inside : c < db.connectionCount := by
    rw [← holding.owner]
    exact holding.tracked.sane.ownerBorn t holding.born
  refine ⟨holding.tracked.step action allowed.1 steps, stepVersions.kept, lasting.born,
    ?_, lasting.owner.trans holding.owner, ?_⟩
  · rw [mode]
    exact holding.plain
  · rcases holding.versions with concluded | ⟨version, connection⟩
    · exact .inl (lasting.finished concluded)
    · rcases stepVersions.same with same | concluded
      · exact .inr ⟨same.version.trans version, (same.versions c inside).trans connection⟩
      · exact .inl (lasting.finished (concluded t holding.plain))

theorem created_holding {created : Database}
    (history : Execution step AbortsRecoverable initial before)
    (creates : before.step (.transaction c mode scope) = some created) :
    Holding before c before.transactionCount created := by
  obtain ⟨tracked, kept⟩ := run_versions history
  obtain ⟨count, owner, modes, _⟩ :=
    create_transaction_fields creates tracked.sane.toRegistry
  obtain ⟨originals, version, versions⟩ := version_step_create kept creates
  refine ⟨(tracked.create_transaction c mode scope creates).1, originals, ?_, ?_, ?_, ?_⟩
  · rw [count]
    exact Nat.lt_succ_self _
  · have isMode : (created.transaction before.transactionCount).mode = mode :=
      (congrFun modes _).trans (update_self _ _ _)
    rw [isMode]
    exact (Option.ite_none_right_eq_some.mp creates).1.2.2.2.2.2
  · exact (congrFun owner _).trans (update_self _ _ _)
  · exact .inr ⟨version, versions c⟩

/-- Aborting a started transaction leaves the version of the database and of its
connection as they were before the transaction was created. -/
theorem abort_keeps_versions {before created running : Database} {c : ConnectionRef}
    {mode : TransactionMode} {scope : List StoreRef}
    (history : Execution step AbortsRecoverable initial before)
    (creates : before.step (.transaction c mode scope) = some created)
    (run : Execution step AbortsRecoverable created running)
    (unfinished : (running.transaction before.transactionCount).isFinished = false)
    (started : running.Started before.transactionCount) :
    (running.abortATransaction before.transactionCount).version = before.version ∧
      ((running.abortATransaction before.transactionCount).connection c).version =
        (before.connection c).version := by
  have holding : Holding before c before.transactionCount running := by
    apply Execution.invariant (Holding before c before.transactionCount)
      (created_holding history creates) _ run
    intro state action next holds allowed stepped
    exact holds.step allowed stepped
  obtain ⟨version, versions⟩ := started.abort_versions holding.kept unfinished
  rcases holding.versions with concluded | ⟨sameVersion, sameConnection⟩
  · cases (unfinished.symm.trans concluded)
  · exact ⟨version.trans sameVersion, (versions c).trans sameConnection⟩

theorem started_abort_keeps_version :
    ∃ before created, Execution step AbortsRecoverable initial before ∧
      before.step (.transaction 0 .readwrite [0]) = some created ∧ before.version = 1 ∧
        (created.abortATransaction before.transactionCount).version = 1 := by
  have reached := store_created AbortsRecoverable fun _ action member orderly => by
    refine ⟨orderly, ?_⟩
    simp only [createStore, List.mem_cons, List.not_mem_nil, or_false] at member
    rcases member with rfl | rfl | rfl | rfl | rfl | rfl <;> trivial
  have creates : (creating 6).step (.transaction 0 .readwrite [0]) = some _ := rfl
  exact ⟨creating 6, _, reached, creates, rfl,
    (abort_keeps_versions reached creates Execution.refl rfl ⟨rfl, rfl, rfl⟩).1⟩

/-- Aborting a read-only transaction, or one that is still blocked, sets the version of
the database and of the connection from 1 to 0. -/
theorem abort_resets_version :
    ∃ before reading writing blocked,
      Execution step Unrestricted initial before ∧ before.version = 1 ∧
      (before.connection 0).version = 1 ∧
      before.step (.transaction 0 .readonly [0]) = some reading ∧
      (reading.transaction 1).isFinished = false ∧ (reading.abortATransaction 1).version = 0 ∧
      ((reading.abortATransaction 1).connection 0).version = 0 ∧
      before.step (.transaction 0 .readwrite [0]) = some writing ∧
      writing.step (.transaction 0 .readwrite [0]) = some blocked ∧
      (blocked.transaction 2).blocked = true ∧ (blocked.abortATransaction 2).version = 0 ∧
      ((blocked.abortATransaction 2).connection 0).version = 0 := by
  have reached := store_created Unrestricted fun _ _ _ _ => trivial
  exact ⟨_, _, _, _, reached, rfl, rfl, rfl, rfl, rfl, rfl, rfl, rfl, rfl, rfl, rfl⟩

end Database
end Ladybone.IndexedDB
