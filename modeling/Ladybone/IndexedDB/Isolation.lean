import Ladybone.IndexedDB.Steps

/-!
# Transaction isolation

Two transactions that may both run do not conflict, and the log attached to a store
is the one of the transaction that may write to it. The scheduler looks at one
connection only, so both hold in the runs in which no transaction is created beside
a conflicting unfinished one of another connection.
-/

namespace Ladybone.IndexedDB

open Function Support.Runs List

/-! ## Who keeps which log -/

structure Standing where
  (finished blocked : Bool)
  mode : TransactionMode
  (scope logged : List StoreRef)
  originalVersion : Nat

def Standing.writes (standing : Standing) : Prop :=
  standing.finished = false ∧ standing.blocked = false ∧ standing.mode ≠ .readonly

/-- The attached logs are those of the transactions that may write. An upgrade
transaction keeps the log of a store it has deleted. -/
structure LogsKept (log : StoreRef → Option TransactionRef)
    (standing : TransactionRef → Standing) : Prop where
  attached : ∀ store t, log store = some t → store ∈ (standing t).logged
  keeper : ∀ t, ∀ store ∈ (standing t).logged, (standing t).writes ∧
    (store ∈ (standing t).scope ∨ (standing t).mode = .versionchange)
  covered : ∀ t, (standing t).writes → ∀ store ∈ (standing t).scope, log store = some t
  upgrades : ∀ t, (standing t).mode = .versionchange → (standing t).blocked = false

namespace LogsKept

variable {log : StoreRef → Option TransactionRef} {standing : TransactionRef → Standing}
  {t : TransactionRef} {now : Standing}

section
variable (kept : LogsKept log standing) {after : StoreRef → Option TransactionRef}

include kept

/-- One transaction changes, and the logs with it: what is to be shown of it and of the rest. -/
theorem change (attached : ∀ store, after store = some t → store ∈ now.logged)
    (older : ∀ store u, u ≠ t → after store = some u → log store = some u)
    (keeper : ∀ store ∈ now.logged, now.writes ∧ (store ∈ now.scope ∨ now.mode = .versionchange))
    (covered : now.writes → ∀ store ∈ now.scope, after store = some t)
    (others : ∀ u, u ≠ t → (standing u).writes → ∀ store ∈ (standing u).scope, after store = some u)
    (plain : now.mode = .versionchange → now.blocked = false) :
    LogsKept after (update standing t now) where
  attached := by
    intro store u isAttached
    by_cases same : u = t
    · subst same
      rw [update_self]
      exact attached store isAttached
    · rw [update_of_ne same]
      exact kept.attached store u (older store u same isAttached)
  keeper := (forall_update_iff standing fun _ standing => ∀ store ∈ standing.logged,
    standing.writes ∧ (store ∈ standing.scope ∨ standing.mode = .versionchange)).mpr
      ⟨keeper, fun u _ => kept.keeper u⟩
  covered := (forall_update_iff standing fun u standing => standing.writes →
    ∀ store ∈ standing.scope, after store = some u).mpr ⟨covered, others⟩
  upgrades := (forall_update_iff standing fun _ standing => standing.mode = .versionchange →
    standing.blocked = false).mpr ⟨plain, fun u _ => kept.upgrades u⟩

theorem set_up (writes : now.writes)
    (logged : ∀ store, store ∈ now.logged ↔ store ∈ (standing t).logged ∨ store ∈ now.scope)
    (old : ∀ store ∈ (standing t).logged, store ∈ now.scope ∨ now.mode = .versionchange)
    (exclusive : ∀ u, u ≠ t → (standing u).writes →
      ∀ store ∈ (standing u).scope, store ∉ now.scope) :
    LogsKept (fun store => if store ∈ now.scope then some t else log store)
      (update standing t now) := by
  refine kept.change ?_ ?_ ?_ (fun _ _ inside => if_pos inside) ?_ fun _ => writes.2.1
  · intro store isAttached
    split_ifs at isAttached with inside
    · exact (logged store).mpr (.inr inside)
    · exact (logged store).mpr (.inl (kept.attached store t isAttached))
  · intro store u apart isAttached
    split_ifs at isAttached with inside
    · exact absurd (Option.some.inj isAttached).symm apart
    · exact isAttached
  · intro store mem
    exact ⟨writes, ((logged store).mp mem).elim (old store) .inl⟩
  · intro u apart mayWrite store inside
    rw [if_neg (exclusive u apart mayWrite store inside)]
    exact kept.covered u mayWrite store inside

theorem idle (before : (standing t).logged = []) (after : now.logged = []) (idle : ¬now.writes)
    (plain : now.mode = .versionchange → now.blocked = false) :
    LogsKept log (update standing t now) := by
  refine kept.change ?_ (fun _ _ _ isAttached => isAttached) ?_
    (fun mayWrite => absurd mayWrite idle) (fun u _ => kept.covered u) plain
  · intro store isAttached
    have listed := kept.attached store t isAttached
    rw [before] at listed
    cases listed
  · rw [after]
    exact forall_mem_nil _

theorem discard (finished : now.finished = true) (logged : now.logged = [])
    (plain : now.mode = .versionchange → now.blocked = false)
    (exclusive : ∀ u, u ≠ t → (standing u).writes →
      ∀ store ∈ (standing u).scope, store ∉ (standing t).logged) :
    LogsKept (fun store => if store ∈ (standing t).logged then none else log store)
      (update standing t now) := by
  refine kept.change ?_ ?_ ?_ ?_ ?_ plain
  · intro store isAttached
    split_ifs at isAttached with inside
    exact absurd (kept.attached store t isAttached) inside
  · intro store u _ isAttached
    split_ifs at isAttached
    exact isAttached
  · rw [logged]
    exact forall_mem_nil _
  · exact fun mayWrite => absurd (mayWrite.1.symm.trans finished) (by decide)
  · intro u apart mayWrite store inside
    rw [if_neg (exclusive u apart mayWrite store inside)]
    exact kept.covered u mayWrite store inside

theorem upgrade (writes : now.writes)
    (isUpgrade : now.mode = .versionchange) (alone : ∀ u, u ≠ t → ¬(standing u).writes)
    (attached : ∀ store u, after store = some u → (u = t ∧ store ∈ now.logged) ∨ log store = some u)
    (logged : ∀ store ∈ (standing t).logged, store ∈ now.logged)
    (covered : ∀ store ∈ now.scope, after store = some t) :
    LogsKept after (update standing t now) := by
  refine kept.change ?_ ?_ (fun store _ => ⟨writes, .inr isUpgrade⟩) (fun _ => covered)
    (fun u apart mayWrite => absurd mayWrite (alone u apart)) fun _ => writes.2.1
  · intro store isAttached
    rcases attached store t isAttached with ⟨_, listed⟩ | before
    · exact listed
    · exact logged store (kept.attached store t before)
  · intro store u apart isAttached
    exact (attached store u isAttached).resolve_left fun here => apart here.1

end
end LogsKept

/-! ## Logs of the database -/

def Transaction.standing (transaction : Transaction) : Standing where
  finished := transaction.isFinished
  blocked := transaction.blocked
  mode := transaction.mode
  scope := transaction.scope
  logged := transaction.storeMutationLogs.map Prod.fst
  originalVersion := transaction.originalVersion

open Transaction

namespace Database

def standing (db : Database) (t : TransactionRef) : Standing := (db.transaction t).standing

def Logged (db : Database) : Prop := LogsKept db.mutationLog db.standing

theorem standing_set_transaction (db : Database) (t : TransactionRef) (tx : Transaction) :
    (db.setTransaction t tx).standing = update db.standing t tx.standing :=
  update_field Transaction.standing db.transaction t tx

/-- The databases differ in requests, waits and tasks only. -/
structure SameStanding (db next : Database) : Prop where
  log : next.mutationLog = db.mutationLog
  standing : next.standing = db.standing
  version : next.version = db.version
  versions : ∀ c, (next.connection c).version = (db.connection c).version

open SameStanding

theorem SameStanding.refl (db : Database) : SameStanding db db :=
  ⟨rfl, rfl, rfl, fun _ => rfl⟩

variable {db next : Database} {t u : TransactionRef} (active : (db.transaction t).state = .active)

theorem SameStanding.trans {middle : Database} (first : SameStanding db middle)
    (second : SameStanding middle next) : SameStanding db next :=
  ⟨second.log.trans first.log, second.standing.trans first.standing,
    second.version.trans first.version,
    fun c => (second.versions c).trans (first.versions c)⟩

theorem SameStanding.logged (same : SameStanding db next) (logged : db.Logged) : next.Logged := by
  rwa [Logged, same.log, same.standing]

theorem same_standing_touch (db : Database) (t : TransactionRef) (tx : Transaction)
    (same : tx.standing = (db.transaction t).standing) :
    SameStanding db (db.setTransaction t tx) := by
  refine ⟨rfl, ?_, rfl, fun _ => rfl⟩
  rw [standing_set_transaction, same]
  exact update_eq_self t db.standing

theorem same_standing_check (t : TransactionRef) : SameStanding db (db.checkAllProcessed t) := by
  have cleared := same_standing_touch db t { db.transaction t with onAllProcessed := false } rfl
  simp only [checkAllProcessed]
  split_ifs
  · exact { cleared with }
  · exact cleared
  · exact refl db

theorem same_standing_commit (unfinished : (db.transaction t).isFinished = false) :
    SameStanding db (db.commitATransaction t) := by
  apply trans _ (same_standing_check t)
  apply same_standing_touch
  simp only [Transaction.standing, unfinished]
  rfl

include active in
theorem same_standing_leave :
    SameStanding db (db.setTransaction t { db.transaction t with state := .inactive }) := by
  apply same_standing_touch
  simp only [Transaction.standing, unfinished_of_active active]
  rfl

include active in
theorem same_standing_leave_and_commit :
    SameStanding db ((db.setTransaction t
      { db.transaction t with state := .inactive }).commitATransaction t) := by
  apply (same_standing_leave active).trans
  apply same_standing_commit
  simp only [setTransaction, update_self]
  rfl

theorem same_standing_set_connection (c : ConnectionRef) (conn : Connection)
    (same : conn.version = (db.connection c).version) :
    SameStanding db (db.setConnection c conn) := by
  refine ⟨rfl, rfl, rfl, congrFun ?_⟩
  have versions := update_field Connection.version db.connection c conn
  rw [same] at versions
  exact versions.trans (update_eq_self c _)

theorem same_standing_wait_for (db : Database) (c : ConnectionRef) (refs : List TransactionRef)
    (callback : Callback) : SameStanding db (db.waitForTransactionsToFinish c refs callback) := by
  simp only [waitForTransactionsToFinish]
  split_ifs
  · exact ⟨rfl, rfl, rfl, fun _ => rfl⟩
  · exact same_standing_set_connection c _ rfl

theorem exclusive_stores (order : db.schedule.Ordered) (apart : u ≠ t)
    (writes : (db.standing t).writes) (unfinished : (db.standing u).finished = false)
    (free : (db.standing u).blocked = false) :
    ∀ store ∈ (db.standing u).scope, store ∉ (db.standing t).scope := by
  intro store inU inT
  apply order.exclusive apart unfinished writes.1 free writes.2.1
  exact ⟨fun both => writes.2.2 both.2, store, inU, inT⟩

theorem logged_exclusive (sane : db.schedule.Sane) (order : db.schedule.Ordered)
    (logged : db.Logged) (apart : u ≠ t) (unfinished : (db.standing u).finished = false)
    (free : (db.standing u).blocked = false) :
    ∀ store ∈ (db.standing u).scope, store ∉ (db.standing t).logged := by
  intro store inside listed
  obtain ⟨writes, inScope | isUpgrade⟩ := logged.keeper t store listed
  · exact exclusive_stores order apart writes unfinished free store inside inScope
  · have born := sane.born t writes.1
    have live := (sane.registered t born isUpgrade).mpr (.inl writes.1)
    have concluded := (sane.live t live).2.2.2.2 u apart
    cases (unfinished.symm.trans concluded)

theorem Follows.ordered (tracked : db.Tracked) (order : db.schedule.Ordered)
    (follows : Follows db next) : next.schedule.Ordered := by
  have both : next.schedule.Sane ∧ next.schedule.Ordered := by
    have moves := follows.moves
    generalize next.schedule = final at moves
    induction moves with
    | refl => exact ⟨tracked.sane, order⟩
    | tail _ move ih =>
      refine ⟨ih.1.move move.1, ih.2.move ih.1 move.1 ?_⟩
      -- Nothing was created, so there is no new transaction to compare with.
      intro t u _ new unfinished
      have born := (ih.1.move move.1).born u unfinished
      rw [move.2] at born
      exact absurd born (Nat.not_lt.mpr new)
  exact both.2

/-! ## Aborting and finishing -/

theorem unwound_standing :
    ∃ scope, (db.unwound t).standing =
      update db.standing t { db.standing t with scope := scope, logged := [] } := by
  refine ⟨((db.unwound t).transaction t).scope, ?_⟩
  funext u
  by_cases same : u = t
  · subst same
    simp only [standing, unwound]
    split_ifs
    all_goals
      simp [abortAnUpgradeTransaction, discardMutationLogs, revertAllMutations, setTransaction,
        setConnection, Transaction.standing, Transaction.isFinished]
  · rw [update_of_ne same, standing, unwound_others same]
    rfl

theorem abort_standing (unfinished : (db.transaction t).isFinished = false) :
    ∃ scope, (db.abortATransaction t).standing = update db.standing t
      { db.standing t with finished := true, scope := scope, logged := [] } := by
  obtain ⟨scope, unwound⟩ := unwound_standing
  have fields : (db.unwound t).standing t =
      { db.standing t with scope := scope, logged := [] } := by
    rw [unwound, update_self]
  refine ⟨scope, ?_⟩
  rw [abort_eq db t unfinished]
  apply (standing_set_transaction _ t _).trans
  rw [unwound, update_idem]
  congr 1
  simp only [standing, Transaction.standing, Standing.mk.injEq] at fields
  simp only [Transaction.standing, fields, Standing.mk.injEq]
  exact ⟨rfl, rfl, rfl, trivial, trivial, rfl⟩

variable {scope : List StoreRef} {c : ConnectionRef} {mode : TransactionMode} {action : Action}
  (created : db.createTransaction c mode scope = some next)

theorem Logged.ends (tracked : db.Tracked) (order : db.schedule.Ordered) (logged : db.Logged)
    (log : next.mutationLog = fun store =>
      if store ∈ (db.standing t).logged then none else db.mutationLog store)
    (ended : next.standing = update db.standing t
      { db.standing t with finished := true, scope := scope, logged := [] }) : next.Logged := by
  rw [Logged, log, ended]
  apply LogsKept.discard logged
  · rfl
  · rfl
  · exact logged.upgrades t
  · intro u apart writes
    exact logged_exclusive tracked.sane order logged apart writes.1 writes.2.1

theorem Logged.abort (tracked : db.Tracked) (order : db.schedule.Ordered) (logged : db.Logged)
    (unfinished : (db.transaction t).isFinished = false) : (db.abortATransaction t).Logged := by
  obtain ⟨scope, ended⟩ := abort_standing unfinished
  apply logged.ends tracked order _ ended
  rw [abort_eq db t unfinished]
  simp only [unwound]
  split_ifs
  all_goals
    simp only [abortAnUpgradeTransaction, discardMutationLogs, revertAllMutations,
      setTransaction, setConnection, update_self, standing, standing]
    rfl

theorem same_standing_released (db : Database) (t : TransactionRef) (later : List Task) :
    SameStanding db (db.released t later) := by
  simp only [released]
  split_ifs
  all_goals exact ⟨rfl, rfl, rfl, fun _ => rfl⟩

theorem finish_commit_standing {later : List Task} :
    (db.finishedCommit t later).standing = update db.standing t
      { db.standing t with finished := true, logged := [] } := by
  have discarded := standing_set_transaction (db.released t later) t
    { db.transaction t with storeMutationLogs := [] }
  rw [(same_standing_released db t later).standing] at discarded
  have again : ((db.released t later).discardMutationLogs t).standing = update db.standing t
        { db.transaction t with storeMutationLogs := [] : Transaction }.standing := by
    rw [← discarded]
    simp only [discardMutationLogs, released_transaction]
    rfl
  rw [finishedCommit, standing_set_transaction, released_discarded, again, update_idem]
  rfl

/-! ## Starting to write -/

theorem set_up_standing :
    (db.setUpMutationLogs t).standing = update db.standing t
      { db.standing t with
        logged := (db.standing t).logged ++ (db.standing t).scope
        originalVersion := db.version } := by
  apply (update_field Transaction.standing db.transaction t _).trans
  simp only [Transaction.standing, map_append, map_map, comp_def, map_id']
  rfl

theorem prepared_reader (reads : (db.transaction t).mode = .readonly) : db.prepared t = db := by
  simp [prepared, isReadonly, reads]

theorem prepared_writer (writes : (db.transaction t).mode ≠ .readonly) :
    db.prepared t = db.setUpMutationLogs t := by
  simp [prepared, isReadonly, writes]

theorem Logged.reader_silent (logged : db.Logged) (reads : (db.standing t).mode = .readonly) :
    (db.standing t).logged = [] := by
  apply eq_nil_iff_forall_not_mem.mpr
  intro store listed
  exact (logged.keeper t store listed).1.2.2 reads

theorem Logged.unborn_silent (registry : db.schedule.Registry) (logged : db.Logged) :
    (db.standing db.transactionCount).logged = [] := by
  apply eq_nil_iff_forall_not_mem.mpr
  intro store listed
  have unfinished := (logged.keeper _ store listed).1.1
  exact Nat.lt_irrefl _ (registry.born db.transactionCount unfinished)

theorem Logged.start (logged : db.Logged) (order : next.schedule.Ordered) (t : TransactionRef)
    (now : Standing) (log : next.mutationLog = fun store =>
      if store ∈ now.scope then some t else db.mutationLog store)
    (standing : next.standing = update db.standing t now) (writes : now.writes)
    (stores : now.logged = (db.standing t).logged ++ now.scope)
    (old : ∀ store ∈ (db.standing t).logged, store ∈ now.scope) : next.Logged := by
  have here : next.standing t = now := by rw [standing, update_self]
  rw [Logged, log, standing]
  apply LogsKept.set_up logged writes
  · intro store
    rw [stores, mem_append]
  · exact fun store listed => .inl (old store listed)
  · intro u apart mayWrite store inside
    have there : next.standing u = db.standing u := by rw [standing, update_of_ne apart]
    rw [← here]
    rw [← there] at mayWrite inside
    rw [← here] at writes
    exact exclusive_stores order apart writes mayWrite.1 mayWrite.2.1 store inside

theorem unblock_reader_standing (waiting : (db.transaction u).requests.isEmpty = false)
    (reads : (db.transaction u).mode = .readonly) :
    (db.unblockTransaction u).standing =
      update db.standing u { db.standing u with blocked := false } := by
  rw [unblock_eq waiting, prepared_reader reads, standing_set_transaction]
  rfl

theorem unblock_writer_standing (waiting : (db.transaction u).requests.isEmpty = false)
    (writes : (db.transaction u).mode ≠ .readonly) :
    (db.unblockTransaction u).standing = update db.standing u
      { db.standing u with
        blocked := false
        logged := (db.standing u).logged ++ (db.standing u).scope
        originalVersion := db.version } := by
  rw [unblock_eq waiting, prepared_writer writes, standing_set_transaction,
    set_up_standing, update_idem]
  simp only [setUpMutationLogs, setTransaction, update_self, Transaction.standing,
    map_append, map_map, comp_def, map_id']
  rfl

theorem Logged.unblock (logged : db.Logged) (unfinished : (db.transaction u).isFinished = false)
    (plain : (db.transaction u).mode ≠ .versionchange)
    (order : (db.unblockTransaction u).schedule.Ordered) : (db.unblockTransaction u).Logged := by
  cases waiting : (db.transaction u).requests.isEmpty with
  | true =>
    simp only [unblockTransaction, if_pos waiting] at order ⊢
    exact (same_standing_commit unfinished).logged logged
  | false =>
    have unblocked := unblock_eq waiting
    by_cases reads : (db.transaction u).mode = .readonly
    · have log : (db.unblockTransaction u).mutationLog = db.mutationLog := by
        rw [unblocked, prepared_reader reads]
        rfl
      rw [Logged, log, unblock_reader_standing waiting reads]
      apply LogsKept.idle logged
      · exact logged.reader_silent reads
      · exact logged.reader_silent reads
      · exact fun writes => writes.2.2 reads
      · exact fun _ => rfl
    · apply logged.start order u _ _ (unblock_writer_standing waiting reads)
      · exact ⟨unfinished, rfl, reads⟩
      · rfl
      · intro store listed
        rcases (logged.keeper u store listed).2 with inside | isUpgrade
        · exact inside
        · exact absurd isUpgrade plain
      · rw [unblocked, prepared_writer reads]
        rfl

theorem logs_kept_by_waits :
    KeptByWaits fun db => db.schedule.Ordered ∧ db.Logged where
  callback := by
    intro db next c wait tracked holds fires ran
    have order := (tracked.run_callback fires ran).1.ordered tracked holds.1
    refine ⟨order, ?_⟩
    cases callback : wait.callback with
    | unblock u =>
      have ok := tracked.sane.waits c wait fires.member
      rw [Schedule.WaitOk, callback] at ok
      simp only [callback, runCallback] at ran
      split_ifs at ran
      cases ran
      exact holds.2.unblock (fires.fresh u callback) ok.2.2 order
    | connectionClosed | upgradeFinished =>
      simp only [callback] at ran
      cases ran
      exact holds.2
  drop := by
    intro db c rest tracked holds subset
    exact ⟨(tracked.drop_waits subset).ordered tracked holds.1, holds.2⟩

/-! ## Steps -/

include created in
theorem create_transaction_standing :
    mode ≠ .versionchange ∧ next.version = db.version ∧
    (∀ other, (next.connection other).version = (db.connection other).version) ∧
    ((mode = .readonly ∧ next.mutationLog = db.mutationLog ∧
      next.standing = update db.standing db.transactionCount
        ⟨false, false, mode, scope, [], 0⟩) ∨
    (mode ≠ .readonly ∧ (next.mutationLog = fun store =>
        if store ∈ scope then some db.transactionCount else db.mutationLog store) ∧
      next.standing = update db.standing db.transactionCount
        ⟨false, false, mode, scope, scope, db.version⟩) ∨
    (next.mutationLog = db.mutationLog ∧ next.standing = update db.standing db.transactionCount
        ⟨false, true, mode, scope, [], 0⟩)) := by
  obtain ⟨⟨_, _, _, _, _, plain⟩, made⟩ := Option.ite_none_right_eq_some.mp created
  have added : (db.addTransaction c mode .active scope).standing =
      update db.standing db.transactionCount ⟨false, false, mode, scope, [], 0⟩ :=
    standing_set_transaction db db.transactionCount _
  have versions : ∀ other, ((db.addTransaction c mode .active scope).connection other).version =
      (db.connection other).version :=
    (same_standing_set_connection c { db.connection c with
        transactions := (db.connection c).transactions ++ [db.transactionCount] } rfl).versions
  have here : ((db.addTransaction c mode .active scope).transaction
      db.transactionCount).mode = mode := by
    simp [addTransaction, setTransaction, setConnection]
  cases made
  by_cases free : (db.addTransaction c mode .active scope).blockingTransactions c
      db.transactionCount = []
  · rw [block_when_free free]
    by_cases reads : mode = .readonly
    · rw [prepared_reader (here.trans reads)]
      exact ⟨plain, rfl, versions, .inl ⟨reads, rfl, added⟩⟩
    · rw [prepared_writer (fun same => reads (here.symm.trans same))]
      refine ⟨plain, rfl, versions, .inr (.inl ⟨reads, ?_, ?_⟩)⟩
      · simp [setUpMutationLogs, addTransaction, setTransaction, setConnection]
      · rw [set_up_standing, added, update_idem, update_self]
        rfl
  · rw [block_when_busy free]
    have waits := same_standing_wait_for ((db.addTransaction c mode .active scope).setTransaction
      db.transactionCount
      { (db.addTransaction c mode .active scope).transaction db.transactionCount with
        blocked := true }) c
      ((db.addTransaction c mode .active scope).blockingTransactions c db.transactionCount)
      (.unblock db.transactionCount)
    refine ⟨plain, waits.version, fun other => (waits.versions other).trans (versions other),
      .inr (.inr ⟨waits.log, ?_⟩)⟩
    rw [waits.standing, standing_set_transaction, added, update_idem]
    simp only [addTransaction, setTransaction, setConnection, update_self]
    rfl

theorem Logged.create_transaction (tracked : db.Tracked) (logged : db.Logged)
    (order : next.schedule.Ordered) (created : db.createTransaction c mode scope = some next) :
    next.Logged := by
  have silent := logged.unborn_silent tracked.sane.toRegistry
  obtain ⟨plain, _, _, ⟨reads, log, standing⟩ | ⟨writes, log, standing⟩ | ⟨log, standing⟩⟩ :=
    create_transaction_standing created
  · rw [Logged, log, standing]
    apply LogsKept.idle logged silent rfl
    · exact fun writes => writes.2.2 reads
    · exact fun _ => rfl
  · apply logged.start order _ _ log standing ⟨rfl, rfl, writes⟩
    · rw [silent, nil_append]
    · rw [silent]
      exact forall_mem_nil _
  · rw [Logged, log, standing]
    apply LogsKept.idle logged silent rfl
    · exact fun writes => absurd writes.2.1 (by simp)
    · exact fun isUpgrade => absurd isUpgrade plain

theorem Logged.upgrade (tracked : db.Tracked) (logged : db.Logged)
    (order : next.schedule.Ordered) (upgraded : db.upgradeADatabase = some next) :
    next.Logged := by
  have silent := logged.unborn_silent tracked.sane.toRegistry
  obtain ⟨pending, _, _, rfl⟩ := upgrade_made upgraded
  apply logged.start order db.transactionCount
    ⟨false, false, .versionchange, (db.connection pending.connection).objectStoreSet,
      (db.connection pending.connection).objectStoreSet, db.version⟩
  · simp [upgradeStarted, upgrading, queueADatabaseTask, setUpMutationLogs, addTransaction,
      setTransaction, setConnection]
  · have added : (db.upgrading pending).standing = update db.standing db.transactionCount
          ⟨false, false, .versionchange, (db.connection pending.connection).objectStoreSet, [],
            0⟩ :=
      standing_set_transaction db db.transactionCount _
    apply set_up_standing.trans
    rw [added, update_idem, update_self]
    rfl
  · exact ⟨rfl, rfl, by simp⟩
  · rw [silent, nil_append]
  · rw [silent]
    exact forall_mem_nil _

theorem upgrade_alone_writes (sane : db.schedule.Sane) (live : db.upgradeTransaction = some t) :
    ∀ u, u ≠ t → ¬(db.standing u).writes := by
  intro u apart writes
  have concluded := (sane.live t live).2.2.2.2 u apart
  cases (writes.1.symm.trans concluded)

include active in
theorem Logged.upgrade_writes (tracked : db.Tracked) (logged : db.Logged)
    (live : db.upgradeTransaction = some t) :
    (db.standing t).mode = .versionchange ∧ (db.standing t).writes := by
  have isUpgrade : (db.standing t).mode = .versionchange := (tracked.sane.live t live).2.1
  refine ⟨isUpgrade, unfinished_of_active active, logged.upgrades t isUpgrade, ?_⟩
  rw [isUpgrade]
  decide

theorem Logged.create_object_store (tracked : db.Tracked) (logged : db.Logged)
    (created : db.createObjectStore c = some next) : next.Logged := by
  obtain ⟨upgrade, live, active, made⟩ := create_object_store_made created
  obtain ⟨isUpgrade, writes⟩ := logged.upgrade_writes active tracked live
  have standing : next.standing = update db.standing upgrade
      { db.standing upgrade with
        scope := (db.standing upgrade).scope ++ [db.storeCount]
        logged := (db.standing upgrade).logged ++ [db.storeCount] } := by
    rw [made]
    apply (update_field Transaction.standing db.transaction upgrade _).trans
    simp only [Transaction.standing, map_append, map_cons]
    rfl
  have log : next.mutationLog = update db.mutationLog db.storeCount (some upgrade) := by
    rw [made]
  rw [Logged, log, standing]
  refine LogsKept.upgrade logged writes isUpgrade (upgrade_alone_writes tracked.sane live) ?_ ?_ ?_
  · intro store u isAttached
    by_cases new : store = db.storeCount
    · rw [new, update_self] at isAttached
      left
      refine ⟨(Option.some.inj isAttached).symm, ?_⟩
      rw [new]
      exact mem_append_right _ (mem_singleton.mpr rfl)
    · rw [update_of_ne new] at isAttached
      exact .inr isAttached
  · exact fun store listed => mem_append_left _ listed
  · intro store inside
    by_cases new : store = db.storeCount
    · rw [new, update_self]
    · rw [update_of_ne new]
      refine logged.covered upgrade writes store ?_
      exact (mem_append.mp inside).resolve_right fun last => new (mem_singleton.mp last)

theorem note_schema_entry_stores {store : StoreRef} {entry : SchemaEntry}
    {logs : List (StoreRef × List SchemaEntry)} :
    (noteSchemaEntry store entry logs).map Prod.fst = logs.map Prod.fst := by
  rw [noteSchemaEntry, map_map]
  apply map_congr_left
  intro log _
  simp only [comp_apply]
  split_ifs <;> rfl

theorem Logged.delete_object_store (tracked : db.Tracked) (logged : db.Logged) {store : StoreRef}
    (deleted : db.deleteObjectStore c store = some next) : next.Logged := by
  obtain ⟨upgrade, owner, live, active, rfl⟩ := delete_object_store_made deleted
  obtain ⟨isUpgrade, writes⟩ := logged.upgrade_writes active tracked live
  -- Noting the deletion keeps every log where it is.
  have noted := same_standing_touch (db.unscoped c upgrade store) owner
    { (db.unscoped c upgrade store).transaction owner with
      storeMutationLogs := noteSchemaEntry store .objectStoreDeleted
        ((db.unscoped c upgrade store).transaction owner).storeMutationLogs }
    (by simp only [Transaction.standing, note_schema_entry_stores]; rfl)
  apply noted.logged
  rw [Logged, unscoped, standing_set_transaction]
  apply LogsKept.upgrade logged
  · exact writes
  · exact isUpgrade
  · exact upgrade_alone_writes tracked.sane live
  · exact fun _ _ isAttached => .inr isAttached
  · exact fun _ listed => listed
  · intro other inside
    exact logged.covered upgrade writes other (mem_of_mem_erase inside)

theorem same_standing_needed {later : List Task} (inactive : (db.transaction t).state = .inactive) :
    SameStanding db (db.needed t later) := by
  have same := same_standing_touch { db with tasks := later } t
    { db.transaction t with state := .active } (by
      simp only [Transaction.standing, Transaction.isFinished, inactive]
      rfl)
  exact { same with }

theorem Logged.run_task (tracked : db.Tracked) (order : db.schedule.Ordered)
    (logged : db.Logged) (orderly : db.Orderly .runTask) (ran : db.runTask = some next) :
    next.Logged := by
  refine (tracked.run_task_keeps logs_kept_by_waits orderly ran ?_ ?_ ?_ ?_ ?_).2.2
  · refine fun t later follows => ⟨follows.ordered tracked order, ?_⟩
    apply logged.ends tracked order _ finish_commit_standing
    simp only [finishedCommit, discardMutationLogs, setTransaction,
      (same_standing_released db t later).log, released_transaction]
    rfl
  · exact fun t later follows =>
      ⟨follows.ordered tracked order, (same_standing_released db t later).logged logged⟩
  · exact fun t later inactive follows =>
      ⟨follows.ordered tracked order, (same_standing_needed inactive).logged logged⟩
  · exact fun _ _ follows => ⟨follows.ordered tracked order, logged⟩
  · exact fun _ follows => ⟨follows.ordered tracked order, logged⟩

def Action.routine : Action → Bool
  | .close _ => true
  | .placeRequest _ => true
  | .completeRequest _ _ => true
  | .endEvent _ => true
  | .endUpgradeEvent _ => true
  | .cleanUp _ => true
  | .beginClone _ => true
  | .endClone _ => true
  | .commit _ => true
  | _ => false

theorem maybe_process_standing {tx : Transaction} :
    (maybeProcessNextRequest tx).standing = tx.standing := by
  simp only [maybeProcessNextRequest]
  split_ifs <;> rfl

theorem routine_standing (routine : action.routine = true) (orderly : db.Orderly action)
    (steps : db.step action = some next) : SameStanding db next := by
  cases action with
  | close c =>
    obtain ⟨-, ⟨⟩⟩ := Option.ite_none_right_eq_some.mp steps
    apply trans _ (same_standing_wait_for _ _ _ _)
    exact same_standing_set_connection c _ rfl
  | placeRequest =>
    obtain ⟨-, ⟨⟩⟩ := Option.ite_none_right_eq_some.mp steps
    apply same_standing_touch
    rw [maybe_process_standing]
    rfl
  | completeRequest =>
    obtain ⟨-, ⟨⟩⟩ := Option.ite_none_right_eq_some.mp steps
    apply same_standing_touch
    simp only [Transaction.standing, Transaction.isFinished]
    split_ifs with inactive
    · rw [inactive]
      rfl
    · rfl
  | endEvent t =>
    cases steps
    simp only [endEvent]
    split_ifs with active empty
    · exact (same_standing_leave_and_commit active).trans (same_standing_check t)
    · exact (same_standing_leave active).trans (same_standing_check t)
    · exact same_standing_check t
  | endUpgradeEvent t =>
    obtain ⟨-, ⟨⟩⟩ := Option.ite_none_right_eq_some.mp steps
    apply trans _ (same_standing_wait_for _ _ _ _)
    split_ifs with active empty
    · exact same_standing_leave_and_commit active
    · exact same_standing_leave active
    · exact refl db
  | cleanUp t =>
    simp only [step, cleanUp] at steps
    split_ifs at steps with active idle
    · cases steps
      exact same_standing_leave_and_commit active
    · cases steps
      exact same_standing_leave active
  | beginClone t =>
    obtain ⟨active, ⟨⟩⟩ := Option.ite_none_right_eq_some.mp steps
    exact { same_standing_leave active with }
  | endClone t =>
    obtain ⟨-, ⟨⟩⟩ := Option.ite_none_right_eq_some.mp steps
    have activated : SameStanding db
        (db.setTransaction t { db.transaction t with state := .active }) := by
      apply same_standing_touch
      have inactive : (db.transaction t).state = .inactive := orderly
      simp only [Transaction.standing, Transaction.isFinished, inactive]
      rfl
    exact { activated with }
  | commit t =>
    obtain ⟨active, ⟨⟩⟩ := Option.ite_none_right_eq_some.mp steps
    exact same_standing_commit (unfinished_of_active active)
  | _ => exact absurd routine (by simp [Action.routine])

theorem abort_action_eq (steps : db.step (.abort t) = some next) :
    (db.transaction t).isFinished = false ∧ next = db.abortATransaction t := by
  obtain ⟨⟨active | inactive, -⟩, ⟨⟩⟩ := Option.ite_none_right_eq_some.mp steps
  · exact ⟨unfinished_of_active active, rfl⟩
  · rw [isFinished, inactive]
    exact ⟨rfl, rfl⟩

theorem execute_request_cases {id : Nat} {failed : Bool}
    (executed : db.executeRequest t id failed = some next) :
    (failed = true ∧ (db.transaction t).state = .committing ∧
      next = db.abortATransaction t) ∨ SameStanding db next := by
  simp only [executeRequest] at executed
  split_ifs at executed with found fails
  · rw [Bool.and_eq_true, decide_eq_true_eq] at fails
    exact .inl ⟨fails.1, fails.2, (Option.some.inj executed).symm⟩
  · right
    cases executed
    apply same_standing_touch
    rw [maybe_process_standing]
    rfl

theorem Logged.step (tracked : db.Tracked) (before : db.schedule.Ordered)
    (after : next.schedule.Ordered) (logged : db.Logged) (orderly : db.Orderly action)
    (steps : db.step action = some next) : next.Logged := by
  cases routine : action.routine with
  | true => exact (routine_standing routine orderly steps).logged logged
  | false =>
    cases action with
    | openConnection =>
      obtain ⟨_, made⟩ := Option.ite_none_right_eq_some.mp steps
      split_ifs at made
      all_goals
        cases made
        exact logged
    | upgrade => exact logged.upgrade tracked after steps
    | createObjectStore c => exact logged.create_object_store tracked steps
    | deleteObjectStore c store => exact logged.delete_object_store tracked steps
    | transaction c mode scope =>
      exact logged.create_transaction tracked after steps
    | executeRequest t =>
      rcases execute_request_cases steps with ⟨_, committing, made⟩ | same
      · rw [made]
        exact logged.abort tracked before (by rw [isFinished, committing]; rfl)
      · exact same.logged logged
    | abort t =>
      obtain ⟨unfinished, made⟩ := abort_action_eq steps
      rw [made]
      exact logged.abort tracked before unfinished
    | runTask => exact logged.run_task tracked before orderly steps
    | _ => exact absurd routine (by simp [Action.routine])

/-! ## Isolation -/

/-- A transaction is created only where no unfinished transaction of another
connection conflicts with it. -/
def Separate (db : Database) : Action → Prop
  | .transaction c mode scope => ∀ t, (db.transaction t).isFinished = false →
      (db.transaction t).connection ≠ c →
        ¬((db.transaction t).mode = .readonly ∧ mode = .readonly) →
          ∀ store ∈ scope, store ∉ (db.transaction t).scope
  | _ => True

structure Isolated (db : Database) : Prop where
  tracked : db.Tracked
  ordered : db.schedule.Ordered
  logged : db.Logged

include created in
theorem create_separate (tracked : db.Tracked) (after : next.schedule.Sane)
    (separate : db.Separate (.transaction c mode scope)) :
    Schedule.NoForeignConflict db.schedule next.schedule := by
  obtain ⟨count, owner, modes, scopes⟩ :=
    create_transaction_fields created tracked.sane.toRegistry
  intro t u unfinished new running foreign conflicting
  have born : u < db.transactionCount + 1 := by
    rw [← count]
    exact after.born u running
  obtain rfl : u = db.transactionCount := Nat.le_antisymm (Nat.le_of_lt_succ born) new
  have old : t ≠ db.transactionCount := Nat.ne_of_lt (tracked.sane.born t unfinished)
  obtain ⟨bothRead, store, inOld, inNew⟩ := conflicting
  rw [owner, update_self, update_of_ne old] at foreign
  rw [modes, update_self, update_of_ne old] at bothRead
  rw [scopes, update_of_ne old] at inOld
  rw [scopes, update_self] at inNew
  exact separate t unfinished foreign bothRead store inNew inOld

theorem Isolated.step (isolated : db.Isolated) (orderly : db.Orderly action)
    (separate : db.Separate action) (steps : db.step action = some next) : next.Isolated := by
  have tracked := isolated.tracked.step action orderly steps
  have order : next.schedule.Ordered := by
    cases creates : action.creates with
    | false =>
      exact (isolated.tracked.step_follows creates orderly steps).ordered
        isolated.tracked isolated.ordered
    | true =>
      cases action with
      | upgrade =>
        obtain ⟨_, move, concluded⟩ := isolated.tracked.upgrade orderly steps
        apply isolated.ordered.move isolated.tracked.sane move
        intro t _ unfinished
        cases (unfinished.symm.trans (concluded t))
      | transaction c mode scope =>
        have move := (isolated.tracked.create_transaction c mode scope steps).2
        apply isolated.ordered.move isolated.tracked.sane move
        exact create_separate steps isolated.tracked tracked.sane separate
      | _ => exact absurd creates (by simp [Action.creates])
  exact ⟨tracked, order, isolated.logged.step isolated.tracked isolated.ordered order orderly steps⟩

theorem initial_isolated : initial.Isolated := by
  refine ⟨initial_tracked, ?_, ?_, ?_, ?_, ?_⟩
  · intro t u _ unfinished
    exact absurd unfinished (by simp [initial, schedule, Transaction.isFinished])
  all_goals simp [initial, standing, Transaction.standing]

/-- The runs that keep transactions apart: no task unblocks a finished transaction, no
upgrade starts on a closing connection, and no transaction is created beside a
conflicting one of another connection. -/
def KeptApart (db : Database) (action : Action) : Prop :=
  db.Orderly action ∧ db.Separate action

theorem run_isolated (run : Execution step KeptApart initial db) : db.Isolated := by
  apply Execution.invariant Isolated initial_isolated _ run
  intro state action next isolated allowed steps
  exact isolated.step allowed.1 allowed.2 steps

/-- Two distinct unfinished transactions that are not blocked do not conflict; the log
attached to a store belongs to a transaction that may write, it is the only one that
may run on the store, and every transaction that may write has its stores' logs. -/
theorem transactions_isolated {db : Database} (run : Execution step KeptApart initial db) :
    (∀ t u, t ≠ u → (db.transaction t).isFinished = false →
      (db.transaction u).isFinished = false → (db.transaction t).blocked = false →
        (db.transaction u).blocked = false →
          (db.transaction t).conflictsWith (db.transaction u) = false) ∧
    (∀ store owner, db.mutationLog store = some owner →
      ((db.transaction owner).isFinished = false ∧ (db.transaction owner).blocked = false ∧
        (db.transaction owner).mode ≠ .readonly) ∧
      ∀ t, (db.transaction t).isFinished = false → (db.transaction t).blocked = false →
        store ∈ (db.transaction t).scope → t = owner) ∧
    ∀ t, (db.transaction t).isFinished = false → (db.transaction t).blocked = false →
      (db.transaction t).mode ≠ .readonly → ∀ store ∈ (db.transaction t).scope,
        db.mutationLog store = some t := by
  have isolated := run_isolated run
  refine ⟨?_, ?_, ?_⟩
  · intro t u apart unfinishedT unfinishedU freeT freeU
    rw [Bool.eq_false_iff]
    intro conflicting
    exact isolated.ordered.exclusive apart.symm unfinishedU unfinishedT freeU freeT
      (conflicts_with_iff.mp conflicting)
  · intro store owner isAttached
    have listed := isolated.logged.attached store owner isAttached
    refine ⟨(isolated.logged.keeper owner store listed).1, ?_⟩
    intro t unfinished free inside
    by_contra apart
    exact logged_exclusive isolated.tracked.sane isolated.ordered isolated.logged apart
      unfinished free store inside listed
  · intro t unfinished free writes store inside
    exact isolated.logged.covered t ⟨unfinished, free, writes⟩ store inside

/-! ## Runs with one store -/

def createStore : List Action :=
  [.openConnection 1, .upgrade, .runTask, .createObjectStore 0, .endUpgradeEvent 0, .runTask]

def creating (taken : Nat) : Database :=
  ((createStore.take taken).foldlM step initial).getD initial

theorem store_created (allowed : Database → Action → Prop)
    (permitted : ∀ db, ∀ action ∈ createStore, db.Orderly action → allowed db action) :
    Execution step allowed initial (creating 6) := by
  have upgradeOrderly : (creating 1).Orderly .upgrade := by
    intro pending isPending
    obtain rfl : { connection := 0, version := 1, openConnections := [] } = pending :=
      Option.some.inj isPending
    rfl
  have neededOrderly : (creating 2).Orderly .runTask := by
    intro task later t head ends
    obtain rfl : .upgradeNeeded 0 = task := (List.cons.inj head).1
    exact absurd ends (by simp [Task.ends])
  have finishOrderly : (creating 5).Orderly .runTask := by
    intro task later t head ends
    obtain rfl : .finishCommit 0 = task := (List.cons.inj head).1
    obtain rfl : 0 = t := of_decide_eq_true ends
    intro wait mem _ u callback
    obtain rfl : wait = { transactions := [0], callback := .upgradeFinished } :=
      mem_singleton.mp mem
    cases callback
  have next (taken : Nat) (action : Action) (listed : createStore[taken]? = some action)
      (reached : Execution step allowed initial (creating taken))
      (orderly : (creating taken).Orderly action)
      (stepped : step (creating taken) action = some (creating (taken + 1))) :
      Execution step allowed initial (creating (taken + 1)) :=
    reached.tail action (permitted _ action (mem_of_getElem? listed) orderly) stepped
  have opened := next 0 (.openConnection 1) rfl .refl trivial rfl
  have upgraded := next 1 .upgrade rfl opened upgradeOrderly rfl
  have needed := next 2 .runTask rfl upgraded neededOrderly rfl
  have created := next 3 (.createObjectStore 0) rfl needed trivial rfl
  have ended := next 4 (.endUpgradeEvent 0) rfl created trivial rfl
  exact next 5 .runTask rfl ended finishOrderly rfl

theorem kept_apart_of_single (run : Execution step KeptApart initial db)
    (single : db.connectionCount = 1) :
    KeptApart db (.transaction 0 mode scope) := by
  refine ⟨trivial, fun t unfinished foreign => ?_⟩
  have sane := (run_isolated run).tracked.sane
  have owned : (db.transaction t).connection < db.connectionCount :=
    sane.ownerBorn t (sane.born t unfinished)
  rw [single] at owned
  exact absurd (Nat.lt_one_iff.mp owned) foreign

theorem reader_waits_isolated :
    ∃ db, Execution step KeptApart initial db ∧ (db.transaction 1).isFinished = false ∧
      (db.transaction 2).blocked = true ∧ db.mutationLog 0 = some 1 ∧
        ∀ t, (db.transaction t).isFinished = false → (db.transaction t).blocked = false →
          0 ∈ (db.transaction t).scope → t = 1 := by
  have reached := store_created KeptApart fun _ action member orderly => by
    refine ⟨orderly, ?_⟩
    simp only [createStore, mem_cons, not_mem_nil, or_false] at member
    rcases member with rfl | rfl | rfl | rfl | rfl | rfl <;> trivial
  have writing := Execution.tail (.transaction 0 .readwrite [0]) reached
    (kept_apart_of_single reached rfl) rfl
  have reading := Execution.tail (.transaction 0 .readonly [0]) writing
    (kept_apart_of_single writing rfl) rfl
  exact ⟨_, reading, rfl, rfl, rfl, ((transactions_isolated reading).2.1 0 1 rfl).2⟩

def WritersOverlap (db : Database) (t u : TransactionRef) : Prop :=
  (db.transaction t).isFinished = false ∧ (db.transaction u).isFinished = false ∧
    (db.transaction t).blocked = false ∧ (db.transaction u).blocked = false ∧
      (db.transaction t).conflictsWith (db.transaction u) = true ∧
        (db.transaction t).mode = .readwrite ∧ (db.transaction t).scope = [0]

/-- Two connections each get a read-write transaction on store 0 that may run at
once, and the second takes over the log of the first. One connection is enough
when a getter aborts the transaction its value is cloned for and opens another:
the end of the clone brings the first one back. -/
theorem two_writers_run :
    (∃ db, Execution step Unrestricted initial db ∧ db.WritersOverlap 1 2 ∧
      db.mutationLog 0 = some 2) ∧
    ∃ db, Execution step Unrestricted initial db ∧ db.connectionCount = 1 ∧
      db.WritersOverlap 1 2 := by
  have reached := store_created Unrestricted fun _ _ _ _ => trivial
  refine ⟨?_, ?_⟩
  · have opened := Execution.tail (.openConnection 1) reached trivial rfl
    have first := Execution.tail (.transaction 0 .readwrite [0]) opened trivial rfl
    have second := Execution.tail (.transaction 1 .readwrite [0]) first trivial rfl
    exact ⟨_, second, ⟨rfl, rfl, rfl, rfl, rfl, rfl, rfl⟩, rfl⟩
  · have first := Execution.tail (.transaction 0 .readwrite [0]) reached trivial rfl
    have cloning := Execution.tail (.beginClone 1) first trivial rfl
    have aborted := Execution.tail (.abort 1) cloning trivial rfl
    have second := Execution.tail (.transaction 0 .readwrite [0]) aborted trivial rfl
    have ended := Execution.tail (.endClone 1) second trivial rfl
    exact ⟨_, ended, rfl, rfl, rfl, rfl, rfl, rfl, rfl, rfl⟩

end Database
end Ladybone.IndexedDB
