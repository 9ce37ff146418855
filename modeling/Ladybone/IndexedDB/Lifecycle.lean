import Ladybone.IndexedDB.Schedule
import Mathlib.Logic.Relation

/-!
# Steps of the database are moves of its schedule

Every step of the database is a sequence of moves of its schedule, as long as no
wait fires for a transaction that is already finished and no upgrade starts on a
connection that was closed while it waited. `Phase` follows an upgrade transaction
from its `upgradeneeded` task to its last one.
-/

namespace Ladybone.IndexedDB

open Function List Bool Schedule

namespace Database

def schedule (db : Database) : Schedule where
  transactionCount := db.transactionCount
  connectionCount := db.connectionCount
  owner := fun t => (db.transaction t).connection
  mode := fun t => (db.transaction t).mode
  finished := fun t => (db.transaction t).isFinished
  scope := fun t => (db.transaction t).scope
  blocked := fun t => (db.transaction t).blocked
  transactions := fun c => (db.connection c).transactions
  waits := fun c => (db.connection c).pendingTransactionWaits
  closePending := fun c => (db.connection c).closePending
  closed := fun c => (db.connection c).closed
  associated := db.associatedConnections
  pending := db.pendingUpgrade.map fun pending => (pending.connection, pending.openConnections)
  upgrade := db.upgradeTransaction
  tasks := db.tasks

/-! ## Schedules of updated databases -/

theorem update_field {Ref Item Field : Type} [DecidableEq Ref] (field : Item → Field)
    (items : Ref → Item) (here : Ref) (item : Item) :
    (fun ref => field (update items here item ref)) =
      update (fun ref => field (items ref)) here (field item) :=
  comp_update field items here item

structure SameRole (before after : Transaction) : Prop where
  connection : after.connection = before.connection
  mode : after.mode = before.mode
  finished : after.isFinished = before.isFinished
  scope : after.scope = before.scope
  blocked : after.blocked = before.blocked

section
variable (db : Database)

include db

theorem schedule_touch (t : TransactionRef) (tx : Transaction)
    (role : SameRole (db.transaction t) tx) :
    (db.setTransaction t tx).schedule = db.schedule := by
  simp [schedule, setTransaction, update_field, role.connection, role.mode, role.finished,
    role.scope, role.blocked]

theorem schedule_set_up (t : TransactionRef) : (db.setUpMutationLogs t).schedule = db.schedule :=
  schedule_touch db t _ ⟨rfl, rfl, rfl, rfl, rfl⟩

theorem schedule_discard {t : TransactionRef} : (db.discardMutationLogs t).schedule = db.schedule :=
  schedule_touch db t _ ⟨rfl, rfl, rfl, rfl, rfl⟩

structure SameDuties (before after : Connection) : Prop where
  transactions : after.transactions = before.transactions
  waits : after.pendingTransactionWaits = before.pendingTransactionWaits
  closePending : after.closePending = before.closePending
  closed : after.closed = before.closed

theorem schedule_touch_connection {c : ConnectionRef} (conn : Connection)
    (duties : SameDuties (db.connection c) conn) :
    (db.setConnection c conn).schedule = db.schedule := by
  simp [schedule, setConnection, update_field, duties.transactions, duties.waits,
    duties.closePending, duties.closed]

theorem schedule_revert {t : TransactionRef} : (db.revertAllMutations t).schedule = db.schedule :=
  schedule_touch_connection db _ ⟨rfl, rfl, rfl, rfl⟩

theorem schedule_wait_for {c : ConnectionRef} {refs : List TransactionRef} {cb : Callback} :
    (db.waitForTransactionsToFinish c refs cb).schedule = db.schedule.waitFor c refs cb := by
  unfold waitForTransactionsToFinish waitFor
  have sameTest : db.schedule.allFinished refs = db.allFinished refs := rfl
  rw [sameTest]
  split_ifs
  · rfl
  · simp [schedule, setConnection, addWait, update_field]

end

/-! ## The life of an upgrade transaction -/

end Database

def Task.about : Task → TransactionRef → Bool
  | .finishCommit other, ref => decide (other = ref)
  | .abortDone other, ref => decide (other = ref)
  | .upgradeNeeded other, ref => decide (other = ref)
  | .callback _ _, _ => false

/-- Where an upgrade transaction is in its life, with the queued tasks about it. -/
inductive Phase (t : TransactionRef) (transaction : Transaction) : List Task → Prop where
  | awaiting (state : transaction.state = .inactive) (requests : transaction.requests = [])
      (noCommit : transaction.onAllProcessed = false) :
      Phase t transaction [.upgradeNeeded t]
  | running (state : transaction.state = .active ∨ transaction.state = .inactive)
      (noCommit : transaction.onAllProcessed = false) : Phase t transaction []
  | committing (state : transaction.state = .committing)
      (commit : transaction.onAllProcessed = true) : Phase t transaction []
  | committed (state : transaction.state = .committing)
      (noCommit : transaction.onAllProcessed = false)
      (processed : transaction.allProcessed = true) :
      Phase t transaction [.finishCommit t]
  | aborted (state : transaction.state = .finished)
      (noCommit : transaction.onAllProcessed = false) : Phase t transaction [.abortDone t]
  | concluded (state : transaction.state = .finished)
      (noCommit : transaction.onAllProcessed = false) : Phase t transaction []

theorem Phase.of_commit {t : TransactionRef} {tx : Transaction}
    {tasks : List Task} (phase : Phase t tx tasks) (commit : tx.onAllProcessed = true) :
    tasks = [] ∧ tx.state = .committing := by
  cases phase with
  | committing state => exact ⟨rfl, state⟩
  | awaiting _ _ noCommit | running _ noCommit | committed _ noCommit | aborted _ noCommit =>
    cases (commit.symm.trans noCommit)
  | concluded _ noCommit => cases (commit.symm.trans noCommit)

theorem Phase.of_active {t : TransactionRef} {tx : Transaction}
    {tasks : List Task} (phase : Phase t tx tasks) (active : tx.state = .active) :
    tasks = [] ∧ tx.onAllProcessed = false := by
  cases phase with
  | running _ noCommit => exact ⟨rfl, noCommit⟩
  | awaiting state | committing state | committed state =>
    cases (active.symm.trans state)
  | aborted state | concluded state => cases (active.symm.trans state)

namespace Database

def tasksAbout (db : Database) (t : TransactionRef) : List Task :=
  db.tasks.filter fun task => task.about t

def QuietMove (s next : Schedule) : Prop :=
  s.Move next ∧ next.transactionCount = s.transactionCount

abbrev QuietMoves : Schedule → Schedule → Prop := Relation.ReflTransGen QuietMove

structure Tracked (db : Database) : Prop where
  sane : db.schedule.Sane
  aborts : db.schedule.AbortsFinished
  phases : ∀ t < db.transactionCount, (db.transaction t).mode = .versionchange →
    Phase t (db.transaction t) (db.tasksAbout t)

/-- The later database is reached by moves and is still tracked. -/
structure Follows (db next : Database) : Prop where
  tracked : next.Tracked
  moves : QuietMoves db.schedule next.schedule

variable {db next : Database} {s : Schedule} {t u : TransactionRef} {c : ConnectionRef}
  {keeps : Database → Prop} {wait : PendingTransactionWait}

theorem Follows.refl (tracked : db.Tracked) : Follows db db :=
  ⟨tracked, Relation.ReflTransGen.refl⟩

theorem Follows.trans {middle : Database} (first : Follows db middle)
    (second : Follows middle next) : Follows db next :=
  ⟨second.tracked, first.moves.trans second.moves⟩

theorem quiet_moves_keep {next : Schedule} (sane : s.Sane) (aborts : s.AbortsFinished)
    (moves : QuietMoves s next) : next.Sane ∧ next.AbortsFinished := by
  induction moves with
  | refl => exact ⟨sane, aborts⟩
  | tail _ move ih => exact ⟨ih.1.move move.1, ih.2.move ih.1 move.1⟩

structure OnlyAbout (t : TransactionRef) (db next : Database) : Prop where
  others : ∀ u, u ≠ t → next.transaction u = db.transaction u
  tasks : ∀ u, u ≠ t → next.tasksAbout u = db.tasksAbout u
  count : next.transactionCount = db.transactionCount

theorem Tracked.follows (tracked : db.Tracked) (only : OnlyAbout t db next)
    (moves : QuietMoves db.schedule next.schedule)
    (phase : t < db.transactionCount → (next.transaction t).mode = .versionchange →
      Phase t (next.transaction t) (next.tasksAbout t)) : Follows db next := by
  have kept := quiet_moves_keep tracked.sane tracked.aborts moves
  refine ⟨⟨kept.1, kept.2, ?_⟩, moves⟩
  intro u born isUpgrade
  rw [only.count] at born
  by_cases same : u = t
  · rw [same] at born isUpgrade ⊢
    exact phase born isUpgrade
  · rw [only.others u same] at isUpgrade ⊢
    rw [only.tasks u same]
    exact tracked.phases u born isUpgrade

theorem Tracked.follows_untouched (tracked : db.Tracked)
    (transactions : next.transaction = db.transaction)
    (tasks : ∀ t, next.tasksAbout t = db.tasksAbout t)
    (count : next.transactionCount = db.transactionCount)
    (moves : QuietMoves db.schedule next.schedule) : Follows db next := by
  have kept := quiet_moves_keep tracked.sane tracked.aborts moves
  refine ⟨⟨kept.1, kept.2, ?_⟩, moves⟩
  intro t born isUpgrade
  rw [count] at born
  rw [transactions] at isUpgrade ⊢
  rw [tasks t]
  exact tracked.phases t born isUpgrade

theorem no_end_of_about (none : db.tasksAbout t = []) : ∀ task ∈ db.tasks, task.ends t = false := by
  intro task mem
  have notAbout := filter_eq_nil_iff.mp none task mem
  cases task with
  | finishCommit | abortDone => exact eq_false_iff.mpr notAbout
  | upgradeNeeded => rfl
  | callback => rfl

@[simp] theorem tasks_about_set_transaction {tx : Transaction} :
    (db.setTransaction u tx).tasksAbout t = db.tasksAbout t := rfl

theorem tasks_about_queue (db : Database) (task : Task) (t : TransactionRef) :
    (db.queueADatabaseTask task).tasksAbout t =
      db.tasksAbout t ++ (if task.about t then [task] else []) := by
  simp only [tasksAbout, queueADatabaseTask]
  rw [filter_append, filter_singleton, cond_eq_ite]

/-! ## Touching, committing and aborting -/

theorem Tracked.touch (tracked : db.Tracked) (t : TransactionRef) (tx : Transaction)
    (role : SameRole (db.transaction t) tx) (phase : (db.transaction t).mode = .versionchange →
      Phase t (db.transaction t) (db.tasksAbout t) → Phase t tx (db.tasksAbout t)) :
    Follows db (db.setTransaction t tx) := by
  apply tracked.follows (t := t)
  · exact ⟨fun u apart => update_of_ne apart _ _, fun _ _ => rfl, rfl⟩
  · rw [schedule_touch db t tx role]
  · intro born isUpgrade
    have now : (db.setTransaction t tx).transaction t = tx :=
      update_self _ _ _
    rw [now] at isUpgrade ⊢
    rw [role.mode] at isUpgrade
    exact phase isUpgrade (tracked.phases t born isUpgrade)

theorem schedule_check_all_processed (db : Database) (t : TransactionRef) :
    (db.checkAllProcessed t).schedule = db.schedule ∨
      (db.checkAllProcessed t).schedule = db.schedule.queue (.finishCommit t) := by
  have cleared := schedule_touch db t { db.transaction t with onAllProcessed := false }
    ⟨rfl, rfl, rfl, rfl, rfl⟩
  simp only [checkAllProcessed]
  split_ifs
  · right
    exact congrArg (fun s => queue s (.finishCommit t)) cleared
  · exact .inl cleared
  · exact .inl rfl

theorem Tracked.check_all_processed (tracked : db.Tracked) :
    Follows db (db.checkAllProcessed t) := by
  have role : SameRole (db.transaction t)
      { db.transaction t with onAllProcessed := false } := ⟨rfl, rfl, rfl, rfl, rfl⟩
  simp only [checkAllProcessed]
  split_ifs with ready committing
  · rw [and_eq_true] at ready
    have unfinished : (db.transaction t).isFinished = false := by
      rw [Transaction.isFinished, committing]
      rfl
    have born := tracked.sane.born t unfinished
    have silent : (db.transaction t).mode = .versionchange → db.tasksAbout t = [] :=
      fun isUpgrade => ((tracked.phases t born isUpgrade).of_commit ready.1).1
    apply tracked.follows (t := t)
    · constructor
      · exact fun u apart => update_of_ne apart _ _
      · intro u apart
        rw [tasks_about_queue, if_neg (by simpa [Task.about] using apart.symm),
          append_nil, tasks_about_set_transaction]
      · rfl
    · apply Relation.ReflTransGen.single
      have moved : ((db.setTransaction t _).queueADatabaseTask (.finishCommit t)).schedule =
          db.schedule.queue (.finishCommit t) :=
        congrArg (fun s => queue s (.finishCommit t)) (schedule_touch db t _ role)
      rw [moved]
      exact ⟨.queueCommit _ t unfinished fun isUpgrade => no_end_of_about (silent isUpgrade), rfl⟩
    · intro _ isUpgrade
      have now : ((db.setTransaction t { db.transaction t with
          onAllProcessed := false }).queueADatabaseTask (.finishCommit t)).transaction t =
            { db.transaction t with onAllProcessed := false } := update_self _ _ _
      rw [now] at isUpgrade ⊢
      rw [tasks_about_queue, tasks_about_set_transaction, silent isUpgrade,
        if_pos (by simp [Task.about])]
      exact Phase.committed committing rfl ready.2
  · rw [and_eq_true] at ready
    apply tracked.touch t _ role
    exact fun _ phase => absurd (phase.of_commit ready.1).2 committing
  · exact Follows.refl tracked

theorem Tracked.commit (tracked : db.Tracked) (t : TransactionRef)
    (unfinished : (db.transaction t).isFinished = false)
    (silent : (db.transaction t).mode = .versionchange → db.tasksAbout t = []) :
    Follows db (db.commitATransaction t) := by
  have committing : Follows db (db.setTransaction t
      { db.transaction t with state := .committing, onAllProcessed := true }) := by
    apply tracked.touch t
    · exact ⟨rfl, rfl, unfinished.symm, rfl, rfl⟩
    · intro isUpgrade _
      rw [silent isUpgrade]
      exact Phase.committing rfl rfl
  exact committing.trans committing.tracked.check_all_processed

theorem schedule_commit (unfinished : (db.transaction t).isFinished = false) :
    (db.commitATransaction t).schedule = db.schedule ∨
      (db.commitATransaction t).schedule = db.schedule.queue (.finishCommit t) := by
  have touched := schedule_touch db t
    { db.transaction t with state := .committing, onAllProcessed := true }
    ⟨rfl, rfl, unfinished.symm, rfl, rfl⟩
  have checked := schedule_check_all_processed (db.setTransaction t
    { db.transaction t with state := .committing, onAllProcessed := true }) t
  rwa [touched] at checked

theorem Tracked.deactivate (tracked : db.Tracked) (t : TransactionRef)
    (active : (db.transaction t).state = .active) :
    Follows db (db.setTransaction t { db.transaction t with state := .inactive }) := by
  apply tracked.touch t
  · refine ⟨rfl, rfl, ?_, rfl, rfl⟩
    rw [Transaction.isFinished, Transaction.isFinished, active]
    rfl
  · intro _ phase
    have running := phase.of_active active
    rw [running.1]
    exact Phase.running (.inr rfl) running.2

section
variable (db : Database) (t : TransactionRef)

theorem schedule_finish (tx : Transaction) (conn : tx.connection = (db.transaction t).connection)
    (mode : tx.mode = (db.transaction t).mode) (blocked : tx.blocked = (db.transaction t).blocked)
    (finished : tx.isFinished = true) :
    (db.setTransaction t tx).schedule = db.schedule.finish t tx.scope := by
  simp [schedule, setTransaction, update_field, conn, mode, blocked, finished, finish]

theorem schedule_rescope (tx : Transaction) (conn : tx.connection = (db.transaction t).connection)
    (mode : tx.mode = (db.transaction t).mode)
    (finished : tx.isFinished = (db.transaction t).isFinished)
    (blocked : tx.blocked = (db.transaction t).blocked) :
    (db.setTransaction t tx).schedule =
      { db.schedule with scope := update db.schedule.scope t tx.scope } := by
  simp [schedule, setTransaction, update_field, conn, mode, blocked, finished]

theorem schedule_abort_an_upgrade :
    (db.abortAnUpgradeTransaction t).schedule = { db.schedule with
        scope := update db.schedule.scope t
          (db.connection (db.transaction t).connection).objectStoreSet } := by
  have touched := schedule_touch_connection db
    { db.connection (db.transaction t).connection with version := db.version }
    ⟨rfl, rfl, rfl, rfl⟩
  have rescoped := schedule_rescope (db.setConnection (db.transaction t).connection
    { db.connection (db.transaction t).connection with version := db.version }) t
    { db.transaction t with
      scope := (db.connection (db.transaction t).connection).objectStoreSet } rfl rfl rfl rfl
  rwa [touched] at rescoped

def unwound : Database :=
  let marked := db.setTransaction t { db.transaction t with aborted := true }
  let discarded := (marked.revertAllMutations t).discardMutationLogs t
  if (db.transaction t).isUpgradeTransaction then discarded.abortAnUpgradeTransaction t
  else discarded

theorem abort_eq (unfinished : (db.transaction t).isFinished = false) :
    db.abortATransaction t = ((db.unwound t).setTransaction t { (db.unwound t).transaction t with
          state := .finished
          requests := abortRequests ((db.unwound t).transaction t).requests
          onAllProcessed := false }).queueADatabaseTask (.abortDone t) := by
  simp only [abortATransaction, unfinished, false_eq_true]
  rfl

theorem unwound_schedule :
    ∃ scope, (db.unwound t).schedule =
      { db.schedule with scope := update db.schedule.scope t scope } := by
  have discarded : (((db.setTransaction t { db.transaction t with
      aborted := true }).revertAllMutations t).discardMutationLogs t).schedule = db.schedule := by
    rw [schedule_discard, schedule_revert]
    exact schedule_touch db t _ ⟨rfl, rfl, rfl, rfl, rfl⟩
  simp only [unwound]
  split_ifs
  · exact ⟨_, (schedule_abort_an_upgrade _ t).trans (by rw [discarded])⟩
  · exact ⟨db.schedule.scope t, discarded.trans (by rw [update_eq_self])⟩

end

theorem unwound_others (apart : u ≠ t) : (db.unwound t).transaction u = db.transaction u := by
  simp only [unwound]
  split_ifs
  · simp [abortAnUpgradeTransaction, discardMutationLogs, revertAllMutations, setTransaction,
      setConnection, update_of_ne apart]
  · simp [discardMutationLogs, revertAllMutations, setTransaction, setConnection,
      update_of_ne apart]

theorem unwound_tasks : (db.unwound t).tasks = db.tasks := by
  simp only [unwound]
  split_ifs <;> rfl

theorem schedule_abort (unfinished : (db.transaction t).isFinished = false) :
    ∃ scope, (db.abortATransaction t).schedule =
      (db.schedule.queue (.abortDone t)).finish t scope := by
  obtain ⟨scope, unwound⟩ := unwound_schedule db t
  refine ⟨((db.unwound t).transaction t).scope, ?_⟩
  rw [abort_eq db t unfinished]
  have finished := schedule_finish (db.unwound t) t
    { (db.unwound t).transaction t with
      state := .finished
      requests := abortRequests ((db.unwound t).transaction t).requests
      onAllProcessed := false } rfl rfl rfl rfl
  apply (congrArg (fun s => queue s (.abortDone t)) finished).trans
  rw [unwound]
  simp [finish, queue]

theorem Tracked.abort (tracked : db.Tracked) (t : TransactionRef)
    (unfinished : (db.transaction t).isFinished = false)
    (silent : (db.transaction t).mode = .versionchange → db.tasksAbout t = []) :
    Follows db (db.abortATransaction t) := by
  obtain ⟨scope, moved⟩ := schedule_abort unfinished
  have mode : ((db.unwound t).transaction t).mode = (db.transaction t).mode := by
    obtain ⟨scope, unwound⟩ := unwound_schedule db t
    exact congrFun (congrArg mode unwound) t
  have about : ∀ u, (db.unwound t).tasksAbout u = db.tasksAbout u := by
    intro u
    rw [tasksAbout, unwound_tasks]
    rfl
  apply tracked.follows (t := t)
  · rw [abort_eq db t unfinished]
    constructor
    · intro u apart
      exact (update_of_ne apart _ _).trans (unwound_others apart)
    · intro u apart
      rw [tasks_about_queue, if_neg (by simpa [Task.about] using apart.symm),
        append_nil, tasks_about_set_transaction, about]
    · simp only [unwound]
      split_ifs <;> rfl
  · apply Relation.ReflTransGen.single
    rw [moved]
    exact ⟨.abort _ t scope unfinished fun isUpgrade => no_end_of_about (silent isUpgrade), rfl⟩
  · rw [abort_eq db t unfinished]
    intro _ isUpgrade
    rw [tasks_about_queue, tasks_about_set_transaction, about]
    simp only [queueADatabaseTask, setTransaction, update_self] at isUpgrade ⊢
    rw [silent (mode ▸ isUpgrade), if_pos (by simp [Task.about])]
    exact Phase.aborted rfl rfl

/-! ## Waits -/

theorem schedule_set_blocked (t : TransactionRef) (tx : Transaction)
    (conn : tx.connection = (db.transaction t).connection)
    (mode : tx.mode = (db.transaction t).mode)
    (finished : tx.isFinished = (db.transaction t).isFinished)
    (scope : tx.scope = (db.transaction t).scope) :
    (db.setTransaction t tx).schedule =
      { db.schedule with blocked := update db.schedule.blocked t tx.blocked } := by
  simp [schedule, setTransaction, update_field, conn, mode, finished, scope]

def prepared (db : Database) (u : TransactionRef) : Database :=
  if (db.transaction u).isReadonly then db else db.setUpMutationLogs u

theorem unblock_eq (waiting : (db.transaction u).requests.isEmpty = false) :
    db.unblockTransaction u = (db.prepared u).setTransaction u
      { (db.prepared u).transaction u with
        blocked := false
        requests := startNext ((db.prepared u).transaction u).requests } := by
  simp only [unblockTransaction, waiting, false_eq_true]
  rfl

theorem prepared_schedule : (db.prepared u).schedule = db.schedule := by
  simp only [prepared]
  split_ifs
  · rfl
  · exact schedule_set_up db u

theorem prepared_others (apart : t ≠ u) : (db.prepared u).transaction t = db.transaction t := by
  simp only [prepared]
  split_ifs
  · rfl
  · exact update_of_ne apart _ _

structure Steady (s next : Schedule) : Prop where
  owner : next.owner = s.owner
  finished : next.finished = s.finished
  waits : next.waits = s.waits
  upgrade : next.upgrade = s.upgrade

theorem Steady.trans {middle next : Schedule} (first : Steady s middle)
    (second : Steady middle next) : Steady s next :=
  ⟨second.owner.trans first.owner, second.finished.trans first.finished,
    second.waits.trans first.waits, second.upgrade.trans first.upgrade⟩

theorem Tracked.unblock (tracked : db.Tracked)
    (mem : wait ∈ db.schedule.waits c) (cb : wait.callback = .unblock u)
    (done : db.allFinished wait.transactions = true)
    (unfinished : (db.transaction u).isFinished = false) :
    Follows db (db.unblockTransaction u) ∧
      Steady db.schedule (db.unblockTransaction u).schedule := by
  have ok := tracked.sane.waits c wait mem
  rw [Schedule.WaitOk, cb] at ok
  have plain : (db.transaction u).mode ≠ .versionchange := ok.2.2
  cases waiting : (db.transaction u).requests.isEmpty with
  | true =>
    have committed : db.unblockTransaction u = db.commitATransaction u := by
      simp [unblockTransaction, waiting]
    rw [committed]
    refine ⟨tracked.commit u unfinished fun isUpgrade => absurd isUpgrade plain, ?_⟩
    rcases schedule_commit unfinished with same | queued
    · rw [same]
      exact ⟨rfl, rfl, rfl, rfl⟩
    · rw [queued]
      exact ⟨rfl, rfl, rfl, rfl⟩
  | false =>
    have moved : (db.unblockTransaction u).schedule =
        { db.schedule with blocked := update db.schedule.blocked u false } := by
      rw [unblock_eq waiting, schedule_set_blocked, prepared_schedule] <;> rfl
    have newMode : ((db.unblockTransaction u).transaction u).mode =
        (db.transaction u).mode := congrFun (congrArg Schedule.mode moved) u
    have tasks : (db.unblockTransaction u).tasks = db.tasks :=
      congrArg Schedule.tasks moved
    constructor
    · apply tracked.follows (t := u)
      · constructor
        · intro t apart
          rw [unblock_eq waiting]
          exact (update_of_ne apart _ _).trans (prepared_others apart)
        · intro t _
          rw [tasksAbout, tasks]
          rfl
        · exact congrArg Schedule.transactionCount moved
      · apply Relation.ReflTransGen.single
        rw [moved]
        exact ⟨.unblock _ u wait unfinished (ok.2.1 ▸ mem) cb done, rfl⟩
      · intro _ isUpgrade
        rw [newMode] at isUpgrade
        exact absurd isUpgrade plain
    · rw [moved]
      exact ⟨rfl, rfl, rfl, rfl⟩

theorem schedule_connection_closed (db : Database) (c : ConnectionRef) :
    ({ db.setConnection c { db.connection c with closed := true } with
      associatedConnections := db.associatedConnections.erase c } : Database).schedule =
        db.schedule.closeConnection c := by
  simp [schedule, setConnection, closeConnection, update_field]

structure Fires (db : Database) (c : ConnectionRef) (wait : PendingTransactionWait) :
    Prop where
  member : wait ∈ db.schedule.waits c
  done : db.allFinished wait.transactions = true
  fresh : ∀ u, wait.callback = .unblock u → (db.transaction u).isFinished = false
  noUpgrade : ∀ t, db.schedule.upgrade = some t → db.schedule.owner t ≠ c

theorem Tracked.run_callback (tracked : db.Tracked)
    (fires : db.Fires c wait) (ran : db.runCallback c wait.callback = some next) :
    Follows db next ∧ Steady db.schedule next.schedule := by
  cases cb : wait.callback with
  | unblock u =>
    simp only [cb, runCallback] at ran
    split_ifs at ran
    cases ran
    exact tracked.unblock fires.member cb fires.done (fires.fresh u cb)
  | connectionClosed =>
    simp only [cb] at ran
    cases ran
    have moved := schedule_connection_closed db c
    constructor
    · apply tracked.follows_untouched
      · rfl
      · exact fun _ => rfl
      · rfl
      · apply Relation.ReflTransGen.single
        rw [moved]
        exact ⟨.closed _ c wait fires.member cb fires.done fires.noUpgrade, rfl⟩
    · rw [moved]
      exact ⟨rfl, rfl, rfl, rfl⟩
  | upgradeFinished =>
    simp only [cb] at ran
    cases ran
    exact ⟨Follows.refl tracked, rfl, rfl, rfl, rfl⟩

structure KeptByWaits (keeps : Database → Prop) : Prop where
  callback : ∀ {db next : Database} {c : ConnectionRef} {wait : PendingTransactionWait},
    db.Tracked → keeps db → db.Fires c wait →
      db.runCallback c wait.callback = some next → keeps next
  drop : ∀ {db : Database} {c : ConnectionRef} {rest : List PendingTransactionWait},
    db.Tracked → keeps db → (∀ wait ∈ rest, wait ∈ db.schedule.waits c) →
      keeps (db.setConnection c { db.connection c with pendingTransactionWaits := rest })

/-- The loop over the waits: it fires only waits of its connection, and none of them
is for a finished transaction. -/
theorem Tracked.fire_waits (kept : KeptByWaits keeps) {waits : List PendingTransactionWait} :
    ∀ {db : Database} {res : Database × List PendingTransactionWait}, db.Tracked →
      keeps db → (∀ wait ∈ waits, wait ∈ db.schedule.waits c) →
      (∀ wait ∈ waits, db.allFinished wait.transactions = true → ∀ u,
        wait.callback = .unblock u → (db.transaction u).isFinished = false) →
      (∀ t, db.schedule.upgrade = some t → db.schedule.owner t ≠ c) →
      fireWaits c waits db = some res →
        (Follows db res.1 ∧ keeps res.1) ∧ Steady db.schedule res.1.schedule ∧
          ∀ wait ∈ res.2, wait ∈ waits := by
  induction waits with
  | nil =>
    intro db res tracked holds _ _ _ fired
    cases fired
    exact ⟨⟨Follows.refl tracked, holds⟩, ⟨rfl, rfl, rfl, rfl⟩, fun _ stays => stays⟩
  | cons wait later ih =>
    intro db res tracked holds members fresh noUpgrade fired
    simp only [fireWaits] at fired
    split_ifs at fired with done
    · obtain ⟨middle, ran, rest⟩ := Option.bind_eq_some_iff.mp fired
      have fires : db.Fires c wait :=
        ⟨members wait mem_cons_self, done, fresh wait mem_cons_self done, noUpgrade⟩
      obtain ⟨follows, steady⟩ := tracked.run_callback fires ran
      have sameFinished : ∀ t, (middle.transaction t).isFinished =
          (db.transaction t).isFinished := fun t => congrFun steady.finished t
      have later := ih follows.tracked (kept.callback tracked holds fires ran)
        (fun other listed => steady.waits ▸ members other (mem_cons_of_mem _ listed))
        (by
          intro other listed otherDone u cb
          rw [sameFinished]
          apply fresh other (mem_cons_of_mem _ listed) _ u cb
          simp only [allFinished, sameFinished] at otherDone
          exact otherDone)
        (fun t live => steady.owner ▸ noUpgrade t (steady.upgrade ▸ live)) rest
      exact ⟨⟨follows.trans later.1.1, later.1.2⟩, steady.trans later.2.1,
        fun other stays => mem_cons_of_mem _ (later.2.2 other stays)⟩
    · obtain ⟨middle, rest, made⟩ := Option.map_eq_some_iff.mp fired
      have later := ih tracked holds
        (fun other listed => members other (mem_cons_of_mem _ listed))
        (fun other listed => fresh other (mem_cons_of_mem _ listed)) noUpgrade rest
      rw [← made]
      refine ⟨later.1, later.2.1, ?_⟩
      exact forall_mem_cons.mpr
        ⟨mem_cons_self, fun other old => mem_cons_of_mem _ (later.2.2 other old)⟩

theorem Tracked.drop_waits (tracked : db.Tracked) {rest : List PendingTransactionWait}
    (subset : ∀ wait ∈ rest, wait ∈ db.schedule.waits c) :
    Follows db (db.setConnection c { db.connection c with pendingTransactionWaits := rest }) := by
  apply tracked.follows_untouched
  · rfl
  · exact fun _ => rfl
  · rfl
  · apply Relation.ReflTransGen.single
    have dropped := Schedule.Move.dropWaits db.schedule c rest subset
    exact ⟨by simpa [schedule, setConnection, update_field] using dropped, rfl⟩

theorem Tracked.check_pending_transaction_waits (kept : KeptByWaits keeps) (tracked : db.Tracked)
    (holds : keeps db)
    (fresh : ∀ wait ∈ db.schedule.waits c, db.allFinished wait.transactions = true → ∀ u,
      wait.callback = .unblock u → (db.transaction u).isFinished = false)
    (noUpgrade : ∀ t, db.schedule.upgrade = some t → db.schedule.owner t ≠ c)
    (checked : db.checkPendingTransactionWaits c = some next) : Follows db next ∧ keeps next := by
  obtain ⟨res, fired, made⟩ := Option.map_eq_some_iff.mp checked
  obtain ⟨⟨follows, after⟩, steady, stays⟩ := Tracked.fire_waits kept tracked holds
    (fun _ listed => listed) fresh noUpgrade fired
  have subset : ∀ wait ∈ res.2, wait ∈ res.1.schedule.waits c := by
    intro wait listed
    rw [steady.waits]
    exact stays wait listed
  rw [← made]
  exact ⟨follows.trans (follows.tracked.drop_waits subset), kept.drop follows.tracked after subset⟩

end Database
end Ladybone.IndexedDB
