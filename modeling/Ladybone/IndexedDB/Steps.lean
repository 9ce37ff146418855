import Ladybone.IndexedDB.Lifecycle

/-!
# One step of the database

Every step follows the schedule's moves under `Orderly`: no wait fires for a
transaction that is already finished, no upgrade starts on a connection that was
closed while it waited, and no clone ends on a transaction that was finished in
the meantime. Only `transaction` and `upgrade` create a transaction,
each with a single move.
-/

namespace Ladybone.IndexedDB

open Function List Schedule Transaction IndexedDB.Task

namespace Database

/-- When the task that ends a transaction runs, every wait that fires is for
another transaction that is still unfinished. -/
def NoStaleWait (db : Database) (ended : TransactionRef) : Prop :=
  ∀ wait ∈ (db.connection (db.transaction ended).connection).pendingTransactionWaits,
    (∀ t ∈ wait.transactions, t = ended ∨ (db.transaction t).isFinished = true) →
      ∀ u, wait.callback = .unblock u → u ≠ ended ∧ (db.transaction u).isFinished = false

def Orderly (db : Database) : Action → Prop
  | .upgrade => ∀ pending, db.pendingUpgrade = some pending →
      (db.connection pending.connection).closePending = false
  | .runTask => ∀ task later t, db.tasks = task :: later → task.ends t = true →
      db.NoStaleWait t
  | .endClone t => (db.transaction t).state = .inactive
  | _ => True

/-! ## Requests and events -/

variable {t u : TransactionRef} {before after tx : Transaction} {tasks later : List Task}
  {db next ended : Database} {id : Nat} {task : Task} {c : ConnectionRef} {mode : TransactionMode}
  {scope : List StoreRef} {keeps : Database → Prop}
  (created : db.createTransaction c mode scope = some next) (head : db.tasks = task :: later)
  (registry : db.schedule.Registry)

theorem phase_kept (phase : Phase t before tasks)
    (state : after.state = before.state ∨ before.state = .inactive ∧ after.state = .active)
    (commit : after.onAllProcessed = before.onAllProcessed)
    (idle : before.requests = [] → after.state = before.state ∧ after.requests = [])
    (processed : before.allProcessed = true → after.allProcessed = true) :
    Phase t after tasks := by
  have same : before.state ≠ .inactive → after.state = before.state := fun isOther =>
    state.resolve_right fun starts => isOther starts.1
  cases phase with
  | awaiting isState empty noCommit =>
    obtain ⟨state, requests⟩ := idle empty
    exact .awaiting (state.trans isState) requests (commit.trans noCommit)
  | running isState noCommit =>
    refine .running ?_ (commit.trans noCommit)
    rcases state with kept | ⟨-, active⟩
    · rwa [kept]
    · exact .inl active
  | committing isState isCommit =>
    rw [isState] at same
    exact .committing (same (by decide)) (commit.trans isCommit)
  | committed isState noCommit isProcessed =>
    rw [isState] at same
    exact .committed (same (by decide)) (commit.trans noCommit) (processed isProcessed)
  | aborted isState noCommit =>
    rw [isState] at same
    exact .aborted (same (by decide)) (commit.trans noCommit)
  | concluded isState noCommit =>
    rw [isState] at same
    exact .concluded (same (by decide)) (commit.trans noCommit)

theorem phase_congr (phase : Phase t before tasks) (state : after.state = before.state)
    (requests : after.requests = before.requests)
    (commit : after.onAllProcessed = before.onAllProcessed) : Phase t after tasks := by
  refine phase_kept phase (.inl state) commit (fun empty => ⟨state, requests.trans empty⟩) ?_
  rw [allProcessed, allProcessed, requests]
  exact id

theorem has_request_entry {status : RequestStatus} (found : db.hasRequest t id status = true) :
    ∃ entry ∈ (db.transaction t).requests, entry.status = status := by
  obtain ⟨entry, mem, matching⟩ := any_eq_true.mp found
  simp only [Bool.and_eq_true, decide_eq_true_eq] at matching
  exact ⟨entry, mem, matching.1.2⟩

theorem maybe_process_fields (tx : Transaction) :
    (maybeProcessNextRequest tx).state = tx.state ∧
      (maybeProcessNextRequest tx).onAllProcessed = tx.onAllProcessed ∧
        SameRole tx (maybeProcessNextRequest tx) := by
  simp only [maybeProcessNextRequest]
  split_ifs
  all_goals exact ⟨rfl, rfl, rfl, rfl, rfl, rfl, rfl⟩

theorem started_request (found : db.hasRequest t id .started = true) :
    (db.transaction t).requests ≠ [] ∧ (db.transaction t).allProcessed = false := by
  obtain ⟨entry, mem, started⟩ := has_request_entry found
  constructor
  · exact ne_nil_of_mem mem
  · rw [allProcessed, all_eq_false]
    refine ⟨entry, mem, ?_⟩
    rw [started]
    decide

section
variable (tracked : db.Tracked) {store : StoreRef}

include tracked

theorem Tracked.place_request (placed : db.placeRequest t = some next) : Follows db next := by
  simp only [placeRequest] at placed
  split_ifs at placed with active
  cases placed
  obtain ⟨state, commit, role⟩ := maybe_process_fields
    { db.transaction t with
      requests := (db.transaction t).requests ++
        [{ id := (db.transaction t).requestCount, status := .waiting, aborted := false }]
      requestCount := (db.transaction t).requestCount + 1 }
  apply tracked.touch t
  · exact { role with }
  · intro _ phase
    have running := phase.of_active active
    rw [running.1]
    exact .running (.inl (state.trans active)) (commit.trans running.2)

theorem Tracked.execute_request {failed : Bool}
    (executed : db.executeRequest t id failed = some next) : Follows db next := by
  simp only [executeRequest] at executed
  split_ifs at executed with found fails
  · cases executed
    rw [Bool.and_eq_true, decide_eq_true_eq] at fails
    have unfinished : (db.transaction t).isFinished = false := by
      rw [isFinished, fails.2]
      rfl
    apply tracked.abort t unfinished
    intro isUpgrade
    have phase := tracked.phases t (tracked.sane.born t unfinished) isUpgrade
    generalize db.tasksAbout t = about at phase
    cases phase with
    | committing | running | concluded => rfl
    | awaiting state | aborted state => cases (fails.2.symm.trans state)
    | committed _ _ processed =>
      cases ((started_request found).2.symm.trans processed)
  · cases executed
    obtain ⟨state, commit, role⟩ := maybe_process_fields
      { db.transaction t with
        requests := markRequest id .processed (db.transaction t).requests }
    apply tracked.touch t
    · exact { role with }
    · intro _ phase
      obtain ⟨busy, unprocessed⟩ := started_request found
      refine phase_kept phase (.inl state) commit (absurd · busy) fun isProcessed => ?_
      cases unprocessed.symm.trans isProcessed

omit tracked in
theorem phase_complete (phase : Phase t before tasks) (busy : before.requests ≠ [])
    (state : after.state = if before.state = .inactive then .active else before.state)
    (commit : after.onAllProcessed = before.onAllProcessed)
    (fewer : ∀ entry ∈ after.requests, entry ∈ before.requests) : Phase t after tasks := by
  refine phase_kept phase ?_ commit (absurd · busy) fun processed => ?_
  · split_ifs at state with inactive
    · exact .inr ⟨inactive, state⟩
    · exact .inl state
  · apply all_eq_true.mpr
    intro entry kept
    exact all_eq_true.mp processed entry (fewer entry kept)

theorem Tracked.complete_request (completed : db.completeRequest t id = some next) :
    Follows db next := by
  obtain ⟨found, ⟨⟩⟩ := Option.ite_none_right_eq_some.mp completed
  obtain ⟨entry, mem, _⟩ := has_request_entry found
  apply tracked.touch t
  · refine ⟨rfl, rfl, ?_, rfl, rfl⟩
    simp only [isFinished]
    split_ifs with inactive
    · rw [inactive]
      rfl
    · rfl
  · intro _ phase
    exact phase_complete phase (ne_nil_of_mem mem) rfl rfl fun other kept => (mem_filter.mp kept).1

omit tracked in
theorem unfinished_of_active (active : tx.state = .active) : tx.isFinished = false := by
  rw [isFinished, active]
  rfl

theorem Tracked.silent_of_active (active : (db.transaction t).state = .active)
    (isUpgrade : (db.transaction t).mode = .versionchange) : db.tasksAbout t = [] := by
  have born := tracked.sane.born t (unfinished_of_active active)
  exact ((tracked.phases t born isUpgrade).of_active active).1

theorem Tracked.leave_and_commit (active : (db.transaction t).state = .active) :
    Follows db ((db.setTransaction t
      { db.transaction t with state := .inactive }).commitATransaction t) := by
  have left := tracked.deactivate t active
  have now : (db.setTransaction t { db.transaction t with state := .inactive }).transaction t =
      { db.transaction t with state := .inactive } := update_self _ _ _
  apply left.trans
  apply left.tracked.commit t
  · rw [now]
    rfl
  · rw [now, tasks_about_set_transaction]
    exact tracked.silent_of_active active

theorem Tracked.end_event : Follows db (db.endEvent t) := by
  simp only [endEvent]
  split_ifs with active empty
  · have committed := tracked.leave_and_commit active
    exact committed.trans committed.tracked.check_all_processed
  · have left := tracked.deactivate t active
    exact left.trans left.tracked.check_all_processed
  · exact tracked.check_all_processed

theorem Tracked.clean_up (cleaned : db.cleanUp t = some next) : Follows db next := by
  simp only [cleanUp] at cleaned
  split_ifs at cleaned with active idle
  · cases cleaned
    exact tracked.leave_and_commit active
  · cases cleaned
    exact tracked.deactivate t active

/-! ## Connections -/

omit tracked in
theorem wait_for_untouched (db : Database) (c : ConnectionRef) (refs : List TransactionRef)
    (cb : Callback) (t : TransactionRef) :
    (db.waitForTransactionsToFinish c refs cb).transaction = db.transaction ∧
      (db.waitForTransactionsToFinish c refs cb).tasksAbout t = db.tasksAbout t ∧
        (db.waitForTransactionsToFinish c refs cb).transactionCount = db.transactionCount := by
  simp only [waitForTransactionsToFinish]
  split_ifs
  · refine ⟨rfl, ?_, rfl⟩
    rw [tasks_about_queue, if_neg (by simp [about]), append_nil]
  · exact ⟨rfl, rfl, rfl⟩

theorem Tracked.await_upgrade (refs : List TransactionRef) (inside : c < db.connectionCount) :
    Follows db (db.waitForTransactionsToFinish c refs .upgradeFinished) := by
  have untouched := wait_for_untouched db c refs .upgradeFinished
  apply tracked.follows_untouched (untouched 0).1 (fun t => (untouched t).2.1) (untouched 0).2.2
  apply Relation.ReflTransGen.single
  refine ⟨?_, (untouched 0).2.2⟩
  rw [schedule_wait_for]
  exact .awaitUpgrade _ c refs inside

theorem Tracked.end_upgrade_event (ended : db.endUpgradeEvent t = some next) : Follows db next := by
  obtain ⟨⟨_, _, born⟩, ⟨⟩⟩ := Option.ite_none_right_eq_some.mp ended
  have inside := tracked.sane.ownerBorn t born
  split_ifs with active empty
  · have left := tracked.leave_and_commit active
    apply left.trans
    apply left.tracked.await_upgrade
    rw [commitATransaction, checkAllProcessed]
    split_ifs <;> exact inside
  · have left := tracked.deactivate t active
    exact left.trans (left.tracked.await_upgrade _ inside)
  · exact tracked.await_upgrade _ inside

theorem Tracked.close (closed : db.closeADatabaseConnection c = some next) : Follows db next := by
  obtain ⟨inside, ⟨⟩⟩ := Option.ite_none_right_eq_some.mp closed
  have untouched := wait_for_untouched
    (db.setConnection c { db.connection c with closePending := true }) c
    (db.connection c).transactions .connectionClosed
  apply tracked.follows_untouched (untouched 0).1 (fun t => (untouched t).2.1) (untouched 0).2.2
  apply Relation.ReflTransGen.single
  refine ⟨?_, (untouched 0).2.2⟩
  rw [schedule_wait_for]
  simpa [schedule, setConnection, update_field] using Schedule.Move.close db.schedule c inside

theorem Tracked.open_connection {version : Nat}
    (opened : db.openADatabaseConnection version = some next) : Follows db next := by
  obtain ⟨⟨idle, _⟩, made⟩ := Option.ite_none_right_eq_some.mp opened
  have noPending : db.pendingUpgrade = none := Option.isNone_iff_eq_none.mp idle
  have moved : next.schedule = db.schedule.openConnection (decide (db.version < version)) ∧
      next.transaction = db.transaction ∧ next.tasks = db.tasks ∧
        next.transactionCount = db.transactionCount := by
    split_ifs at made with older <;> cases made
    all_goals simp [schedule, setConnection, openConnection, update_field, older]
  apply tracked.follows_untouched moved.2.1 _ moved.2.2.2
  · apply Relation.ReflTransGen.single
    refine ⟨?_, moved.2.2.2⟩
    rw [moved.1]
    apply Schedule.Move.openConnection
    simp [schedule, noPending]
  · intro t
    rw [tasksAbout, moved.2.2.1]
    rfl

/-! ## Object stores -/

theorem Tracked.rescope (t : TransactionRef) (tx : Transaction)
    (live : db.upgradeTransaction = some t) (conn : tx.connection = (db.transaction t).connection)
    (mode : tx.mode = (db.transaction t).mode) (state : tx.state = (db.transaction t).state)
    (blocked : tx.blocked = (db.transaction t).blocked)
    (requests : tx.requests = (db.transaction t).requests)
    (commit : tx.onAllProcessed = (db.transaction t).onAllProcessed) :
    Follows db (db.setTransaction t tx) := by
  apply tracked.follows (t := t)
  · exact ⟨fun u apart => update_of_ne apart _ _, fun _ _ => rfl, rfl⟩
  · apply Relation.ReflTransGen.single
    rw [schedule_rescope db t tx conn mode _ blocked]
    · exact ⟨.rescope _ t _ live, rfl⟩
    · rw [isFinished, state, isFinished]
  · intro born isUpgrade
    have now : (db.setTransaction t tx).transaction t = tx :=
      update_self _ _ _
    rw [now] at isUpgrade ⊢
    exact phase_congr (tracked.phases t born (mode ▸ isUpgrade)) state requests commit

omit tracked in
theorem Follows.of_same {middle : Database} (follows : Follows db middle)
    (sameSchedule : next.schedule = middle.schedule)
    (transactions : next.transaction = middle.transaction) : Follows db next := by
  have tasks : next.tasks = middle.tasks := congrArg Schedule.tasks sameSchedule
  apply follows.trans
  apply follows.tracked.follows_untouched transactions
  · intro t
    rw [tasksAbout, tasks]
    rfl
  · exact congrArg Schedule.transactionCount sameSchedule
  · rw [sameSchedule]

theorem Tracked.touch_connection (conn : Connection) (duties : SameDuties (db.connection c) conn) :
    Follows db (db.setConnection c conn) :=
  (Follows.refl tracked).of_same (schedule_touch_connection db conn duties) rfl

omit tracked in
theorem create_object_store_made (created : db.createObjectStore c = some next) :
    ∃ upgrade, db.upgradeTransaction = some upgrade ∧ (db.transaction upgrade).state = .active ∧
      next = { (db.setConnection c { db.connection c with
            objectStoreSet := (db.connection c).objectStoreSet ++ [db.storeCount] }).setTransaction
          upgrade
          { db.transaction upgrade with
            scope := (db.transaction upgrade).scope ++ [db.storeCount]
            storeMutationLogs := (db.transaction upgrade).storeMutationLogs ++
              [(db.storeCount, [.objectStoreCreated])] } with
        objectStores := db.objectStores ++ [db.storeCount]
        storeCount := db.storeCount + 1
        mutationLog := update db.mutationLog db.storeCount (some upgrade) } := by
  simp only [createObjectStore] at created
  split at created
  · cases created
  · obtain ⟨⟨_, active⟩, ⟨⟩⟩ := Option.ite_none_right_eq_some.mp created
    exact ⟨_, by assumption, active, rfl⟩

theorem Tracked.create_object_store (created : db.createObjectStore c = some next) :
    Follows db next := by
  obtain ⟨upgrade, live, _, rfl⟩ := create_object_store_made created
  have connected := tracked.touch_connection
    { db.connection c with
      objectStoreSet := (db.connection c).objectStoreSet ++ [db.storeCount] }
    ⟨rfl, rfl, rfl, rfl⟩
  have rescoped := connected.tracked.rescope upgrade
    { db.transaction upgrade with
      scope := (db.transaction upgrade).scope ++ [db.storeCount]
      storeMutationLogs := (db.transaction upgrade).storeMutationLogs ++
        [(db.storeCount, [.objectStoreCreated])] } live rfl rfl rfl rfl rfl rfl
  exact (connected.trans rescoped).of_same rfl rfl

def unscoped (db : Database) (c : ConnectionRef) (upgrade : TransactionRef) (store : StoreRef) :
    Database :=
  (db.setConnection c
    { db.connection c with
      objectStoreSet := (db.connection c).objectStoreSet.erase store }).setTransaction upgrade
    { db.transaction upgrade with scope := (db.transaction upgrade).scope.erase store }

omit tracked in
theorem delete_object_store_made (deleted : db.deleteObjectStore c store = some next) :
    ∃ upgrade owner, db.upgradeTransaction = some upgrade ∧
      (db.transaction upgrade).state = .active ∧
      next = { (db.unscoped c upgrade store).setTransaction owner
          { (db.unscoped c upgrade store).transaction owner with
            storeMutationLogs := noteSchemaEntry store .objectStoreDeleted
              ((db.unscoped c upgrade store).transaction owner).storeMutationLogs } with
        objectStores := db.objectStores.erase store } := by
  simp only [deleteObjectStore] at deleted
  split at deleted
  · cases deleted
  · obtain ⟨⟨_, active, _⟩, made⟩ := Option.ite_none_right_eq_some.mp deleted
    split at made <;> cases made
    exact ⟨_, _, by assumption, active, rfl⟩

theorem Tracked.delete_object_store (deleted : db.deleteObjectStore c store = some next) :
    Follows db next := by
  obtain ⟨upgrade, owner, live, _, rfl⟩ := delete_object_store_made deleted
  have connected := tracked.touch_connection
    { db.connection c with objectStoreSet := (db.connection c).objectStoreSet.erase store }
    ⟨rfl, rfl, rfl, rfl⟩
  have rescoped : Follows _ (db.unscoped c upgrade store) :=
    connected.tracked.rescope upgrade
      { db.transaction upgrade with scope := (db.transaction upgrade).scope.erase store }
      live rfl rfl rfl rfl rfl rfl
  have logged := rescoped.tracked.touch owner
    { (db.unscoped c upgrade store).transaction owner with
      storeMutationLogs := noteSchemaEntry store .objectStoreDeleted
        ((db.unscoped c upgrade store).transaction owner).storeMutationLogs }
    ⟨rfl, rfl, rfl, rfl, rfl⟩ fun _ phase => phase_congr phase rfl rfl rfl
  exact ((connected.trans rescoped).trans logged).of_same rfl rfl

end

/-! ## Tasks -/

structure EndsAt (t : TransactionRef) (db ended : Database) : Prop where
  schedule : ended.schedule = db.schedule.endHead t
  others : ∀ u, u ≠ t → ended.transaction u = db.transaction u
  state : (ended.transaction t).state = .finished
  commit : (ended.transaction t).onAllProcessed = (db.transaction t).onAllProcessed

theorem phase_end (phase : Phase t tx (task :: later)) (ending : task.ends t = true) :
    later = [] ∧ tx.onAllProcessed = false := by
  generalize whole : task :: later = tasks at phase
  cases phase with
  | awaiting =>
    rw [(List.cons.inj whole).1] at ending
    exact absurd ending (by simp [ends])
  | committed _ noCommit | aborted _ noCommit => exact ⟨(List.cons.inj whole).2, noCommit⟩
  | running | committing | concluded => cases whole

theorem about_of_ends (ending : task.ends t = true) : task.about u = decide (t = u) := by
  cases task with
  | finishCommit | abortDone =>
    rw [← of_decide_eq_true ending]
    rfl
  | upgradeNeeded | callback => exact absurd ending (by simp [ends])

include head in
theorem Tracked.ends_at (tracked : db.Tracked) (ending : task.ends t = true)
    (ends : EndsAt t db ended) : Follows db ended := by
  have tasks : ended.tasks = later := by
    apply (congrArg Schedule.tasks ends.schedule).trans
    change db.tasks.tail = later
    rw [head]
    rfl
  have count : ended.transactionCount = db.transactionCount :=
    congrArg Schedule.transactionCount ends.schedule
  have mode : (ended.transaction t).mode = (db.transaction t).mode :=
    congrFun (congrArg Schedule.mode ends.schedule) t
  apply tracked.follows (t := t)
  · refine ⟨ends.others, ?_, count⟩
    intro u apart
    rw [tasksAbout, tasksAbout, tasks, head, filter_cons, about_of_ends ending]
    rw [if_neg (by simpa using apart.symm)]
  · apply Relation.ReflTransGen.single
    rw [ends.schedule]
    exact ⟨.popEnd _ t task later head ending, rfl⟩
  · intro born isUpgrade
    have phase := tracked.phases t born (mode ▸ isUpgrade)
    rw [tasksAbout, head, filter_cons, about_of_ends ending, if_pos (by simp)] at phase
    obtain ⟨none, noCommit⟩ := phase_end phase ending
    rw [tasksAbout, tasks, none]
    exact .concluded ends.state (ends.commit.trans noCommit)

include head in
theorem Tracked.end_task (kept : KeptByWaits keeps) (tracked : db.Tracked)
    (ending : task.ends t = true) (ends : EndsAt t db ended) (holds : keeps ended)
    (noStale : db.NoStaleWait t)
    (checked : ended.checkPendingTransactionWaits (db.transaction t).connection = some next) :
    Follows db next ∧ keeps next := by
  have follows := tracked.ends_at head ending ends
  have waited := follows.tracked.check_pending_transaction_waits kept holds
    (by
      intro wait mem done u cb
      rw [ends.schedule] at mem
      have others : ∀ v ∈ wait.transactions, v = t ∨ (db.transaction v).isFinished = true := by
        intro v listed
        by_cases same : v = t
        · exact .inl same
        · right
          rw [← ends.others v same]
          exact all_eq_true.mp done v listed
      obtain ⟨apart, unfinished⟩ := noStale wait mem others u cb
      rw [ends.others u apart]
      exact unfinished)
    (by
      intro u live
      rw [ends.schedule] at live ⊢
      exact tracked.sane.end_head_upgrade head ending live)
    checked
  exact ⟨follows.trans waited.1, waited.2⟩

def released (db : Database) (t : TransactionRef) (later : List Task) : Database :=
  if (db.transaction t).isUpgradeTransaction then
    { { db with tasks := later } with upgradeTransaction := none }
  else { db with tasks := later }

theorem released_transaction : (db.released t later).transaction = db.transaction := by
  simp only [released]
  split_ifs <;> rfl

include head in
theorem schedule_released :
    (db.released t later).schedule = { db.schedule with
        tasks := db.schedule.tasks.tail
        upgrade := if db.schedule.mode t = .versionchange then none
          else db.schedule.upgrade } := by
  have tailIs : db.schedule.tasks.tail = later := by
    change db.tasks.tail = later
    rw [head]
    rfl
  rw [tailIs]
  simp only [released, isUpgradeTransaction, decide_eq_true_eq]
  by_cases isUpgrade : (db.transaction t).mode = .versionchange
  · rw [if_pos isUpgrade, if_pos (show db.schedule.mode t = .versionchange from isUpgrade)]
    rfl
  · rw [if_neg isUpgrade, if_neg (show db.schedule.mode t ≠ .versionchange from isUpgrade)]
    rfl

theorem released_discarded :
    ((db.released t later).discardMutationLogs t).transaction t =
      { db.transaction t with storeMutationLogs := [] } := by
  simp [discardMutationLogs, setTransaction, released_transaction]

def finishedCommit (db : Database) (t : TransactionRef) (later : List Task) : Database :=
  ((db.released t later).discardMutationLogs t).setTransaction t
    { ((db.released t later).discardMutationLogs t).transaction t with state := .finished }

include head in
theorem finish_commit_ends (t : TransactionRef) : EndsAt t db (db.finishedCommit t later) := by
  have finished := schedule_finish ((db.released t later).discardMutationLogs t) t
    { ((db.released t later).discardMutationLogs t).transaction t with state := .finished }
    rfl rfl rfl rfl
  constructor
  · rw [finishedCommit, finished, schedule_discard, schedule_released head, released_discarded]
    simp [finish, endHead, schedule]
  · intro u apart
    apply (update_of_ne apart _ _).trans
    apply (update_of_ne apart _ _).trans
    rw [released_transaction]
  · simp [finishedCommit, setTransaction]
  · simp [finishedCommit, setTransaction, released_discarded]

include head in
theorem abort_done_ends (finished : (db.transaction t).isFinished = true) :
    EndsAt t db (db.released t later) := by
  constructor
  · rw [schedule_released head]
    simp only [endHead]
    congr 1
    funext u
    by_cases same : u = t
    · rwa [same, update_self]
    · rw [update_of_ne same]
  · intro u _
    rw [released_transaction]
  · rw [released_transaction]
    exact of_decide_eq_true finished
  · rw [released_transaction]

theorem Tracked.awaiting_upgrade (tracked : db.Tracked)
    (head : db.tasks = .upgradeNeeded t :: later) :
    (later.filter fun task => task.about t) = [] ∧ (db.transaction t).state = .inactive ∧
      (db.transaction t).onAllProcessed = false := by
  have mem : upgradeNeeded t ∈ db.tasks := by
    rw [head]
    exact mem_cons_self
  obtain ⟨born, isUpgrade⟩ := tracked.sane.tasks _ mem
  have phase := tracked.phases t born isUpgrade
  rw [tasksAbout, head, filter_cons, if_pos (by simp [about])] at phase
  generalize whole : upgradeNeeded t :: (later.filter fun task => task.about t) = tasks at phase
  cases phase with
  | awaiting state _ noCommit => exact ⟨(List.cons.inj whole).2, state, noCommit⟩
  | committed | aborted => exact absurd (List.cons.inj whole).1 (by simp)
  | running | committing | concluded => cases whole

def needed (db : Database) (t : TransactionRef) (later : List Task) : Database :=
  { db with tasks := later }.setTransaction t { db.transaction t with state := .active }

theorem Tracked.upgrade_needed (tracked : db.Tracked)
    (head : db.tasks = .upgradeNeeded t :: later) : Follows db (db.needed t later) := by
  obtain ⟨none, inactive, noCommit⟩ := tracked.awaiting_upgrade head
  apply tracked.follows (t := t)
  · refine ⟨fun u apart => update_of_ne apart _ _, ?_, rfl⟩
    intro u apart
    simp only [tasksAbout, needed, setTransaction]
    rw [head, filter_cons, if_neg (by simpa [about] using apart.symm)]
  · apply Relation.ReflTransGen.single
    have role : SameRole (db.transaction t) { db.transaction t with state := .active } := by
      refine ⟨rfl, rfl, ?_, rfl, rfl⟩
      rw [isFinished, isFinished, inactive]
      rfl
    rw [needed, schedule_touch { db with tasks := later } t _ role]
    exact ⟨.popUpgradeNeeded _ t later head, rfl⟩
  · intro _ _
    simp only [tasksAbout, needed, setTransaction, update_self]
    rw [none]
    exact .running (.inl rfl) noCommit

def closedBy (db : Database) (c : ConnectionRef) (later : List Task) : Database :=
  { { db with tasks := later }.setConnection c { db.connection c with closed := true } with
    associatedConnections := db.associatedConnections.erase c }

theorem Tracked.run_task_keeps (kept : KeptByWaits keeps)
    (tracked : db.Tracked) (orderly : db.Orderly .runTask) (ran : db.runTask = some next)
    (commit : ∀ t later, Follows db (db.finishedCommit t later) → keeps (db.finishedCommit t later))
    (abort : ∀ t later, Follows db (db.released t later) → keeps (db.released t later))
    (needed : ∀ t later, (db.transaction t).state = .inactive →
      Follows db (db.needed t later) → keeps (db.needed t later))
    (close : ∀ c later, Follows db (db.closedBy c later) → keeps (db.closedBy c later))
    (drop : ∀ later, Follows db { db with tasks := later } → keeps { db with tasks := later }) :
    Follows db next ∧ keeps next := by
  cases head : db.tasks with
  | nil =>
    simp only [runTask, head] at ran
    cases ran
  | cons task later =>
    have mem : task ∈ db.tasks := by
      rw [head]
      exact mem_cons_self
    have silent : (∀ t, task.about t = false) → ∀ t,
        (later.filter fun other => other.about t) = db.tasksAbout t := by
      intro plain t
      rw [tasksAbout, head, filter_cons, if_neg (by rw [plain t]; decide)]
    simp only [runTask, head] at ran
    cases task with
    | finishCommit t =>
      have ending : (Task.finishCommit t).ends t = true := decide_eq_true rfl
      have ends := finish_commit_ends head t
      exact tracked.end_task head kept ending ends
        (commit t later (tracked.ends_at head ending ends)) (orderly _ later t head ending) ran
    | abortDone t =>
      have ending : (Task.abortDone t).ends t = true := decide_eq_true rfl
      have ends := abort_done_ends head (tracked.aborts t mem)
      exact tracked.end_task head kept ending ends
        (abort t later (tracked.ends_at head ending ends)) (orderly _ later t head ending) ran
    | upgradeNeeded t =>
      cases ran
      have follows := tracked.upgrade_needed head
      exact ⟨follows, needed t later (tracked.awaiting_upgrade head).2.1 follows⟩
    | callback c cb =>
      cases cb with
      | unblock => exact absurd (tracked.sane.tasks _ mem) id
      | connectionClosed =>
        cases ran
        have follows : Follows db (db.closedBy c later) := by
          refine tracked.follows_untouched rfl (silent fun _ => rfl) rfl (.single ?_)
          rw [closedBy, schedule_connection_closed { db with tasks := later } c]
          exact ⟨.popClosed _ c later head, rfl⟩
        exact ⟨follows, close c later follows⟩
      | upgradeFinished =>
        cases ran
        have follows : Follows db { db with tasks := later } :=
          tracked.follows_untouched rfl (silent fun _ => rfl) rfl
            (.single ⟨.popUpgradeFinished _ c later head, rfl⟩)
        exact ⟨follows, drop later follows⟩

theorem Tracked.run_task (tracked : db.Tracked) (orderly : db.Orderly .runTask)
    (ran : db.runTask = some next) : Follows db next := by
  have trivially : KeptByWaits fun _ => True := ⟨fun _ _ _ _ => trivial, fun _ _ _ => trivial⟩
  exact (tracked.run_task_keeps trivially orderly ran (fun _ _ _ => trivial)
    (fun _ _ _ => trivial) (fun _ _ _ _ => trivial) (fun _ _ _ => trivial)
    fun _ _ => trivial).1

/-! ## Creating transactions -/

theorem Tracked.of_created (tracked : db.Tracked) (move : db.schedule.Move next.schedule)
    (count : next.transactionCount = db.transactionCount + 1)
    (others : ∀ u < db.transactionCount, next.transaction u = db.transaction u)
    (tasks : ∀ u < db.transactionCount, next.tasksAbout u = db.tasksAbout u)
    (new : (next.transaction db.transactionCount).mode = .versionchange →
      Phase db.transactionCount (next.transaction db.transactionCount)
        (next.tasksAbout db.transactionCount)) : next.Tracked := by
  refine ⟨tracked.sane.move move, tracked.aborts.move tracked.sane move, ?_⟩
  intro u born isUpgrade
  rw [count] at born
  rcases Nat.lt_or_eq_of_le (Nat.le_of_lt_succ born) with old | same
  · rw [others u old] at isUpgrade ⊢
    rw [tasks u old]
    exact tracked.phases u old isUpgrade
  · rw [same] at isUpgrade ⊢
    exact new isUpgrade

theorem schedule_add_transaction (db : Database) (c : ConnectionRef)
    (mode : TransactionMode) (state : TransactionState) (scope : List StoreRef)
    (running : state ≠ .finished) :
    (db.addTransaction c mode state scope).schedule = db.schedule.addTransaction c mode scope := by
  simp only [schedule, addTransaction, setTransaction, setConnection, addTransaction,
    update_field, update_eq_self]
  congr 1
  exact congrArg (update db.schedule.finished db.transactionCount) (decide_eq_false running)

theorem conflicts_with_iff :
    (db.transaction u).conflictsWith (db.transaction t) = true ↔ db.schedule.conflict t u := by
  simp only [conflictsWith, isReadonly, Bool.and_eq_true,
    Bool.not_eq_true', Bool.and_eq_false_iff, decide_eq_false_iff_not, any_eq_true,
    decide_eq_true_eq, conflict, schedule]
  constructor
  · rintro ⟨modes, store, inU, inT⟩
    refine ⟨?_, store, inT, inU⟩
    rintro ⟨readT, readU⟩
    exact modes.elim (fun other => other readU) fun other => other readT
  · rintro ⟨modes, store, inT, inU⟩
    refine ⟨?_, store, inU, inT⟩
    by_cases readU : (db.transaction u).mode = .readonly
    · exact .inr fun readT => modes ⟨readT, readU⟩
    · exact .inl readU

include registry in
theorem mem_blocking (c : ConnectionRef) (mode : TransactionMode) (scope : List StoreRef)
    (t : TransactionRef) :
    t ∈ (db.addTransaction c mode .active scope).blockingTransactions c
        db.transactionCount ↔
      t ∈ db.schedule.transactions c ∧ db.schedule.finished t = false ∧
        (db.schedule.addTransaction c mode scope).conflict t db.transactionCount := by
  have added := schedule_add_transaction db c mode .active scope (by decide)
  have listed : ((db.addTransaction c mode .active scope).connection c).transactions =
      (db.connection c).transactions ++ [db.transactionCount] := by
    simp [addTransaction, setConnection]
  have old : ∀ u ∈ (db.connection c).transactions, u < db.transactionCount :=
    fun u mem => ((registry.listed c u).mp mem).1
  have earlier : ((db.connection c).transactions ++ [db.transactionCount]).takeWhile
      (fun other => decide (other ≠ db.transactionCount)) = (db.connection c).transactions := by
    rw [takeWhile_append_of_pos]
    · simp
    · intro u mem
      exact decide_eq_true (Nat.ne_of_lt (old u mem))
  rw [blockingTransactions, listed, earlier, mem_filter, Bool.and_eq_true,
    conflicts_with_iff, added]
  have sameFinished : t ∈ (db.connection c).transactions →
      ((db.addTransaction c mode .active scope).transaction t).isFinished =
        db.schedule.finished t := by
    intro mem
    apply (congrFun (congrArg finished added) t).trans
    exact update_of_ne (Nat.ne_of_lt (old t mem)) _ _
  constructor
  · rintro ⟨mem, clash, unfinished⟩
    rw [sameFinished mem] at unfinished
    exact ⟨mem, by simpa using unfinished, clash⟩
  · rintro ⟨mem, unfinished, clash⟩
    refine ⟨mem, clash, ?_⟩
    rw [sameFinished mem, unfinished]
    rfl

theorem block_when_free {created : TransactionRef} (free : db.blockingTransactions c created = []) :
    db.blockOnConflictingTransactions c created = db.prepared created := by
  simp only [blockOnConflictingTransactions, free, isEmpty_nil]
  rfl

theorem block_when_busy {created : TransactionRef} (busy : db.blockingTransactions c created ≠ []) :
    db.blockOnConflictingTransactions c created = (db.setTransaction created
        { db.transaction created with blocked := true }).waitForTransactionsToFinish c
          (db.blockingTransactions c created) (.unblock created) := by
  have notEmpty : (db.blockingTransactions c created).isEmpty = false := by
    rwa [isEmpty_eq_false_iff]
  simp [blockOnConflictingTransactions, notEmpty]

include registry in
theorem schedule_block_when_busy
    (busy : (db.addTransaction c mode .active scope).blockingTransactions c
      db.transactionCount ≠ []) :
    ((db.addTransaction c mode .active scope).blockOnConflictingTransactions c
      db.transactionCount).schedule = db.schedule.addBlocked c mode scope
          ((db.addTransaction c mode .active scope).blockingTransactions c
            db.transactionCount) := by
  have added := schedule_add_transaction db c mode .active scope (by decide)
  obtain ⟨first, mem⟩ := exists_mem_of_ne_nil _ busy
  obtain ⟨listed, unfinished, _⟩ := (mem_blocking registry c mode scope first).mp mem
  have old : first ≠ db.transactionCount := Nat.ne_of_lt ((registry.listed c first).mp listed).1
  have marked := schedule_set_blocked
    db.transactionCount
    { (db.addTransaction c mode .active scope).transaction db.transactionCount with
      blocked := true } rfl rfl rfl rfl
  have count : db.schedule.transactionCount = db.transactionCount := rfl
  rw [block_when_busy busy, schedule_wait_for, marked, added]
  rw [Schedule.waitFor, if_neg]
  · simp [Schedule.addWait, Schedule.addBlocked, Schedule.addTransaction, count]
  · intro done
    have concluded := all_eq_true.mp done first mem
    simp only [Schedule.addTransaction, count, update_of_ne old] at concluded
    cases (unfinished.symm.trans concluded)

theorem block_others (db : Database) (c : ConnectionRef) {created : TransactionRef}
    (apart : u ≠ created) :
    (db.blockOnConflictingTransactions c created).transaction u = db.transaction u ∧
      (db.blockOnConflictingTransactions c created).tasksAbout u = db.tasksAbout u := by
  by_cases free : db.blockingTransactions c created = []
  · rw [block_when_free free, tasksAbout]
    refine ⟨prepared_others apart, ?_⟩
    have tasks : (db.prepared created).tasks = db.tasks :=
      congrArg Schedule.tasks prepared_schedule
    rw [tasks]
    rfl
  · rw [block_when_busy free]
    have untouched := wait_for_untouched (db.setTransaction created
      { db.transaction created with blocked := true }) c
      (db.blockingTransactions c created) (.unblock created) u
    rw [untouched.1, untouched.2.1]
    exact ⟨update_of_ne apart _ _, rfl⟩

include created registry in
theorem create_transaction_schedule :
    next.schedule = db.schedule.addTransaction c mode scope ∨
      ∃ blocking, next.schedule = db.schedule.addBlocked c mode scope blocking := by
  obtain ⟨-, ⟨⟩⟩ := Option.ite_none_right_eq_some.mp created
  by_cases free : (db.addTransaction c mode .active scope).blockingTransactions c
      db.transactionCount = []
  · left
    rw [block_when_free free, prepared_schedule]
    exact schedule_add_transaction db c mode .active scope (by decide)
  · right
    exact ⟨_, schedule_block_when_busy registry free⟩

include created registry in
theorem create_transaction_fields :
    next.transactionCount = db.transactionCount + 1 ∧
      next.schedule.owner = update db.schedule.owner db.transactionCount c ∧
        next.schedule.mode = update db.schedule.mode db.transactionCount mode ∧
          next.schedule.scope = update db.schedule.scope db.transactionCount scope := by
  rcases create_transaction_schedule created registry with same | ⟨blocking, same⟩
  all_goals
    exact ⟨congrArg Schedule.transactionCount same, congrArg Schedule.owner same,
      congrArg Schedule.mode same, congrArg Schedule.scope same⟩

theorem Tracked.create_transaction (tracked : db.Tracked) (c : ConnectionRef)
    (mode : TransactionMode) (scope : List StoreRef)
    (created : db.createTransaction c mode scope = some next) :
    next.Tracked ∧ db.schedule.Move next.schedule := by
  have fields := create_transaction_fields created tracked.sane.toRegistry
  obtain ⟨⟨isExposed, noUpgrade, isOpen, _, _, plain⟩, made⟩ :=
    Option.ite_none_right_eq_some.mp created
  simp only [exposed, Bool.and_eq_true, decide_eq_true_eq] at isExposed
  have idle : ∀ others, db.schedule.pending ≠ some (c, others) := by
    intro others isPending
    apply isExposed.2
    obtain ⟨pending, found, same⟩ := Option.map_eq_some_iff.mp isPending
    rw [found]
    exact congrArg some (Prod.mk.inj same).1
  have registry := tracked.sane.toRegistry
  have added := schedule_add_transaction db c mode .active scope (by decide)
  have move : db.schedule.Move next.schedule := by
    cases made
    by_cases free : (db.addTransaction c mode .active scope).blockingTransactions c
        db.transactionCount = []
    · rw [block_when_free free, prepared_schedule, added]
      apply Schedule.Move.create _ c mode scope isExposed.1 noUpgrade isOpen idle plain
      intro t listed unfinished clash
      have mem := (mem_blocking registry c mode scope t).mpr ⟨listed, unfinished, clash⟩
      rw [free] at mem
      exact absurd mem not_mem_nil
    · rw [schedule_block_when_busy registry free]
      apply Schedule.Move.createBlocked _ c mode scope _ isExposed.1 noUpgrade isOpen idle plain
      intro t listed unfinished clash
      exact (mem_blocking registry c mode scope t).mpr ⟨listed, unfinished, clash⟩
  refine ⟨?_, move⟩
  have isMode : (next.transaction db.transactionCount).mode = mode :=
    (congrFun fields.2.2.1 _).trans (update_self _ _ _)
  apply tracked.of_created move fields.1
  · intro u old
    rw [← Option.some.inj made, (block_others _ c (Nat.ne_of_lt old)).1]
    exact update_of_ne (Nat.ne_of_lt old) _ _
  · intro u old
    rw [← Option.some.inj made, (block_others _ c (Nat.ne_of_lt old)).2]
    rfl
  · intro isUpgrade
    exact absurd (isMode.symm.trans isUpgrade) plain

include registry in
theorem unborn_silent : db.tasksAbout db.transactionCount = [] := by
  apply filter_eq_nil_iff.mpr
  intro task mem isAbout
  have ok := registry.tasks task mem
  cases task with
  | finishCommit | abortDone => exact Nat.lt_irrefl _ (of_decide_eq_true isAbout ▸ ok)
  | upgradeNeeded => exact Nat.lt_irrefl _ (of_decide_eq_true isAbout ▸ ok.1)
  | callback => exact absurd isAbout (by simp [about])

def upgrading (db : Database) (pending : PendingUpgrade) : Database :=
  { db.addTransaction pending.connection .versionchange .inactive
      (db.connection pending.connection).objectStoreSet with
    upgradeTransaction := some db.transactionCount }

def upgradeStarted (db : Database) (pending : PendingUpgrade) : Database :=
  { (db.upgrading pending).setUpMutationLogs db.transactionCount with
    version := pending.version
    pendingUpgrade := none }.queueADatabaseTask (.upgradeNeeded db.transactionCount)

theorem upgrade_made (upgraded : db.upgradeADatabase = some next) :
    ∃ pending, db.pendingUpgrade = some pending ∧
      (∀ other ∈ pending.openConnections, (db.connection other).closed = true) ∧
      next = db.upgradeStarted pending := by
  simp only [upgradeADatabase] at upgraded
  split at upgraded
  · cases upgraded
  · obtain ⟨closed, ⟨⟩⟩ := Option.ite_none_right_eq_some.mp upgraded
    exact ⟨_, by assumption, all_eq_true.mp closed, rfl⟩

theorem schedule_upgrade_started {pending : PendingUpgrade} :
    (db.upgradeStarted pending).schedule = db.schedule.startUpgrade pending.connection
      (db.connection pending.connection).objectStoreSet := by
  have added : (db.upgrading pending).schedule =
      { db.schedule.addTransaction pending.connection .versionchange
          (db.connection pending.connection).objectStoreSet with
        upgrade := some db.transactionCount } := by
    rw [← schedule_add_transaction db pending.connection .versionchange .inactive
      (db.connection pending.connection).objectStoreSet (by decide)]
    rfl
  have logged := (schedule_set_up (db.upgrading pending) db.transactionCount).trans added
  exact congrArg (fun s : Schedule =>
    { s with pending := none, tasks := s.tasks ++ [upgradeNeeded db.transactionCount] })
    logged

theorem Tracked.upgrade (tracked : db.Tracked) (orderly : db.Orderly .upgrade)
    (upgraded : db.upgradeADatabase = some next) :
    next.Tracked ∧ db.schedule.Move next.schedule ∧ ∀ t, db.schedule.finished t = true := by
  obtain ⟨pending, waiting, closed, rfl⟩ := upgrade_made upgraded
  have isPending : db.schedule.pending = some (pending.connection, pending.openConnections) := by
    simp [schedule, waiting]
  have moved : db.schedule.Move (db.upgradeStarted pending).schedule := by
    rw [schedule_upgrade_started]
    exact .startUpgrade _ _ _ _ isPending closed (orderly pending waiting)
  refine ⟨?_, moved, (tracked.sane.upgrade_alone isPending closed).2⟩
  apply tracked.of_created moved
  · rfl
  · intro u old
    apply (update_of_ne (Nat.ne_of_lt old) _ _).trans
    exact update_of_ne (Nat.ne_of_lt old) _ _
  · intro u old
    rw [upgradeStarted, tasks_about_queue,
      if_neg (by simpa [Task.about] using (Nat.ne_of_gt old)), append_nil]
    rfl
  · intro _
    have about := tasks_about_queue db (.upgradeNeeded db.transactionCount) db.transactionCount
    rw [unborn_silent tracked.sane.toRegistry, if_pos (by simp [Task.about])] at about
    refine about ▸ Phase.awaiting ?_ ?_ ?_
    all_goals
      simp [upgradeStarted, upgrading, queueADatabaseTask, setUpMutationLogs, addTransaction,
        setTransaction, setConnection]

/-! ## Every step -/

theorem tasks_about_started (started : upgradeNeeded t ∉ db.tasks) :
    db.tasksAbout t ≠ [upgradeNeeded t] := by
  intro about
  have mem : upgradeNeeded t ∈ db.tasksAbout t := by
    rw [about]
    exact mem_singleton.mpr rfl
  exact started (mem_filter.mp mem).1

theorem Tracked.abort_action (tracked : db.Tracked) (aborted : db.step (.abort t) = some next) :
    Follows db next := by
  obtain ⟨⟨state, started⟩, ⟨⟩⟩ := Option.ite_none_right_eq_some.mp aborted
  have unfinished : (db.transaction t).isFinished = false := by
    rcases state with active | inactive
    · exact unfinished_of_active active
    · rw [isFinished, inactive]
      rfl
  apply tracked.abort t unfinished
  intro isUpgrade
  have phase := tracked.phases t (tracked.sane.born t unfinished) isUpgrade
  generalize about : db.tasksAbout t = tasks at phase
  cases phase with
  | awaiting => exact absurd about (tasks_about_started started)
  | running | committing | concluded => rfl
  | committed isState | aborted isState =>
    rw [isState] at state
    exact absurd state (by decide)

theorem Tracked.begin_clone (tracked : db.Tracked) (begun : db.beginClone t = some next) :
    Follows db next := by
  obtain ⟨active, ⟨⟩⟩ := Option.ite_none_right_eq_some.mp begun
  exact (tracked.deactivate t active).of_same rfl rfl

theorem Tracked.end_clone (tracked : db.Tracked) (inactive : (db.transaction t).state = .inactive)
    (ended : db.step (.endClone t) = some next) : Follows db next := by
  obtain ⟨⟨-, started⟩, ⟨⟩⟩ := Option.ite_none_right_eq_some.mp ended
  have activated : Follows db
      (db.setTransaction t { db.transaction t with state := .active }) := by
    apply tracked.touch t
    · refine ⟨rfl, rfl, ?_, rfl, rfl⟩
      rw [isFinished, isFinished, inactive]
      rfl
    · intro _ phase
      generalize about : db.tasksAbout t = tasks at phase ⊢
      cases phase with
      | awaiting => exact absurd about (tasks_about_started started)
      | running _ noCommit => exact .running (.inl rfl) noCommit
      | committing isState | committed isState | aborted isState | concluded isState =>
        exact absurd (inactive.symm.trans isState) (by decide)
  exact activated.of_same rfl rfl

def Action.creates : Action → Bool
  | .upgrade => true
  | .transaction _ _ _ => true
  | _ => false

theorem Tracked.step_follows (tracked : db.Tracked) {action : Action}
    (quiet : action.creates = false) (orderly : db.Orderly action)
    (steps : db.step action = some next) : Follows db next := by
  cases action with
  | openConnection version => exact tracked.open_connection steps
  | upgrade => cases quiet
  | createObjectStore c => exact tracked.create_object_store steps
  | deleteObjectStore c store => exact tracked.delete_object_store steps
  | transaction => exact absurd quiet (by simp [Action.creates])
  | close c => exact tracked.close steps
  | placeRequest t => exact tracked.place_request steps
  | executeRequest t id failed => exact tracked.execute_request steps
  | completeRequest t id => exact tracked.complete_request steps
  | endEvent t =>
    cases steps
    exact tracked.end_event
  | endUpgradeEvent t => exact tracked.end_upgrade_event steps
  | cleanUp t => exact tracked.clean_up steps
  | beginClone t => exact tracked.begin_clone steps
  | endClone t => exact tracked.end_clone orderly steps
  | commit t =>
    obtain ⟨active, ⟨⟩⟩ := Option.ite_none_right_eq_some.mp steps
    exact tracked.commit t (unfinished_of_active active) (tracked.silent_of_active active)
  | abort t => exact tracked.abort_action steps
  | runTask => exact tracked.run_task orderly steps

theorem Tracked.step (tracked : db.Tracked) (action : Action) (orderly : db.Orderly action)
    (steps : db.step action = some next) : next.Tracked := by
  cases creates : action.creates with
  | false => exact (tracked.step_follows creates orderly steps).tracked
  | true =>
    cases action with
    | upgrade => exact (tracked.upgrade orderly steps).1
    | transaction c mode scope => exact (tracked.create_transaction c mode scope steps).1
    | _ => exact absurd creates (by simp [Action.creates])

theorem initial_tracked : initial.Tracked := by
  refine ⟨⟨⟨?_, ?_, ?_, ?_, ?_, ?_, ?_, ?_⟩, ?_, ?_, ?_, ?_, ?_⟩, ?_, ?_⟩
  all_goals simp [initial, schedule, isFinished, Schedule.AbortsFinished]

end Database
end Ladybone.IndexedDB
