import Ladybone.Support.Runs

/-!
# Connections, transactions and their scheduling

`IDBDatabase.cpp`, `IDBTransaction.cpp`, `RequestList.cpp` and the open, close,
upgrade, commit and abort algorithms of `Algorithms.cpp`, as a transition system
over one database. Tasks of the database task source run in the order they were
queued. A request is its place in the request list: what its operation does to
the stores is the subject of `ObjectStore`. Script runs between any two steps.
-/

namespace Ladybone.IndexedDB

abbrev ConnectionRef := Nat
abbrev TransactionRef := Nat
abbrev StoreRef := Nat

inductive TransactionMode where
  | readonly
  | readwrite
  | versionchange
deriving DecidableEq

inductive TransactionState where
  | active
  | inactive
  | committing
  | finished
deriving DecidableEq

/-- `started` is a request whose steps have been queued (a null `steps` entry). -/
inductive RequestStatus where
  | waiting
  | started
  | processed
deriving DecidableEq

structure RequestEntry where
  id : Nat
  status : RequestStatus
  aborted : Bool

inductive SchemaEntry where
  | objectStoreCreated
  | objectStoreDeleted
deriving DecidableEq

structure Transaction where
  connection : ConnectionRef
  mode : TransactionMode
  state : TransactionState
  aborted : Bool
  scope : List StoreRef
  blocked : Bool
  requests : List RequestEntry
  requestCount : Nat
  onAllProcessed : Bool
  storeMutationLogs : List (StoreRef × List SchemaEntry)
  originalVersion : Nat

inductive Callback where
  | unblock (transaction : TransactionRef)
  | connectionClosed
  | upgradeFinished
deriving DecidableEq

structure PendingTransactionWait where
  transactions : List TransactionRef
  callback : Callback

structure Connection where
  version : Nat
  (closePending closed : Bool)
  objectStoreSet : List StoreRef
  transactions : List TransactionRef
  pendingTransactionWaits : List PendingTransactionWait

inductive Task where
  | finishCommit (transaction : TransactionRef)
  | abortDone (transaction : TransactionRef)
  | upgradeNeeded (transaction : TransactionRef)
  | callback (connection : ConnectionRef) (callback : Callback)
deriving DecidableEq

/-- An open request that waits for the connections that were open before it. It
stays the first unprocessed request of the connection queue. -/
structure PendingUpgrade where
  connection : ConnectionRef
  version : Nat
  openConnections : List ConnectionRef

/-- `mutationLog store` is the transaction that created the log attached to the
store. Transactions that do not exist yet count as finished. -/
structure Database where
  version : Nat
  upgradeTransaction : Option TransactionRef
  objectStores : List StoreRef
  associatedConnections : List ConnectionRef
  connection : ConnectionRef → Connection
  connectionCount : Nat
  transaction : TransactionRef → Transaction
  (transactionCount storeCount : Nat)
  mutationLog : StoreRef → Option TransactionRef
  pendingUpgrade : Option PendingUpgrade
  tasks : List Task
  /-- The calls of `clone_in_realm` that are not back yet, innermost first. -/
  clones : List TransactionRef

namespace Transaction

def isFinished (transaction : Transaction) : Bool :=
  decide (transaction.state = .finished)

def isReadonly (transaction : Transaction) : Bool :=
  decide (transaction.mode = .readonly)

def isUpgradeTransaction (transaction : Transaction) : Bool :=
  decide (transaction.mode = .versionchange)

def allProcessed (transaction : Transaction) : Bool :=
  transaction.requests.all fun entry => decide (entry.status = .processed)

def conflictsWith (transaction other : Transaction) : Bool :=
  !(transaction.isReadonly && other.isReadonly) &&
    transaction.scope.any fun store => decide (store ∈ other.scope)

end Transaction

def startNext : List RequestEntry → List RequestEntry
  | [] => []
  | entry :: later =>
    if decide (entry.status = .processed) || entry.aborted then
      entry :: startNext later
    else if entry.status = .waiting then { entry with status := .started } :: later
    else entry :: later

def maybeProcessNextRequest (transaction : Transaction) : Transaction :=
  if transaction.blocked then transaction
  else { transaction with requests := startNext transaction.requests }

def markRequest (id : Nat) (status : RequestStatus) (requests : List RequestEntry) :
    List RequestEntry :=
  requests.map fun entry => if entry.id = id then { entry with status := status } else entry

def revertSchemaEntries (store : StoreRef) (entries : List SchemaEntry)
    (stores : List StoreRef × List StoreRef) : List StoreRef × List StoreRef :=
  entries.foldr
    (fun entry stores =>
      match entry with
      | .objectStoreCreated => (stores.1.erase store, stores.2.erase store)
      | .objectStoreDeleted => (stores.1 ++ [store], stores.2 ++ [store]))
    stores

namespace Database

variable (db : Database) (ref : TransactionRef)

def setTransaction (transaction : Transaction) : Database :=
  { db with transaction := Function.update db.transaction ref transaction }

def setConnection (ref : ConnectionRef) (connection : Connection) : Database :=
  { db with connection := Function.update db.connection ref connection }

def queueADatabaseTask (task : Task) : Database :=
  { db with tasks := db.tasks ++ [task] }

def allFinished (refs : List TransactionRef) : Bool :=
  refs.all fun ref => (db.transaction ref).isFinished

/-! ## Mutation logs -/

def setUpMutationLogs : Database :=
  let transaction := db.transaction ref
  { db.setTransaction ref
      { transaction with
        originalVersion := db.version
        storeMutationLogs :=
          transaction.storeMutationLogs ++ transaction.scope.map fun store => (store, []) } with
    mutationLog := fun store =>
      if store ∈ transaction.scope then some ref else db.mutationLog store }

def revertAllMutations : Database :=
  let transaction := db.transaction ref
  let connection := db.connection transaction.connection
  let reverted := transaction.storeMutationLogs.foldr
    (fun log stores => revertSchemaEntries log.1 log.2 stores)
    (db.objectStores, connection.objectStoreSet)
  { db.setConnection transaction.connection
      { connection with
        objectStoreSet := reverted.2
        version := transaction.originalVersion } with
    objectStores := reverted.1
    version := transaction.originalVersion }

def discardMutationLogs : Database :=
  let transaction := db.transaction ref
  { db.setTransaction ref { transaction with storeMutationLogs := [] } with
    mutationLog := fun store =>
      if store ∈ transaction.storeMutationLogs.map Prod.fst then none
      else db.mutationLog store }

/-! ## Committing and aborting -/

def checkAllProcessed : Database :=
  let transaction := db.transaction ref
  if transaction.onAllProcessed && transaction.allProcessed then
    let cleared := db.setTransaction ref { transaction with onAllProcessed := false }
    if transaction.state = .committing then cleared.queueADatabaseTask (.finishCommit ref)
    else cleared
  else db

def commitATransaction : Database :=
  (db.setTransaction ref
    { db.transaction ref with state := .committing, onAllProcessed := true }).checkAllProcessed
      ref

def abortAnUpgradeTransaction : Database :=
  let transaction := db.transaction ref
  let connection := db.connection transaction.connection
  (db.setConnection transaction.connection { connection with version := db.version }).setTransaction
    ref { transaction with scope := connection.objectStoreSet }

def abortRequests (requests : List RequestEntry) : List RequestEntry :=
  requests.map fun entry => { entry with status := .processed, aborted := true }

def abortATransaction : Database :=
  let marked := db.setTransaction ref { db.transaction ref with aborted := true }
  if (db.transaction ref).isFinished then marked
  else
    let discarded := (marked.revertAllMutations ref).discardMutationLogs ref
    let reset :=
      if (db.transaction ref).isUpgradeTransaction then
        discarded.abortAnUpgradeTransaction ref
      else discarded
    let transaction := reset.transaction ref
    (reset.setTransaction ref
      { transaction with
        state := .finished
        requests := abortRequests transaction.requests
        onAllProcessed := false }).queueADatabaseTask (.abortDone ref)

/-! ## Waiting for transactions -/

def waitForTransactionsToFinish (ref : ConnectionRef)
    (transactions : List TransactionRef) (callback : Callback) : Database :=
  if db.allFinished transactions then db.queueADatabaseTask (.callback ref callback)
  else
    let connection := db.connection ref
    db.setConnection ref
      { connection with
        pendingTransactionWaits := connection.pendingTransactionWaits ++
          [{ transactions := transactions, callback := callback }] }

/-- The callback of `block_on_conflicting_transactions`, after its `VERIFY`. -/
def unblockTransaction : Database :=
  let transaction := db.transaction ref
  if transaction.requests.isEmpty then db.commitATransaction ref
  else
    let ready := if transaction.isReadonly then db else db.setUpMutationLogs ref
    ready.setTransaction ref
      (maybeProcessNextRequest { ready.transaction ref with blocked := false })

/-- `none` is a failed `VERIFY`. -/
def runCallback (ref : ConnectionRef) : Callback → Option Database
  | .unblock transaction =>
    if (db.transaction transaction).state = .active then none
    else some (db.unblockTransaction transaction)
  | .connectionClosed =>
    some
      { db.setConnection ref { db.connection ref with closed := true } with
        associatedConnections := db.associatedConnections.erase ref }
  | .upgradeFinished => some db

/-- The loop of `check_pending_transaction_waits`: the database after the fired
callbacks, and the waits that stay. -/
def fireWaits (ref : ConnectionRef) : List PendingTransactionWait → Database →
      Option (Database × List PendingTransactionWait)
  | [], db => some (db, [])
  | wait :: later, db =>
    if db.allFinished wait.transactions then
      (db.runCallback ref wait.callback).bind (fireWaits ref later)
    else (fireWaits ref later db).map fun result => (result.1, wait :: result.2)

def checkPendingTransactionWaits (ref : ConnectionRef) : Option Database :=
  (fireWaits ref (db.connection ref).pendingTransactionWaits db).map fun result =>
    result.1.setConnection ref { result.1.connection ref with pendingTransactionWaits := result.2 }

/-! ## Creating transactions -/

section
variable (db : Database) (ref : ConnectionRef)

def blockingTransactions (created : TransactionRef) : List TransactionRef :=
  ((db.connection ref).transactions.takeWhile fun other => decide (other ≠ created)).filter
    fun other =>
      (db.transaction created).conflictsWith (db.transaction other) &&
        !(db.transaction other).isFinished

def blockOnConflictingTransactions (created : TransactionRef) : Database :=
  let blocking := db.blockingTransactions ref created
  if blocking.isEmpty then
    if (db.transaction created).isReadonly then db else db.setUpMutationLogs created
  else
    (db.setTransaction created
      { db.transaction created with blocked := true }).waitForTransactionsToFinish
        ref blocking (.unblock created)

def addTransaction (mode : TransactionMode)
    (state : TransactionState) (scope : List StoreRef) : Database :=
  let connection := db.connection ref
  { (db.setTransaction db.transactionCount
      { connection := ref, mode := mode, state := state, aborted := false, scope := scope,
        blocked := false, requests := [], requestCount := 0, onAllProcessed := false,
        storeMutationLogs := [], originalVersion := 0 }).setConnection ref
      { connection with
        transactions := connection.transactions ++ [db.transactionCount] } with
    transactionCount := db.transactionCount + 1 }

/-- Script holds a connection once its open request no longer waits to upgrade. -/
def exposed : Bool :=
  decide (ref < db.connectionCount) &&
    decide (db.pendingUpgrade.map PendingUpgrade.connection ≠ some ref)

def createTransaction (mode : TransactionMode) (scope : List StoreRef) : Option Database :=
  if db.exposed ref ∧ db.upgradeTransaction = none ∧
      (db.connection ref).closePending = false ∧
      (∀ store ∈ scope, store ∈ db.objectStores) ∧ scope ≠ [] ∧ mode ≠ .versionchange then
    some ((db.addTransaction ref mode .active scope).blockOnConflictingTransactions ref
      db.transactionCount)
  else none

end

/-! ## Connections and upgrades -/

/-- Steps 7 to 10 of `open_a_database_connection`, when the connection queue has
no earlier unprocessed request; `none` for a `VersionError`. -/
def openADatabaseConnection (version : Nat) : Option Database :=
  if db.pendingUpgrade.isNone ∧ db.version ≤ version then
    let ref := db.connectionCount
    let opened :=
      { db.setConnection ref
          { version := version, closePending := false, closed := false,
            objectStoreSet := db.objectStores, transactions := [],
            pendingTransactionWaits := [] } with
        connectionCount := ref + 1
        associatedConnections := db.associatedConnections ++ [ref] }
    if db.version < version then
      some { opened with
        pendingUpgrade := some
          { connection := ref, version := version,
            openConnections := db.associatedConnections } }
    else some opened
  else none

/-- `upgrade_a_database` up to the task of step 10, once every connection that was
open before is closed. -/
def upgradeADatabase : Option Database :=
  match db.pendingUpgrade with
  | none => none
  | some pending =>
    if pending.openConnections.all fun ref => (db.connection ref).closed then
      let ref := db.transactionCount
      let added := db.addTransaction pending.connection .versionchange .inactive
        (db.connection pending.connection).objectStoreSet
      let logged := { added with upgradeTransaction := some ref }.setUpMutationLogs ref
      some ({ logged with
        version := pending.version
        pendingUpgrade := none }.queueADatabaseTask (.upgradeNeeded ref))
    else none

/-- `IDBDatabase::create_object_store` from step 9 on; `none` when it throws. -/
def createObjectStore (ref : ConnectionRef) : Option Database :=
  match db.upgradeTransaction with
  | none => none
  | some upgrade =>
    let transaction := db.transaction upgrade
    let connection := db.connection ref
    if db.exposed ref ∧ transaction.state = .active then
      let store := db.storeCount
      some
        { (db.setConnection ref
            { connection with
              objectStoreSet := connection.objectStoreSet ++ [store] }).setTransaction upgrade
            { transaction with
              scope := transaction.scope ++ [store]
              storeMutationLogs := transaction.storeMutationLogs ++
                [(store, [.objectStoreCreated])] } with
          objectStores := db.objectStores ++ [store]
          storeCount := store + 1
          mutationLog := Function.update db.mutationLog store (some upgrade) }
    else none

def noteSchemaEntry (store : StoreRef) (entry : SchemaEntry)
    (logs : List (StoreRef × List SchemaEntry)) : List (StoreRef × List SchemaEntry) :=
  logs.map fun log => if log.1 = store then (log.1, log.2 ++ [entry]) else log

/-- `IDBDatabase::delete_object_store`; `none` when it throws, and when the store has
no log to note the deletion in. -/
def deleteObjectStore (ref : ConnectionRef) (store : StoreRef) : Option Database :=
  match db.upgradeTransaction with
  | none => none
  | some upgrade =>
    if db.exposed ref ∧ (db.transaction upgrade).state = .active ∧
        store ∈ db.objectStores then
      match db.mutationLog store with
      | none => none
      | some owner =>
        let connection := db.connection ref
        let unscoped := (db.setConnection ref
          { connection with
            objectStoreSet := connection.objectStoreSet.erase store }).setTransaction upgrade
          { db.transaction upgrade with
            scope := (db.transaction upgrade).scope.erase store }
        let logged := unscoped.setTransaction owner
          { unscoped.transaction owner with
            storeMutationLogs := noteSchemaEntry store .objectStoreDeleted
              (unscoped.transaction owner).storeMutationLogs }
        some { logged with objectStores := db.objectStores.erase store }
    else none

def closeADatabaseConnection (ref : ConnectionRef) : Option Database :=
  if ref < db.connectionCount then
    some ((db.setConnection ref
      { db.connection ref with closePending := true }).waitForTransactionsToFinish ref
        (db.connection ref).transactions .connectionClosed)
  else none

/-! ## Requests and events -/

section
variable (db : Database) (ref : TransactionRef)

def placeRequest : Option Database :=
  let transaction := db.transaction ref
  if transaction.state = .active then
    some (db.setTransaction ref (maybeProcessNextRequest
      { transaction with
        requests := transaction.requests ++
          [{ id := transaction.requestCount, status := .waiting, aborted := false }]
        requestCount := transaction.requestCount + 1 }))
  else none

def hasRequest (id : Nat) (status : RequestStatus) : Bool :=
  (db.transaction ref).requests.any fun entry =>
    decide (entry.id = id) && decide (entry.status = status) && !entry.aborted

/-- Steps 5.1 to 5.6 of `asynchronously_execute_a_request`. -/
def executeRequest (id : Nat) (failed : Bool) : Option Database :=
  let transaction := db.transaction ref
  if db.hasRequest ref id .started then
    if failed && decide (transaction.state = .committing) then some (db.abortATransaction ref)
    else
      some (db.setTransaction ref (maybeProcessNextRequest
        { transaction with requests := markRequest id .processed transaction.requests }))
  else none

/-- The queued steps of 5.6, up to the dispatch of the event. -/
def completeRequest (id : Nat) : Option Database :=
  let transaction := db.transaction ref
  if db.hasRequest ref id .processed then
    some (db.setTransaction ref
      { transaction with
        requests := transaction.requests.filter fun entry => decide (entry.id ≠ id)
        state :=
          if transaction.state = .inactive then .active else transaction.state })
  else none

/-- The end of `fire_a_success_event` and `fire_an_error_event` when they do not
abort, and the check that follows them. -/
def endEvent : Database :=
  let transaction := db.transaction ref
  if transaction.state = .active then
    let left := db.setTransaction ref { transaction with state := .inactive }
    let committed :=
      if transaction.requests.isEmpty then left.commitATransaction ref else left
    committed.checkAllProcessed ref
  else db.checkAllProcessed ref

/-- The end of step 10 of `upgrade_a_database`, and step 11. -/
def endUpgradeEvent : Option Database :=
  let transaction := db.transaction ref
  if transaction.isUpgradeTransaction ∧ Task.upgradeNeeded ref ∉ db.tasks ∧
      ref < db.transactionCount then
    let left :=
      if transaction.state = .active then
        let inactive := db.setTransaction ref { transaction with state := .inactive }
        if transaction.requests.isEmpty && !transaction.aborted then
          inactive.commitATransaction ref
        else inactive
      else db
    some (left.waitForTransactionsToFinish transaction.connection [ref] .upgradeFinished)
  else none

/-- `clone_in_realm` up to the serialization, in which getters of the value run. -/
def beginClone : Option Database :=
  let transaction := db.transaction ref
  if transaction.state = .active then
    some { db.setTransaction ref { transaction with state := .inactive } with
      clones := ref :: db.clones }
  else none

/-- The scope guard of `clone_in_realm`, whatever the state is by then. -/
def endClone : Database :=
  { db.setTransaction ref { db.transaction ref with state := .active } with
    clones := db.clones.tail }

def cleanUp : Option Database :=
  let transaction := db.transaction ref
  if transaction.state = .active then
    let left := db.setTransaction ref { transaction with state := .inactive }
    if !transaction.blocked && transaction.requests.isEmpty then some (left.commitATransaction ref)
    else some left
  else none

end

/-! ## Tasks -/

def finishCommit : Option Database :=
  let transaction := db.transaction ref
  let released :=
    if transaction.isUpgradeTransaction then { db with upgradeTransaction := none } else db
  let discarded := released.discardMutationLogs ref
  (discarded.setTransaction ref
    { discarded.transaction ref with state := .finished }).checkPendingTransactionWaits
      transaction.connection

def abortDone : Option Database :=
  let transaction := db.transaction ref
  let released :=
    if transaction.isUpgradeTransaction then { db with upgradeTransaction := none } else db
  released.checkPendingTransactionWaits transaction.connection

def runTask : Option Database :=
  match db.tasks with
  | [] => none
  | task :: later =>
    let dequeued := { db with tasks := later }
    match task with
    | .finishCommit ref => dequeued.finishCommit ref
    | .abortDone ref => dequeued.abortDone ref
    | .upgradeNeeded ref =>
      some (dequeued.setTransaction ref { db.transaction ref with state := .active })
    | .callback ref callback => dequeued.runCallback ref callback

/-! ## Steps -/

inductive Action where
  | openConnection (version : Nat)
  | upgrade
  | createObjectStore (connection : ConnectionRef)
  | deleteObjectStore (connection : ConnectionRef) (store : StoreRef)
  | transaction (connection : ConnectionRef) (mode : TransactionMode)
      (scope : List StoreRef)
  | close (connection : ConnectionRef)
  | placeRequest (transaction : TransactionRef)
  | executeRequest (transaction : TransactionRef) (id : Nat) (failed : Bool)
  | completeRequest (transaction : TransactionRef) (id : Nat)
  | endEvent (transaction : TransactionRef)
  | endUpgradeEvent (transaction : TransactionRef)
  | cleanUp (transaction : TransactionRef)
  | beginClone (transaction : TransactionRef)
  | endClone (transaction : TransactionRef)
  | commit (transaction : TransactionRef)
  | abort (transaction : TransactionRef)
  | runTask

/-- `none` when the action is not possible, throws or fails a `VERIFY`. Script holds
an upgrade transaction only from its `upgradeneeded` event on. -/
def step : Action → Option Database
  | .openConnection version => db.openADatabaseConnection version
  | .upgrade => db.upgradeADatabase
  | .createObjectStore ref => db.createObjectStore ref
  | .deleteObjectStore ref store => db.deleteObjectStore ref store
  | .transaction ref mode scope => db.createTransaction ref mode scope
  | .close ref => db.closeADatabaseConnection ref
  | .placeRequest ref => db.placeRequest ref
  | .executeRequest ref id failed => db.executeRequest ref id failed
  | .completeRequest ref id => db.completeRequest ref id
  | .endEvent ref => some (db.endEvent ref)
  | .endUpgradeEvent ref => db.endUpgradeEvent ref
  | .cleanUp ref => db.cleanUp ref
  | .beginClone ref => db.beginClone ref
  | .endClone ref =>
    if db.clones.head? = some ref ∧ Task.upgradeNeeded ref ∉ db.tasks then
      some (db.endClone ref)
    else none
  | .commit ref =>
    if (db.transaction ref).state = .active then some (db.commitATransaction ref)
    else none
  | .abort ref =>
    if ((db.transaction ref).state = .active ∨ (db.transaction ref).state = .inactive) ∧
        Task.upgradeNeeded ref ∉ db.tasks then
      some (db.abortATransaction ref)
    else none
  | .runTask => db.runTask

def initial : Database where
  version := 0
  upgradeTransaction := none
  objectStores := []
  associatedConnections := []
  connection := fun _ =>
    { version := 0, closePending := false, closed := false, objectStoreSet := [],
      transactions := [], pendingTransactionWaits := [] }
  connectionCount := 0
  transaction := fun _ =>
    { connection := 0, mode := .readonly, state := .finished, aborted := false, scope := [],
      blocked := false, requests := [], requestCount := 0, onAllProcessed := false,
      storeMutationLogs := [], originalVersion := 0 }
  transactionCount := 0
  storeCount := 0
  mutationLog := fun _ => none
  pendingUpgrade := none
  tasks := []
  clones := []

end Database
end Ladybone.IndexedDB
