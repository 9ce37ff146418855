import Ladybone.IndexedDB.Transactions
import Mathlib.Data.List.Basic

/-!
# The schedule of a database

What the scheduler decides on, without requests, logs and versions: who owns which
transaction, who waits for whom, which tasks are queued. `Move` lists everything a
step can do to it. `Sane` is kept by every move; `Ordered`, the waiting discipline
behind isolation, is kept by every move that creates no transaction beside a
conflicting one of another connection.
-/

namespace Ladybone.IndexedDB

open Function List Option

structure Schedule where
  (transactionCount connectionCount : Nat)
  owner : TransactionRef → ConnectionRef
  mode : TransactionRef → TransactionMode
  finished : TransactionRef → Bool
  scope : TransactionRef → List StoreRef
  blocked : TransactionRef → Bool
  transactions : ConnectionRef → List TransactionRef
  waits : ConnectionRef → List PendingTransactionWait
  (closePending closed : ConnectionRef → Bool)
  associated : List ConnectionRef
  pending : Option (ConnectionRef × List ConnectionRef)
  upgrade : Option TransactionRef
  tasks : List Task

def Task.ends : Task → TransactionRef → Bool
  | .finishCommit other, ref => decide (other = ref)
  | .abortDone other, ref => decide (other = ref)
  | _, _ => false

namespace Schedule

variable (s : Schedule)

def conflict (t u : TransactionRef) : Prop :=
  ¬(s.mode t = .readonly ∧ s.mode u = .readonly) ∧ ∃ store ∈ s.scope t, store ∈ s.scope u

def allFinished (refs : List TransactionRef) : Bool :=
  refs.all s.finished

def WaitOk (c : ConnectionRef) (wait : PendingTransactionWait) : Prop :=
  match wait.callback with
  | .unblock u => u < s.transactionCount ∧ s.owner u = c ∧ s.mode u ≠ .versionchange
  | .connectionClosed => s.closePending c = true ∧
      ∀ t ∈ s.transactions c, t ∈ wait.transactions
  | .upgradeFinished => True

def TaskOk : Task → Prop
  | .finishCommit t => t < s.transactionCount
  | .abortDone t => t < s.transactionCount
  | .upgradeNeeded t => t < s.transactionCount ∧ s.mode t = .versionchange
  | .callback _ (.unblock _) => False
  | .callback c .connectionClosed => c < s.connectionCount ∧ s.closePending c = true ∧
      ∀ t ∈ s.transactions c, s.finished t = true
  | .callback _ .upgradeFinished => True

/-- Who owns what, who waits, and what closing a connection relies on. -/
structure Registry (s : Schedule) : Prop where
  born : ∀ t, s.finished t = false → t < s.transactionCount
  listed : ∀ c t, t ∈ s.transactions c ↔ t < s.transactionCount ∧ s.owner t = c
  ownerBorn : ∀ t < s.transactionCount, s.owner t < s.connectionCount
  waits : ∀ c, ∀ wait ∈ s.waits c, s.WaitOk c wait
  unbornWaits : ∀ c, s.connectionCount ≤ c → s.waits c = []
  tasks : ∀ task ∈ s.tasks, s.TaskOk task
  closed : ∀ c, s.closed c = true →
    s.closePending c = true ∧ ∀ t ∈ s.transactions c, s.finished t = true
  associated : ∀ c < s.connectionCount, s.closed c = true ∨ c ∈ s.associated

/-- The connection of a live upgrade is open and runs nothing else, and the upgrade
stays registered until its last task has run. -/
structure Sane (s : Schedule) : Prop extends Registry s where
  pending : ∀ c others, s.pending = some (c, others) → c < s.connectionCount ∧
    s.transactions c = [] ∧
      ∀ other < s.connectionCount, other = c ∨ s.closed other = true ∨ other ∈ others
  live : ∀ t, s.upgrade = some t → t < s.transactionCount ∧ s.mode t = .versionchange ∧
    s.transactions (s.owner t) = [t] ∧ s.closed (s.owner t) = false ∧
      ∀ u, u ≠ t → s.finished u = true
  registered : ∀ t < s.transactionCount, s.mode t = .versionchange →
    (s.upgrade = some t ↔ s.finished t = false ∨ ∃ task ∈ s.tasks, task.ends t = true)
  single : ∀ t, s.mode t = .versionchange → (s.tasks.filter fun task => task.ends t).length ≤ 1
  order : s.tasks.Pairwise fun earlier later => ∀ c t,
    earlier = .callback c .connectionClosed → later.ends t = true →
      s.mode t = .versionchange → s.owner t ≠ c

/-- An unfinished transaction is blocked while an earlier conflicting one is
unfinished, and waits for it. -/
def Ordered : Prop :=
  ∀ t u, t < u → s.finished t = false → s.finished u = false → s.conflict t u →
    s.blocked u = true ∧ ∀ wait ∈ s.waits (s.owner u), wait.callback = .unblock u →
      t ∈ wait.transactions

/-! ## Moves -/

section
variable (s : Schedule)

def queue (task : Task) : Schedule :=
  { s with tasks := s.tasks ++ [task] }

def addWait (c : ConnectionRef) (wait : PendingTransactionWait) : Schedule :=
  { s with waits := update s.waits c (s.waits c ++ [wait]) }

def waitFor (c : ConnectionRef) (refs : List TransactionRef) (callback : Callback) : Schedule :=
  if s.allFinished refs then s.queue (.callback c callback)
  else s.addWait c { transactions := refs, callback := callback }

def openConnection (waiting : Bool) : Schedule :=
  { s with
    connectionCount := s.connectionCount + 1
    transactions := update s.transactions s.connectionCount []
    waits := update s.waits s.connectionCount []
    closePending := update s.closePending s.connectionCount false
    closed := update s.closed s.connectionCount false
    associated := s.associated ++ [s.connectionCount]
    pending := if waiting then some (s.connectionCount, s.associated) else s.pending }

def addTransaction (c : ConnectionRef) (mode : TransactionMode)
    (scope : List StoreRef) : Schedule :=
  { s with
    transactionCount := s.transactionCount + 1
    owner := update s.owner s.transactionCount c
    mode := update s.mode s.transactionCount mode
    finished := update s.finished s.transactionCount false
    scope := update s.scope s.transactionCount scope
    blocked := update s.blocked s.transactionCount false
    transactions := update s.transactions c (s.transactions c ++ [s.transactionCount]) }

def addBlocked (c : ConnectionRef) (mode : TransactionMode)
    (scope : List StoreRef) (blocking : List TransactionRef) : Schedule :=
  { (s.addTransaction c mode scope).addWait c
      { transactions := blocking, callback := .unblock s.transactionCount } with
    blocked := update s.blocked s.transactionCount true }

def startUpgrade (c : ConnectionRef) (scope : List StoreRef) : Schedule :=
  { (s.addTransaction c .versionchange scope).queue (.upgradeNeeded s.transactionCount) with
    upgrade := some s.transactionCount
    pending := none }

def finish (t : TransactionRef) (scope : List StoreRef) : Schedule :=
  { s with finished := update s.finished t true, scope := update s.scope t scope }

def endHead (t : TransactionRef) : Schedule :=
  { s with
    tasks := s.tasks.tail
    finished := update s.finished t true
    upgrade := if s.mode t = .versionchange then none else s.upgrade }

def closeConnection (c : ConnectionRef) : Schedule :=
  { s with closed := update s.closed c true, associated := s.associated.erase c }

end

inductive Move : Schedule → Schedule → Prop where
  | openConnection (s : Schedule) (waiting : Bool) (idle : s.pending = none) :
      Move s (s.openConnection waiting)
  | create (s : Schedule) (c : ConnectionRef) (mode : TransactionMode)
      (scope : List StoreRef) (exists_ : c < s.connectionCount)
      (noUpgrade : s.upgrade = none) (isOpen : s.closePending c = false)
      (idle : ∀ others, s.pending ≠ some (c, others)) (plain : mode ≠ .versionchange)
      (free : ∀ t ∈ s.transactions c, s.finished t = false →
        ¬(s.addTransaction c mode scope).conflict t s.transactionCount) :
      Move s (s.addTransaction c mode scope)
  | createBlocked (s : Schedule) (c : ConnectionRef) (mode : TransactionMode)
      (scope : List StoreRef) (blocking : List TransactionRef)
      (exists_ : c < s.connectionCount) (noUpgrade : s.upgrade = none)
      (isOpen : s.closePending c = false) (idle : ∀ others, s.pending ≠ some (c, others))
      (plain : mode ≠ .versionchange)
      (covered : ∀ t ∈ s.transactions c, s.finished t = false →
        (s.addTransaction c mode scope).conflict t s.transactionCount → t ∈ blocking) :
      Move s (s.addBlocked c mode scope blocking)
  | startUpgrade (s : Schedule) (c : ConnectionRef) (others : List ConnectionRef)
      (scope : List StoreRef) (waiting : s.pending = some (c, others))
      (allClosed : ∀ other ∈ others, s.closed other = true)
      (isOpen : s.closePending c = false) :
      Move s (s.startUpgrade c scope)
  | rescope (s : Schedule) (t : TransactionRef) (scope : List StoreRef)
      (live : s.upgrade = some t) :
      Move s { s with scope := update s.scope t scope }
  | abort (s : Schedule) (t : TransactionRef) (scope : List StoreRef)
      (unfinished : s.finished t = false)
      (noEnd : s.mode t = .versionchange → ∀ task ∈ s.tasks, task.ends t = false) :
      Move s ((s.queue (.abortDone t)).finish t scope)
  | queueCommit (s : Schedule) (t : TransactionRef) (unfinished : s.finished t = false)
      (noEnd : s.mode t = .versionchange → ∀ task ∈ s.tasks, task.ends t = false) :
      Move s (s.queue (.finishCommit t))
  | close (s : Schedule) (c : ConnectionRef) (exists_ : c < s.connectionCount) :
      Move s ({ s with closePending := update s.closePending c true }.waitFor c
        (s.transactions c) .connectionClosed)
  | awaitUpgrade (s : Schedule) (c : ConnectionRef) (refs : List TransactionRef)
      (exists_ : c < s.connectionCount) : Move s (s.waitFor c refs .upgradeFinished)
  | popUpgradeNeeded (s : Schedule) (t : TransactionRef) (later : List Task)
      (head : s.tasks = .upgradeNeeded t :: later) : Move s { s with tasks := later }
  | popUpgradeFinished (s : Schedule) (c : ConnectionRef) (later : List Task)
      (head : s.tasks = .callback c .upgradeFinished :: later) :
      Move s { s with tasks := later }
  | popClosed (s : Schedule) (c : ConnectionRef) (later : List Task)
      (head : s.tasks = .callback c .connectionClosed :: later) :
      Move s ({ s with tasks := later }.closeConnection c)
  | popEnd (s : Schedule) (t : TransactionRef) (task : Task) (later : List Task)
      (head : s.tasks = task :: later) (ending : task.ends t = true) :
      Move s (s.endHead t)
  | unblock (s : Schedule) (u : TransactionRef) (wait : PendingTransactionWait)
      (unfinished : s.finished u = false) (member : wait ∈ s.waits (s.owner u))
      (callback : wait.callback = .unblock u)
      (done : s.allFinished wait.transactions = true) :
      Move s { s with blocked := update s.blocked u false }
  | closed (s : Schedule) (c : ConnectionRef) (wait : PendingTransactionWait)
      (member : wait ∈ s.waits c) (callback : wait.callback = .connectionClosed)
      (done : s.allFinished wait.transactions = true)
      (noUpgrade : ∀ t, s.upgrade = some t → s.owner t ≠ c) :
      Move s (s.closeConnection c)
  | dropWaits (s : Schedule) (c : ConnectionRef) (rest : List PendingTransactionWait)
      (kept : ∀ wait ∈ rest, wait ∈ s.waits c) :
      Move s { s with waits := update s.waits c rest }

/-! ## Sane schedules stay sane -/

variable {Ref : Type} {s next : Schedule} {task : Task} {t u : TransactionRef} {later : List Task}

theorem update_true_of_true [DecidableEq Ref] {flag : Ref → Bool} {here other : Ref}
    (holds : flag other = true) : update flag here true other = true := by
  by_cases same : other = here
  · rw [same, update_self]
  · rw [update_of_ne same, holds]

theorem false_of_update_true [DecidableEq Ref] {flag : Ref → Bool} {here other : Ref}
    (fails : update flag here true other = false) : other ≠ here ∧ flag other = false := by
  by_cases same : other = here
  · rw [same, update_self] at fails
    cases fails
  · rw [update_of_ne same] at fails
    exact ⟨same, fails⟩

/-- What a move may change without harming a queued task, a wait or a closed
connection: nothing that exists changes its mode or owner, what is finished stays so,
and a closing connection keeps its transactions. -/
structure Grows (s next : Schedule) : Prop where
  transactionCount : s.transactionCount ≤ next.transactionCount
  connectionCount : next.connectionCount = s.connectionCount
  born : ∀ t < s.transactionCount, next.mode t = s.mode t ∧ next.owner t = s.owner t
  closing : ∀ c, s.closePending c = true →
    next.closePending c = true ∧ next.transactions c = s.transactions c
  finished : ∀ c, ∀ t ∈ s.transactions c, s.finished t = true → next.finished t = true

variable {c : ConnectionRef} {mode : TransactionMode} {scope : List StoreRef}

theorem Grows.closed (grows : s.Grows next)
    (closed : s.closePending c = true ∧ ∀ t ∈ s.transactions c, s.finished t = true) :
    next.closePending c = true ∧ ∀ t ∈ next.transactions c, next.finished t = true := by
  obtain ⟨pending, same⟩ := grows.closing c closed.1
  rw [same]
  exact ⟨pending, fun t listed => grows.finished c t listed (closed.2 t listed)⟩

theorem Grows.task_ok (grows : s.Grows next) (ok : s.TaskOk task) : next.TaskOk task := by
  match task, ok with
  | .finishCommit _, ok | .abortDone _, ok => exact Nat.lt_of_lt_of_le ok grows.transactionCount
  | .upgradeNeeded t, ok =>
    exact ⟨Nat.lt_of_lt_of_le ok.1 grows.transactionCount, (grows.born t ok.1).1.trans ok.2⟩
  | .callback _ .upgradeFinished, _ => trivial
  | .callback c .connectionClosed, ok => exact ⟨grows.connectionCount ▸ ok.1, grows.closed ok.2⟩

theorem Grows.wait_ok {wait : PendingTransactionWait} (grows : s.Grows next)
    (ok : s.WaitOk c wait) : next.WaitOk c wait := by
  unfold WaitOk at ok ⊢
  split at ok
  · rw [(grows.born _ ok.1).1, (grows.born _ ok.1).2]
    exact ⟨Nat.lt_of_lt_of_le ok.1 grows.transactionCount, ok.2⟩
  · obtain ⟨pending, same⟩ := grows.closing c ok.1
    rw [same]
    exact ⟨pending, ok.2⟩
  · trivial

section
variable (sane : s.Sane)

include sane

theorem Sane.queue (task : Task) (ok : s.TaskOk task)
    (ending : ∀ t, task.ends t = true → s.mode t = .versionchange →
      s.finished t = false ∧ ∀ other ∈ s.tasks, other.ends t = false) :
    (s.queue task).Sane := by
  refine { sane with tasks := ?_, registered := ?_, single := ?_, order := ?_ }
  · exact forall_mem_append.mpr ⟨sane.tasks, forall_mem_singleton.mpr ok⟩
  · intro t inside isUpgrade
    rw [show (s.queue task).upgrade = s.upgrade from rfl, sane.registered t inside isUpgrade]
    simp only [Schedule.queue, mem_append, or_and_right, exists_or, mem_singleton, exists_eq_left]
    constructor
    · exact Or.imp_right .inl
    · rintro (runs | old | ends)
      · exact .inl runs
      · exact .inr old
      · exact .inl (ending t ends isUpgrade).1
  · intro t isUpgrade
    change ((s.tasks ++ [task]).filter fun other => other.ends t).length ≤ 1
    rw [filter_append]
    by_cases ends : task.ends t = true
    · have none : (s.tasks.filter fun other => other.ends t) = [] := by
        simpa [filter_eq_nil_iff] using (ending t ends isUpgrade).2
      rw [none]
      exact length_filter_le _ _
    · have skipped : ([task].filter fun other => other.ends t) = [] := by simp [ends]
      rw [skipped, append_nil]
      exact sane.single t isUpgrade
  · apply pairwise_append.mpr
    refine ⟨sane.order, pairwise_singleton _ _, ?_⟩
    intro earlier mem later new c t isClose ends isUpgrade owned
    rw [mem_singleton.mp new] at ends
    have ok := sane.tasks earlier mem
    rw [isClose] at ok
    have runs := (ending t ends isUpgrade).1
    have listed := (sane.listed c t).mpr ⟨sane.born t runs, owned⟩
    rw [ok.2.2 t listed] at runs
    cases runs

omit sane in
theorem Registry.conclude (registry : s.Registry) (t : TransactionRef)
    (scope : TransactionRef → List StoreRef) (upgrade : Option TransactionRef)
    (sub : ∀ task ∈ later, task ∈ s.tasks) :
    Registry { s with
      finished := update s.finished t true, scope := scope, upgrade := upgrade,
      tasks := later } := by
  have grows : s.Grows { s with
      finished := update s.finished t true, scope := scope, upgrade := upgrade, tasks := later } :=
    ⟨Nat.le_refl _, rfl, fun _ _ => ⟨rfl, rfl⟩, fun _ pending => ⟨pending, rfl⟩,
      fun _ u _ done => update_true_of_true done⟩
  exact { registry with
    born := fun u runs => registry.born u (false_of_update_true runs).2
    tasks := fun task mem => grows.task_ok (registry.tasks task (sub task mem))
    closed := fun c isClosed => grows.closed (registry.closed c isClosed) }

theorem Sane.finish (scope : List StoreRef)
    (ended : s.mode t = .versionchange → ∃ task ∈ s.tasks, task.ends t = true) :
    (s.finish t scope).Sane := by
  refine { sane with toRegistry := ?_, live := ?_, registered := ?_ }
  · exact sane.toRegistry.conclude t _ s.upgrade fun _ mem => mem
  · intro u isLive
    obtain ⟨inside, isUpgrade, alone, isOpen, others⟩ := sane.live u isLive
    exact ⟨inside, isUpgrade, alone, isOpen, fun v apart => update_true_of_true (others v apart)⟩
  · intro u inside isUpgrade
    rw [show (s.finish t scope).upgrade = s.upgrade from rfl, sane.registered u inside isUpgrade]
    by_cases same : u = t
    · subst same
      have task := ended isUpgrade
      exact ⟨fun _ => .inr task, fun _ => .inr task⟩
    · rw [show (s.finish t scope).finished u = s.finished u from update_of_ne same _ _]
      rfl

theorem Sane.set_waits {waits : List PendingTransactionWait} (ok : ∀ wait ∈ waits, s.WaitOk c wait)
    (unborn : s.connectionCount ≤ c → waits = []) :
    Sane { s with waits := update s.waits c waits } :=
  { sane with
    waits := (forall_update_iff s.waits fun c waits => ∀ wait ∈ waits, s.WaitOk c wait).mpr
      ⟨ok, fun other _ => sane.waits other⟩
    unbornWaits := (forall_update_iff s.waits fun c waits =>
      s.connectionCount ≤ c → waits = []).mpr ⟨unborn, fun other _ => sane.unbornWaits other⟩ }

theorem Sane.add_wait (wait : PendingTransactionWait) (inside : c < s.connectionCount)
    (ok : s.WaitOk c wait) : (s.addWait c wait).Sane :=
  sane.set_waits
    (forall_mem_append.mpr ⟨sane.waits c, forall_mem_singleton.mpr ok⟩)
    fun unborn => absurd inside (Nat.not_lt.mpr unborn)

theorem Sane.drop_waits {rest : List PendingTransactionWait}
    (kept : ∀ wait ∈ rest, wait ∈ s.waits c) : Sane { s with waits := update s.waits c rest } := by
  apply sane.set_waits (fun wait mem => sane.waits c wait (kept wait mem))
  intro unborn
  rw [sane.unbornWaits c unborn] at kept
  exact eq_nil_iff_forall_not_mem.mpr fun wait mem => not_mem_nil (kept wait mem)

theorem Sane.set_close_pending : Sane { s with closePending := update s.closePending c true } := by
  have grows : s.Grows { s with closePending := update s.closePending c true } :=
    ⟨Nat.le_refl _, rfl, fun _ _ => ⟨rfl, rfl⟩,
      fun other pending => ⟨update_true_of_true pending, rfl⟩,
      fun _ _ _ done => done⟩
  exact { sane with
    waits := fun other wait mem => grows.wait_ok (sane.waits other wait mem)
    tasks := fun task mem => grows.task_ok (sane.tasks task mem)
    closed := fun other isClosed => grows.closed (sane.closed other isClosed) }

theorem Sane.wait_for {refs : List TransactionRef} {callback : Callback}
    (inside : c < s.connectionCount)
    (waitOk : s.WaitOk c { transactions := refs, callback := callback })
    (taskOk : s.allFinished refs = true → s.TaskOk (.callback c callback)) :
    (s.waitFor c refs callback).Sane := by
  unfold waitFor
  split_ifs with done
  · apply sane.queue _ (taskOk done)
    intro t ends
    exact absurd ends (by simp [Task.ends])
  · exact sane.add_wait _ inside waitOk

theorem Sane.close (inside : c < s.connectionCount) :
    ({ s with closePending := update s.closePending c true }.waitFor c
      (s.transactions c) .connectionClosed).Sane := by
  apply sane.set_close_pending.wait_for inside
  · exact ⟨update_self c true s.closePending, fun _ listed => listed⟩
  · intro done
    refine ⟨inside, update_self c true s.closePending, ?_⟩
    intro t listed
    exact all_eq_true.mp done t listed

theorem Sane.close_connection (pending : s.closePending c = true)
    (done : ∀ t ∈ s.transactions c, s.finished t = true)
    (noUpgrade : ∀ t, s.upgrade = some t → s.owner t ≠ c) : (s.closeConnection c).Sane := by
  have stays : ∀ other, s.closed other = true → (s.closeConnection c).closed other = true :=
    fun other holds => update_true_of_true holds
  refine { sane with closed := ?_, associated := ?_, pending := ?_, live := ?_ }
  · exact (forall_update_iff s.closed fun c isClosed => isClosed = true →
      s.closePending c = true ∧ ∀ t ∈ s.transactions c, s.finished t = true).mpr
        ⟨fun _ => ⟨pending, done⟩, fun other _ => sane.closed other⟩
  · intro other inside
    by_cases same : other = c
    · rw [same]
      exact .inl (update_self c _ s.closed)
    · exact (sane.associated other inside).imp (stays other) (mem_erase_of_ne same).mpr
  · intro waiting others isPending
    obtain ⟨inside, alone, rest⟩ := sane.pending waiting others isPending
    exact ⟨inside, alone, fun other born => (rest other born).imp_right (Or.imp_left (stays other))⟩
  · intro t isLive
    obtain ⟨inside, isUpgrade, alone, isOpen, others⟩ := sane.live t isLive
    have unchanged : (s.closeConnection c).closed (s.owner t) = s.closed (s.owner t) :=
      update_of_ne (noUpgrade t isLive) _ _
    exact ⟨inside, isUpgrade, alone, unchanged.trans isOpen, others⟩

theorem Sane.pop (head : s.tasks = task :: later) (plain : ∀ t, task.ends t = false) :
    Sane { s with tasks := later } := by
  refine { sane with tasks := ?_, registered := ?_, single := ?_, order := ?_ }
  · intro other mem
    exact sane.tasks other (head ▸ mem_cons_of_mem _ mem)
  · intro t inside isUpgrade
    rw [sane.registered t inside isUpgrade, head]
    simp [plain t]
  · intro t isUpgrade
    have bound := sane.single t isUpgrade
    rw [head, filter_cons_of_neg (by rw [plain t]; decide)] at bound
    exact bound
  · have order := sane.order
    rw [head] at order
    exact (pairwise_cons.mp order).2

theorem Sane.pop_closed (head : s.tasks = .callback c .connectionClosed :: later) :
    ({ s with tasks := later }.closeConnection c).Sane := by
  have ok := sane.tasks (.callback c .connectionClosed) (by rw [head]; exact mem_cons_self)
  apply (sane.pop head (fun _ => rfl)).close_connection ok.2.1 ok.2.2
  intro t isLive owned
  obtain ⟨inside, isUpgrade, _⟩ := sane.live t isLive
  have done := ok.2.2 t ((sane.listed c t).mpr ⟨inside, owned⟩)
  rcases (sane.registered t inside isUpgrade).mp isLive with runs | ⟨task, mem, ends⟩
  · rw [done] at runs
    cases runs
  · have order := sane.order
    rw [head] at mem order
    rcases mem_cons.mp mem with same | behind
    · rw [same] at ends
      exact absurd ends (by simp [Task.ends])
    · exact (pairwise_cons.mp order).1 task behind c t rfl ends isUpgrade owned

omit sane in
theorem Task.ends_unique (first : task.ends t = true) (second : task.ends u = true) : t = u := by
  cases task with
  | finishCommit | abortDone =>
    exact (of_decide_eq_true first).symm.trans (of_decide_eq_true second)
  | upgradeNeeded | callback => exact absurd first (by simp [Task.ends])

theorem Sane.no_later_end (head : s.tasks = task :: later) (ending : task.ends t = true)
    (isUpgrade : s.mode t = .versionchange) : ∀ other ∈ later, other.ends t = false := by
  have bound := sane.single t isUpgrade
  rw [head, filter_cons, if_pos ending, length_cons] at bound
  have none : (later.filter fun other => other.ends t) = [] :=
    eq_nil_of_length_eq_zero (by omega)
  intro other mem
  exact Bool.eq_false_iff.mpr (filter_eq_nil_iff.mp none other mem)

omit sane in
theorem Registry.end_born (registry : s.Registry) (mem : task ∈ s.tasks)
    (ending : task.ends t = true) : t < s.transactionCount := by
  have ok := registry.tasks task mem
  cases task with
  | finishCommit | abortDone => exact of_decide_eq_true ending ▸ ok
  | upgradeNeeded | callback => exact absurd ending (by simp [Task.ends])

theorem Sane.end_head (head : s.tasks = task :: later) (ending : task.ends t = true) :
    (s.endHead t).Sane := by
  have atHead : task ∈ s.tasks := by
    rw [head]
    exact mem_cons_self
  have inside := sane.end_born atHead ending
  have tailIs : s.tasks.tail = later := by rw [head]; rfl
  refine { sane with
    toRegistry := ?_, live := ?_, registered := ?_, single := ?_, order := ?_ }
  · exact sane.toRegistry.conclude t s.scope _ fun _ mem => mem_of_mem_tail mem
  · intro u isLive
    have still : s.upgrade = some u := by
      change (if s.mode t = .versionchange then none else s.upgrade) = some u at isLive
      split_ifs at isLive
      exact isLive
    obtain ⟨born, isUpgrade, alone, isOpen, others⟩ := sane.live u still
    exact ⟨born, isUpgrade, alone, isOpen, fun v apart => update_true_of_true (others v apart)⟩
  · intro u born isUpgrade
    have registered := sane.registered u born isUpgrade
    rw [head] at registered
    change (if s.mode t = .versionchange then none else s.upgrade) = some u ↔
      update s.finished t true u = false ∨ ∃ other ∈ s.tasks.tail, other.ends u = true
    rw [tailIs]
    by_cases same : u = t
    · subst same
      have endsUpgrade : s.mode u = .versionchange := isUpgrade
      have none := sane.no_later_end head ending isUpgrade
      rw [if_pos endsUpgrade]
      simpa using none
    · have headElsewhere : task.ends u = false :=
        Bool.eq_false_iff.mpr fun ends => same (Task.ends_unique ends ending)
      rw [update_of_ne same]
      simp only [exists_mem_cons_iff, headElsewhere, Bool.false_eq_true, false_or] at registered
      split_ifs with endsUpgrade
      · -- The registered upgrade is `t`, so `u` was over before.
        have isT : s.upgrade = some t := (sane.registered t inside endsUpgrade).mpr
          (.inr ⟨task, atHead, ending⟩)
        rw [← registered, isT]
        simp only [some.injEq, false_iff]
        exact fun equal => same equal.symm
      · exact registered
  · intro u isUpgrade
    have sub : s.tasks.tail.Sublist s.tasks := tail_sublist _
    exact Nat.le_trans (sub.filter _).length_le (sane.single u isUpgrade)
  · exact sane.order.sublist (tail_sublist _)

theorem Sane.end_head_upgrade (head : s.tasks = task :: later) (ending : task.ends t = true)
    (isLive : (s.endHead t).upgrade = some u) : s.owner u ≠ s.owner t := by
  change (if s.mode t = .versionchange then none else s.upgrade) = some u at isLive
  split_ifs at isLive with endsUpgrade
  obtain ⟨_, isUpgrade, alone, _⟩ := sane.live u isLive
  have atHead : task ∈ s.tasks := by
    rw [head]
    exact mem_cons_self
  intro owned
  have listed := (sane.listed (s.owner u) t).mpr ⟨sane.end_born atHead ending, owned.symm⟩
  rw [alone, mem_singleton] at listed
  exact endsUpgrade (listed ▸ isUpgrade)

theorem Sane.open_connection (waiting : Bool) (idle : s.pending = none) :
    (s.openConnection waiting).Sane := by
  have old : ∀ c < s.connectionCount, c ≠ s.connectionCount := fun c inside => Nat.ne_of_lt inside
  have associated : ∀ c < s.connectionCount + 1, c ≠ s.connectionCount →
      update s.closed s.connectionCount false c = true ∨ c ∈ s.associated := by
    intro c inside different
    rw [update_of_ne different]
    exact sane.associated c (Nat.lt_of_le_of_ne (Nat.le_of_lt_succ inside) different)
  refine { sane with
    listed := ?_, ownerBorn := ?_, waits := ?_, unbornWaits := ?_, tasks := ?_, closed := ?_
    associated := ?_, pending := ?_, live := ?_ }
  · refine (forall_update_iff s.transactions fun c listed => ∀ t, t ∈ listed ↔
      t < s.transactionCount ∧ s.owner t = c).mpr ⟨?_, fun c _ => sane.listed c⟩
    intro t
    simp only [not_mem_nil, false_iff, not_and]
    exact fun born => old _ (sane.ownerBorn t born)
  · intro t born
    exact Nat.lt_succ_of_lt (sane.ownerBorn t born)
  · refine (forall_update_iff s.waits fun c waits => ∀ wait ∈ waits,
      (s.openConnection waiting).WaitOk c wait).mpr ⟨by simp, ?_⟩
    intro c different wait mem
    have ok := sane.waits c wait mem
    unfold WaitOk at ok ⊢
    simp only [openConnection, update_of_ne different]
    exact ok
  · exact (forall_update_iff s.waits fun c waits => s.connectionCount + 1 ≤ c → waits = []).mpr
      ⟨fun _ => rfl, fun c _ unborn => sane.unbornWaits c (Nat.le_of_succ_le unborn)⟩
  · intro task mem
    have ok := sane.tasks task mem
    match task, ok with
    | .finishCommit _, ok | .abortDone _, ok | .upgradeNeeded _, ok
    | .callback _ .upgradeFinished, ok => exact ok
    | .callback c .connectionClosed, ok =>
      simp only [TaskOk, openConnection, update_of_ne (old c ok.1)]
      exact ⟨Nat.lt_succ_of_lt ok.1, ok.2⟩
  · refine (forall_update_iff s.closed fun c isClosed => isClosed = true →
      (s.openConnection waiting).closePending c = true ∧
        ∀ t ∈ (s.openConnection waiting).transactions c, s.finished t = true).mpr ⟨by simp, ?_⟩
    intro c different isClosed
    simp only [openConnection, update_of_ne different]
    exact sane.closed c isClosed
  · intro c inside
    by_cases same : c = s.connectionCount
    · rw [same]
      exact .inr (mem_append_right _ (mem_singleton.mpr rfl))
    · exact (associated c inside same).imp_right (mem_append_left _)
  · intro c others isPending
    simp only [openConnection, idle] at isPending
    split_ifs at isPending
    obtain ⟨rfl, rfl⟩ := Prod.mk.inj (some.inj isPending)
    refine ⟨Nat.lt_succ_self _, update_self _ _ _, ?_⟩
    intro other inside
    by_cases same : other = s.connectionCount
    · exact .inl same
    · exact .inr (associated other inside same)
  · intro t isLive
    obtain ⟨born, isUpgrade, alone, isOpen, others⟩ := sane.live t isLive
    have elsewhere := old _ (sane.ownerBorn t born)
    simp only [openConnection, update_of_ne elsewhere]
    exact ⟨born, isUpgrade, alone, isOpen, others⟩

omit sane in
theorem Registry.add_transaction (registry : s.Registry) (mode : TransactionMode)
    (scope : List StoreRef) (inside : c < s.connectionCount) (isOpen : s.closePending c = false) :
    (s.addTransaction c mode scope).Registry := by
  have grows : s.Grows (s.addTransaction c mode scope) := by
    refine ⟨Nat.le_succ _, rfl, ?_, ?_, ?_⟩
    · intro t born
      exact ⟨update_of_ne (Nat.ne_of_lt born) _ _, update_of_ne (Nat.ne_of_lt born) _ _⟩
    · intro other pending
      refine ⟨pending, update_of_ne ?_ _ _⟩
      rintro rfl
      cases isOpen.symm.trans pending
    · intro other t listed done
      have born := ((registry.listed other t).mp listed).1
      exact (update_of_ne (Nat.ne_of_lt born) _ _).trans done
  refine { registry with
    born := ?_
    listed := ?_
    ownerBorn := ?_
    waits := fun other wait mem => grows.wait_ok (registry.waits other wait mem)
    tasks := fun task mem => grows.task_ok (registry.tasks task mem)
    closed := fun other isClosed => grows.closed (registry.closed other isClosed) }
  · exact (forall_update_iff s.finished fun t done =>
      done = false → t < s.transactionCount + 1).mpr
        ⟨fun _ => Nat.lt_succ_self _, fun t _ runs => Nat.lt_succ_of_lt (registry.born t runs)⟩
  · intro other t
    have mem : t ∈ (s.addTransaction c mode scope).transactions other ↔
        t ∈ s.transactions other ∨ (other = c ∧ t = s.transactionCount) := by
      by_cases same : other = c
      · subst same
        simp [addTransaction]
      · simp [addTransaction, same]
    rw [mem, registry.listed]
    by_cases new : t = s.transactionCount
    · subst new
      simp [addTransaction, eq_comm]
    · simp only [addTransaction, update_of_ne new, new, and_false, or_false]
      have bound : t < s.transactionCount + 1 ↔ t < s.transactionCount :=
        ⟨fun born => Nat.lt_of_le_of_ne (Nat.le_of_lt_succ born) new, Nat.lt_succ_of_lt⟩
      rw [bound]
  · exact (forall_update_iff s.owner fun t owner =>
      t < s.transactionCount + 1 → owner < s.connectionCount).mpr
        ⟨fun _ => inside, fun t new born =>
          registry.ownerBorn t (Nat.lt_of_le_of_ne (Nat.le_of_lt_succ born) new)⟩

theorem Sane.add_transaction (scope : List StoreRef) (inside : c < s.connectionCount)
    (noUpgrade : s.upgrade = none) (isOpen : s.closePending c = false)
    (idle : ∀ others, s.pending ≠ some (c, others)) (plain : mode ≠ .versionchange) :
    (s.addTransaction c mode scope).Sane := by
  have notNew : ∀ t, (s.addTransaction c mode scope).mode t = .versionchange →
      t ≠ s.transactionCount := by
    intro t isUpgrade same
    rw [same] at isUpgrade
    exact plain (by simpa [addTransaction] using isUpgrade)
  have oldMode : ∀ t, (s.addTransaction c mode scope).mode t = .versionchange →
      s.mode t = .versionchange := by
    intro t isUpgrade
    rw [← isUpgrade]
    exact (update_of_ne (notNew t isUpgrade) _ _).symm
  refine { sane.toRegistry.add_transaction mode scope inside isOpen with
    pending := ?_, live := ?_, registered := ?_, single := ?_, order := ?_ }
  · intro other others isPending
    have different : other ≠ c := fun same => idle others (same ▸ isPending)
    simp only [addTransaction, update_of_ne different]
    exact sane.pending other others isPending
  · intro t isLive
    cases (noUpgrade.symm.trans isLive)
  · intro t born isUpgrade
    have new := notNew t isUpgrade
    simp only [addTransaction, update_of_ne new]
    exact sane.registered t (Nat.lt_of_le_of_ne (Nat.le_of_lt_succ born) new) (oldMode t isUpgrade)
  · intro t isUpgrade
    exact sane.single t (oldMode t isUpgrade)
  · apply sane.order.imp
    intro earlier later ordered other t isClose ends isUpgrade
    simp only [addTransaction, update_of_ne (notNew t isUpgrade)]
    exact ordered other t isClose ends (oldMode t isUpgrade)

theorem Sane.add_blocked (scope : List StoreRef) (blocking : List TransactionRef)
    (inside : c < s.connectionCount) (noUpgrade : s.upgrade = none)
    (isOpen : s.closePending c = false) (idle : ∀ others, s.pending ≠ some (c, others))
    (plain : mode ≠ .versionchange) : (s.addBlocked c mode scope blocking).Sane := by
  have added := sane.add_transaction scope inside noUpgrade isOpen idle plain
  have waiting := added.add_wait
    { transactions := blocking, callback := .unblock s.transactionCount } inside
    (by simpa [WaitOk, addTransaction] using plain)
  exact { waiting with }

theorem Sane.upgrade_alone {others : List ConnectionRef} (waiting : s.pending = some (c, others))
    (allClosed : ∀ other ∈ others, s.closed other = true) :
    s.upgrade = none ∧ ∀ t, s.finished t = true := by
  obtain ⟨_, empty, rest⟩ := sane.pending c others waiting
  have elsewhere : ∀ t < s.transactionCount, s.closed (s.owner t) = true := by
    intro t born
    rcases rest (s.owner t) (sane.ownerBorn t born) with same | isClosed | mem
    · have listed := (sane.listed (s.owner t) t).mpr ⟨born, rfl⟩
      rw [same, empty] at listed
      exact absurd listed not_mem_nil
    · exact isClosed
    · exact allClosed _ mem
  constructor
  · cases isLive : s.upgrade with
    | none => rfl
    | some t =>
      obtain ⟨born, _, _, isOpen, _⟩ := sane.live t isLive
      rw [elsewhere t born] at isOpen
      cases isOpen
  · intro t
    cases runs : s.finished t with
    | true => rfl
    | false =>
      have born := sane.born t runs
      have done := (sane.closed _ (elsewhere t born)).2 t ((sane.listed _ t).mpr ⟨born, rfl⟩)
      exact runs.symm.trans done

theorem Sane.start_upgrade {others : List ConnectionRef} (waiting : s.pending = some (c, others))
    (allClosed : ∀ other ∈ others, s.closed other = true) (isOpen : s.closePending c = false) :
    (s.startUpgrade c scope).Sane := by
  obtain ⟨inside, empty, _⟩ := sane.pending c others waiting
  obtain ⟨noUpgrade, allFinished⟩ := sane.upgrade_alone waiting allClosed
  have registry := sane.toRegistry.add_transaction .versionchange scope inside isOpen
  have noEnd : ∀ t, (s.startUpgrade c scope).mode t = .versionchange →
      ∀ task ∈ (s.startUpgrade c scope).tasks, task.ends t = false := by
    intro t isUpgrade
    refine forall_mem_append.mpr ⟨?_, forall_mem_singleton.mpr rfl⟩
    intro task mem
    rw [Bool.eq_false_iff]
    intro ends
    have born := sane.end_born mem ends
    have oldMode : s.mode t = .versionchange := by
      rw [← isUpgrade]
      exact (update_of_ne (Nat.ne_of_lt born) _ _).symm
    have isLive := (sane.registered t born oldMode).mpr (.inr ⟨task, mem, ends⟩)
    rw [noUpgrade] at isLive
    cases isLive
  refine { registry with
    tasks := ?_, pending := ?_, live := ?_, registered := ?_, single := ?_, order := ?_ }
  · exact forall_mem_append.mpr ⟨registry.tasks,
      forall_mem_singleton.mpr ⟨Nat.lt_succ_self _, update_self _ _ _⟩⟩
  · intro other rest isPending
    exact absurd isPending (by simp [startUpgrade])
  · intro t isLive
    obtain rfl : s.transactionCount = t := some.inj isLive
    have stillOpen : s.closed c = false := by
      rw [Bool.eq_false_iff]
      intro isClosed
      rw [(sane.closed c isClosed).1] at isOpen
      cases isOpen
    simp +contextual [startUpgrade, addTransaction, Schedule.queue, empty, stillOpen, allFinished]
  · intro t born isUpgrade
    by_cases same : t = s.transactionCount
    · subst same
      simp [startUpgrade, addTransaction, Schedule.queue]
    · have finished : (s.startUpgrade c scope).finished t = true :=
        (update_of_ne same _ _).trans (allFinished t)
      rw [finished]
      constructor
      · intro isLive
        exact absurd (some.inj isLive).symm same
      · simp +contextual [noEnd t isUpgrade]
  · intro t isUpgrade
    have none : ((s.startUpgrade c scope).tasks.filter fun task => task.ends t) = [] := by
      simpa [filter_eq_nil_iff] using noEnd t isUpgrade
    rw [none]
    exact Nat.zero_le _
  · apply pairwise_iff_forall_sublist.mpr
    intro earlier later pair other t _ ends isUpgrade
    have mem : later ∈ (s.startUpgrade c scope).tasks :=
      pair.subset (mem_cons_of_mem _ (mem_singleton.mpr rfl))
    rw [noEnd t isUpgrade later mem] at ends
    cases ends

theorem Sane.move (move : s.Move next) : next.Sane := by
  cases move with
  | openConnection waiting idle => exact sane.open_connection waiting idle
  | create c mode scope inside noUpgrade isOpen idle plain =>
    exact sane.add_transaction scope inside noUpgrade isOpen idle plain
  | createBlocked c mode scope blocking inside noUpgrade isOpen idle plain =>
    exact sane.add_blocked scope blocking inside noUpgrade isOpen idle plain
  | startUpgrade c others scope waiting allClosed isOpen =>
    exact sane.start_upgrade waiting allClosed isOpen
  | rescope | unblock => exact { sane with }
  | abort t scope unfinished noEnd =>
    have queued := sane.queue (.abortDone t) (sane.born t unfinished) (by
      intro u ends isUpgrade
      obtain rfl : t = u := of_decide_eq_true ends
      exact ⟨unfinished, noEnd isUpgrade⟩)
    apply queued.finish scope
    intro _
    exact ⟨.abortDone t, mem_append_right _ (mem_singleton.mpr rfl), decide_eq_true rfl⟩
  | queueCommit t unfinished noEnd =>
    apply sane.queue (.finishCommit t) (sane.born t unfinished)
    intro u ends isUpgrade
    obtain rfl : t = u := of_decide_eq_true ends
    exact ⟨unfinished, noEnd isUpgrade⟩
  | close c inside => exact sane.close inside
  | awaitUpgrade c refs inside =>
    exact sane.wait_for inside trivial fun _ => trivial
  | popUpgradeNeeded _ later head | popUpgradeFinished _ later head =>
    exact sane.pop head fun _ => rfl
  | popClosed c later head => exact sane.pop_closed head
  | popEnd t task later head ending => exact sane.end_head head ending
  | closed c wait mem cb done noUpgrade =>
    have ok := sane.waits c wait mem
    rw [WaitOk, cb] at ok
    apply sane.close_connection ok.1 _ noUpgrade
    intro t listed
    exact all_eq_true.mp done t (ok.2 t listed)
  | dropWaits c rest kept => exact sane.drop_waits kept

end

/-- An aborted transaction is finished before its last task runs. -/
def AbortsFinished : Prop :=
  ∀ t, Task.abortDone t ∈ s.tasks → s.finished t = true

theorem AbortsFinished.queue (aborts : s.AbortsFinished) (other : ∀ t, task ≠ .abortDone t) :
    (s.queue task).AbortsFinished := by
  intro t mem
  rcases mem_append.mp mem with old | new
  · exact aborts t old
  · exact absurd (mem_singleton.mp new).symm (other t)

theorem AbortsFinished.wait_for (aborts : s.AbortsFinished) (c : ConnectionRef)
    (refs : List TransactionRef) (cb : Callback) :
    (s.waitFor c refs cb).AbortsFinished := by
  unfold waitFor
  split_ifs
  · exact aborts.queue (by simp)
  · exact aborts

theorem AbortsFinished.move (sane : s.Sane) (aborts : s.AbortsFinished) (move : s.Move next) :
    next.AbortsFinished := by
  -- The queue names no transaction that does not exist yet.
  have created : ∀ t, Task.abortDone t ∈ s.tasks →
      update s.finished s.transactionCount false t = true := by
    intro t mem
    rw [update_of_ne (Nat.ne_of_lt (sane.tasks _ mem))]
    exact aborts t mem
  cases move with
  | openConnection | rescope | unblock | closed | dropWaits => exact aborts
  | create | createBlocked => exact created
  | startUpgrade =>
    intro t mem
    rcases mem_append.mp mem with old | new
    · exact created t old
    · cases (mem_singleton.mp new)
  | abort t =>
    intro u mem
    rcases mem_append.mp mem with old | new
    · exact update_true_of_true (aborts u old)
    · obtain rfl : u = t := Task.abortDone.inj (mem_singleton.mp new)
      exact update_self u true s.finished
  | queueCommit => exact aborts.queue (by simp)
  | close c =>
    exact AbortsFinished.wait_for
      (s := { s with closePending := update s.closePending c true }) aborts c _ _
  | awaitUpgrade c refs => exact aborts.wait_for c refs _
  | popUpgradeNeeded _ _ head | popUpgradeFinished _ _ head | popClosed _ _ head =>
    intro u mem
    exact aborts u (head ▸ mem_cons_of_mem _ mem)
  | popEnd t =>
    intro u mem
    exact update_true_of_true (aborts u (mem_of_mem_tail mem))

/-! ## The waiting discipline -/

theorem Ordered.set_waits (order : s.Ordered) {waits : ConnectionRef → List PendingTransactionWait}
    (kept : ∀ u, s.finished u = false → ∀ wait ∈ waits (s.owner u),
      wait.callback = .unblock u → wait ∈ s.waits (s.owner u)) :
    Ordered { s with waits := waits } := by
  intro t u before runningT runningU clash
  obtain ⟨isBlocked, waiting⟩ := order t u before runningT runningU clash
  exact ⟨isBlocked, fun wait mem cb =>
    waiting wait (kept u runningU wait mem cb) cb⟩

theorem Ordered.wait_for (order : s.Ordered) (c : ConnectionRef) (refs : List TransactionRef)
    (cb : Callback) (other : ∀ u, cb ≠ .unblock u) :
    (s.waitFor c refs cb).Ordered := by
  unfold waitFor
  split_ifs with done
  · exact order
  · apply order.set_waits
    intro u _ wait mem isUnblock
    by_cases same : s.owner u = c
    · rw [same, update_self] at mem
      rcases mem_append.mp mem with old | new
      · rwa [same]
      · rw [mem_singleton.mp new] at isUnblock
        exact absurd isUnblock (other u)
    · rwa [update_of_ne same] at mem

/-- No transaction is created while another connection has an unfinished one that
conflicts with it. -/
def NoForeignConflict (s next : Schedule) : Prop :=
  ∀ t u, s.finished t = false → s.transactionCount ≤ u → next.finished u = false →
    next.owner t ≠ next.owner u → ¬next.conflict t u

theorem add_transaction_conflict (c : ConnectionRef) (mode : TransactionMode)
    (scope : List StoreRef) (oldT : t < s.transactionCount) (oldU : u < s.transactionCount) :
    (s.addTransaction c mode scope).conflict t u ↔ s.conflict t u := by
  unfold conflict
  simp [addTransaction, update_of_ne (Nat.ne_of_lt oldT), update_of_ne (Nat.ne_of_lt oldU)]

theorem Ordered.finish (order : s.Ordered) {scope : TransactionRef → List StoreRef}
    (elsewhere : ∀ u, u ≠ t → scope u = s.scope u) :
    Ordered { s with finished := update s.finished t true, scope := scope } := by
  intro first second before runningFirst runningSecond clash
  obtain ⟨apartFirst, stillFirst⟩ := false_of_update_true runningFirst
  obtain ⟨apartSecond, stillSecond⟩ := false_of_update_true runningSecond
  apply order first second before stillFirst stillSecond
  unfold conflict at clash ⊢
  rwa [← elsewhere first apartFirst, ← elsewhere second apartSecond]

theorem NoForeignConflict.listed (sane : s.Sane)
    (alone : NoForeignConflict s (s.addTransaction c mode scope)) (runs : s.finished t = false)
    (clash : (s.addTransaction c mode scope).conflict t s.transactionCount) :
    t ∈ s.transactions c := by
  have born := sane.born t runs
  refine (sane.listed c t).mpr ⟨born, ?_⟩
  by_contra foreign
  apply alone t s.transactionCount runs (Nat.le_refl _) (update_self _ _ _) _ clash
  simp only [addTransaction, update_self, update_of_ne (Nat.ne_of_lt born)]
  exact foreign

theorem add_transaction_running (sane : s.Sane) (before : t < u)
    (runningT : update s.finished s.transactionCount false t = false)
    (runningU : update s.finished s.transactionCount false u = false) :
    (s.finished t = false ∧ t < s.transactionCount) ∧
      (u = s.transactionCount ∨ s.finished u = false ∧ u < s.transactionCount) := by
  have old : ∀ v, v ≠ s.transactionCount → update s.finished s.transactionCount false v = false →
        s.finished v = false ∧ v < s.transactionCount := by
    intro v apart runs
    rw [update_of_ne apart] at runs
    exact ⟨runs, sane.born v runs⟩
  by_cases new : u = s.transactionCount
  · exact ⟨old t (Nat.ne_of_lt (new ▸ before)) runningT, .inl new⟩
  · have oldU := old u new runningU
    exact ⟨old t (Nat.ne_of_lt (Nat.lt_trans before oldU.2)) runningT, .inr oldU⟩

theorem Ordered.add_transaction (sane : s.Sane) (order : s.Ordered)
    (alone : ∀ t, s.finished t = false →
      ¬(s.addTransaction c mode scope).conflict t s.transactionCount) :
    (s.addTransaction c mode scope).Ordered := by
  intro t u before runningT runningU clash
  obtain ⟨⟨stillT, insideT⟩, new | ⟨stillU, insideU⟩⟩ :=
    add_transaction_running sane before runningT runningU
  · rw [new] at clash
    exact absurd clash (alone t stillT)
  · simp only [Schedule.addTransaction, update_of_ne (Nat.ne_of_lt insideU)]
    exact order t u before stillT stillU
      ((add_transaction_conflict c mode scope insideT insideU).mp clash)

theorem Ordered.add_blocked (sane : s.Sane) (order : s.Ordered) {blocking : List TransactionRef}
    (covered : ∀ t, s.finished t = false →
      (s.addTransaction c mode scope).conflict t s.transactionCount → t ∈ blocking) :
    (s.addBlocked c mode scope blocking).Ordered := by
  intro t u before runningT runningU clash
  have waitsAt : ∀ wait ∈ (s.addBlocked c mode scope blocking).waits
      ((s.addBlocked c mode scope blocking).owner u), wait.callback = .unblock u →
        (u = s.transactionCount ∧ wait.transactions = blocking) ∨
          (u < s.transactionCount ∧ wait ∈ s.waits (s.owner u)) := by
    intro wait mem cb
    have oldWait : ∀ other, wait ∈ s.waits other →
        u < s.transactionCount ∧ wait ∈ s.waits (s.owner u) := by
      intro other listed
      have ok := sane.waits other wait listed
      rw [WaitOk, cb] at ok
      exact ⟨ok.1, ok.2.1 ▸ listed⟩
    simp only [addBlocked, addWait, Schedule.addTransaction] at mem
    by_cases same : update s.owner s.transactionCount c u = c
    · rw [same, update_self] at mem
      rcases mem_append.mp mem with old | new
      · exact .inr (oldWait c old)
      · rw [mem_singleton.mp new] at cb ⊢
        exact .inl ⟨(Callback.unblock.inj cb).symm, rfl⟩
    · rw [update_of_ne same] at mem
      exact .inr (oldWait _ mem)
  obtain ⟨⟨stillT, insideT⟩, new | ⟨stillU, insideU⟩⟩ :=
    add_transaction_running sane before runningT runningU
  · refine ⟨by rw [new]; exact update_self _ _ _, ?_⟩
    intro wait mem cb
    rcases waitsAt wait mem cb with ⟨_, same⟩ | ⟨inside, _⟩
    · rw [same]
      rw [new] at clash
      exact covered t stillT clash
    · exact absurd new (Nat.ne_of_lt inside)
  · obtain ⟨isBlocked, waiting⟩ := order t u before stillT stillU
      ((add_transaction_conflict c mode scope insideT insideU).mp clash)
    refine ⟨(update_of_ne (Nat.ne_of_lt insideU) _ _).trans isBlocked, ?_⟩
    intro wait mem cb
    rcases waitsAt wait mem cb with ⟨isNew, _⟩ | ⟨_, old⟩
    · exact absurd isNew (Nat.ne_of_lt insideU)
    · exact waiting wait old cb

theorem ordered_of_alone (others : ∀ u, u ≠ t → s.finished u = true) : s.Ordered := by
  have unique : ∀ u, s.finished u = false → u = t := by
    intro u runs
    by_contra apart
    rw [others u apart] at runs
    cases runs
  intro first second before runningFirst runningSecond _
  rw [unique first runningFirst, unique second runningSecond] at before
  exact absurd before (Nat.lt_irrefl t)

theorem Ordered.move (sane : s.Sane) (order : s.Ordered) (move : s.Move next)
    (alone : NoForeignConflict s next) : next.Ordered := by
  cases move with
  | openConnection =>
    apply order.set_waits
    intro u runs wait mem _
    have elsewhere := Nat.ne_of_lt (sane.ownerBorn u (sane.born u runs))
    simp only [Schedule.openConnection, update_of_ne elsewhere] at mem
    exact mem
  | create c mode scope _ _ _ _ _ free =>
    apply order.add_transaction sane
    intro t runs clash
    exact free t (alone.listed sane runs clash) runs clash
  | createBlocked c mode scope blocking _ _ _ _ _ covered =>
    apply order.add_blocked sane
    intro t runs clash
    exact covered t (alone.listed sane runs clash) runs clash
  | startUpgrade c others _ waiting allClosed =>
    obtain ⟨_, allFinished⟩ := sane.upgrade_alone waiting allClosed
    apply ordered_of_alone
    intro u apart
    exact (update_of_ne apart _ _).trans (allFinished u)
  | rescope t _ live =>
    obtain ⟨_, _, _, _, others⟩ := sane.live t live
    exact ordered_of_alone others
  | abort t =>
    exact order.finish fun u apart => update_of_ne apart _ _
  | queueCommit | popUpgradeNeeded | popUpgradeFinished | popClosed | closed => exact order
  | close c =>
    exact Ordered.wait_for (s := { s with closePending := update s.closePending c true })
      order c _ _ (by simp)
  | awaitUpgrade c refs => exact order.wait_for c refs _ (by simp)
  | popEnd t => exact order.finish fun _ _ => rfl
  | unblock u wait _ mem cb done =>
    intro t v before runningT runningV clash
    obtain ⟨isBlocked, waiting⟩ := order t v before runningT runningV clash
    refine ⟨?_, waiting⟩
    by_cases same : v = u
    · -- Everything it had to wait for is over.
      subst same
      have listed := waiting wait mem cb
      have concluded := all_eq_true.mp done t listed
      cases (runningT.symm.trans concluded)
    · exact (update_of_ne same _ _).trans isBlocked
  | dropWaits c _ kept =>
    apply order.set_waits
    intro u _ wait mem _
    by_cases same : s.owner u = c
    · rw [same, update_self] at mem
      rw [same]
      exact kept wait mem
    · rwa [update_of_ne same] at mem

theorem Ordered.exclusive (order : s.Ordered) (apart : t ≠ u) (runningT : s.finished t = false)
    (runningU : s.finished u = false) (freeT : s.blocked t = false) (freeU : s.blocked u = false) :
    ¬s.conflict t u := by
  intro clash
  rcases Nat.lt_or_gt_of_ne apart with before | after
  · have isBlocked := (order t u before runningT runningU clash).1
    cases (freeU.symm.trans isBlocked)
  · obtain ⟨modes, store, inT, inU⟩ := clash
    have flipped : s.conflict u t := ⟨fun both => modes ⟨both.2, both.1⟩, store, inU, inT⟩
    have isBlocked := (order u t after runningU runningT flipped).1
    cases (freeT.symm.trans isBlocked)

end Schedule
end Ladybone.IndexedDB
