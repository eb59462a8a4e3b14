import LiteWebServer.Data.Transition
import LiteWebServer.Std
import Mathlib.Data.List.Basic

namespace LiteWebServer

open Data

/-! The thread pool as a transition system.  A step is one block under a mutex, one
notification, one unlocked access or one join. -/

/-- Where a worker is: about to take `queue_mutex_`, blocked in `wait`, in a task, or
behind one of the two returns.  `wild` has called `front` on an empty queue. -/
inductive WorkerPc (τ : Type) where
  | ready | waiting
  | running (task : τ)
  | exited | finished | wild

namespace WorkerPc

def isWaiting : WorkerPc τ → Bool
  | .waiting => true
  | _ => false

def isExited : WorkerPc τ → Bool
  | .exited => true
  | _ => false

/-- The thread has returned. -/
def isEnded : WorkerPc τ → Bool
  | .exited | .finished => true
  | _ => false

/-- The worker comes to the queue without being woken. -/
def isActive : WorkerPc τ → Bool
  | .ready | .running _ => true
  | _ => false

def wake : WorkerPc τ → WorkerPc τ
  | .waiting => .ready
  | pc => pc

end WorkerPc

/-- `workers_`: the ids of the threads, and where they are. -/
abbrev Workers (τ : Type) := List (Nat × WorkerPc τ)

namespace Workers

def pcOf (workers : Workers τ) (id : Nat) : Option (WorkerPc τ) := workers.lookup id

def setPc : Workers τ → Nat → WorkerPc τ → Workers τ
  | [], _, _ => []
  | worker :: rest, id, pc =>
      if worker.1 = id then (id, pc) :: rest else worker :: setPc rest id pc

def wakeAll (workers : Workers τ) : Workers τ := workers.map fun worker => (worker.1, worker.2.wake)

/-- The workers that did not take a partial stop. -/
def live (workers : Workers τ) : Nat := workers.countP fun worker => !worker.2.isExited

end Workers

/-- Where the manager is: in `wait_for`, at one of the steps of a round, or gone. -/
inductive MgrPc where
  | absent | waiting | adjusting | joining | checking | growing
  | creating (newWorkers : Nat)
  | shrinking
  | stopping (rmWorkers : Nat)
  | notifying | finished
deriving DecidableEq, Repr

inductive DtorPc where
  | notCalled | joiningMgr | stoppingAll | notifying
  | joining (workers : List Nat)
  | done
deriving DecidableEq, Repr

/-- The members of the pool, the places of its threads, and how many enqueuers are
between their block and `notify_one`. -/
structure ThreadPool (τ : Type) where
  maxNum : Nat
  stopNum : Int
  stopMgr : Bool
  mgr : MgrPc
  workers : Workers τ
  exitedWorkers : List Nat
  tasks : List τ
  busyTimes : Nat
  idleTimes : Nat
  dueNotifies : Nat
  dtor : DtorPc

/-- What a step shows: a task put in, taken or run to its end, and threads made,
returned from a partial stop or joined by the manager. -/
inductive PoolNote (τ : Type) where
  | quiet
  | enqueued (task : τ)
  | took (id : Nat) (task : τ)
  | ran (id : Nat) (task : τ)
  | frontOfEmpty (id : Nat)
  | created (id : Nat)
  | exited (id : Nat)
  | joined (ids : List Nat)

namespace ThreadPool

def threadStopAll : Int := -1

def queueBusyNum : Nat := 100

def queueIdleNum : Nat := 10

def threadStatusTimes : Nat := 3

def threadChangeSetup : Nat := 1

def poolMinWorkers : Nat := 1

/-- The constructor, when the threads it creates have the ids `ids`. -/
def construct (ids : List Nat) (maxNum : Nat) (dynamic : Bool) : ThreadPool τ where
  maxNum := maxNum
  stopNum := 0
  stopMgr := false
  mgr := if dynamic then .waiting else .absent
  workers := ids.map fun id => (id, .ready)
  exitedWorkers := []
  tasks := []
  busyTimes := 0
  idleTimes := 0
  dueNotifies := 0
  dtor := .notCalled

variable (pool : ThreadPool τ)

/-- The block of `enqueue`; a stopped pool throws. -/
def enqueue (task : τ) : ThreadPool τ × PoolNote τ :=
  if pool.stopNum = threadStopAll then (pool, .quiet)
  else
    ({ pool with tasks := pool.tasks ++ [task], dueNotifies := pool.dueNotifies + 1 },
      .enqueued task)

/-- A blocked worker leaves `wait`, notified or not. -/
def wakeUp (id : Nat) : Option (ThreadPool τ) :=
  match pool.workers.pcOf id with
  | some .waiting => some { pool with workers := pool.workers.setPc id .ready }
  | _ => none

/-- `notify_one` behind the block of `enqueue` wakes some blocked worker if there is one. -/
def notifyOne (woken : Option Nat) : Option (ThreadPool τ) :=
  if pool.dueNotifies = 0 then none
  else
    let pool := { pool with dueNotifies := pool.dueNotifies - 1 }
    match woken with
    | some id => pool.wakeUp id
    | none => if pool.workers.any fun worker => worker.2.isWaiting then none else some pool

/-- The block of the worker loop, from the test of the predicate on. -/
def workerBlock (id : Nat) : ThreadPool τ × PoolNote τ :=
  if ¬(pool.stopNum ≠ 0 ∨ pool.tasks ≠ []) then
    ({ pool with workers := pool.workers.setPc id .waiting }, .quiet)
  else if 0 < pool.stopNum then
    ({ pool with
        exitedWorkers := pool.exitedWorkers.insert id, stopNum := pool.stopNum - 1,
        workers := pool.workers.setPc id .exited }, .exited id)
  else if pool.stopNum = threadStopAll ∧ pool.tasks = [] then
    ({ pool with workers := pool.workers.setPc id .finished }, .quiet)
  else
    match pool.tasks with
    | [] => ({ pool with workers := pool.workers.setPc id .wild }, .frontOfEmpty id)
    | task :: rest =>
        ({ pool with tasks := rest, workers := pool.workers.setPc id (.running task) },
          .took id task)

def workerStep (id : Nat) : Option (ThreadPool τ × PoolNote τ) :=
  match pool.workers.pcOf id with
  | some .ready => some (pool.workerBlock id)
  | some (.running task) =>
      some ({ pool with workers := pool.workers.setPc id .ready }, .ran id task)
  | _ => none

/-- The loop of `make_adjust_complete`: the workers and ids left, and the ids joined.
A thread that has not returned blocks the join. -/
def joinExited : List Nat → Workers τ → Option (Workers τ × List Nat × List Nat)
  | [], workers => some (workers, [], [])
  | id :: rest, workers =>
      match workers.pcOf id with
      | some pc =>
          if pc.isEnded then do
            let (workers, left, joined) ← joinExited rest (workers.eraseP fun worker => worker.1 = id)
            return (workers, left, id :: joined)
          else none
      | none => do
          let (workers, left, joined) ← joinExited rest workers
          return (workers, id :: left, joined)

/-- The block of `make_adjust_complete` under `workers_mutex_`. -/
def makeAdjustComplete : Option (ThreadPool τ × PoolNote τ) :=
  if pool.exitedWorkers = [] then some ({ pool with mgr := .checking }, .quiet)
  else do
    let (workers, left, joined) ← joinExited pool.exitedWorkers pool.workers
    return ({ pool with workers, exitedWorkers := left, mgr := .waiting }, .joined joined)

/-- `check_queue_status` when it sees a queue of `size` tasks, and the step its result
selects. -/
def checkQueueStatus (size : Nat) : ThreadPool τ :=
  let pool :=
    if size > queueBusyNum then { pool with busyTimes := u32 (pool.busyTimes + 1), idleTimes := 0 }
    else if size < queueIdleNum then
      { pool with idleTimes := u32 (pool.idleTimes + 1), busyTimes := 0 }
    else { pool with busyTimes := 0, idleTimes := 0 }
  if pool.busyTimes ≥ threadStatusTimes then { pool with mgr := .growing }
  else if pool.idleTimes ≥ threadStatusTimes then { pool with mgr := .shrinking }
  else { pool with mgr := .waiting }

def handleQueueBusy : ThreadPool τ :=
  let newWorkers :=
    if pool.workers.length + threadChangeSetup > pool.maxNum then
      sizeSub pool.maxNum pool.workers.length
    else threadChangeSetup
  if newWorkers > 0 then { pool with mgr := .creating newWorkers } else { pool with mgr := .waiting }

def createWorker (newWorkers id : Nat) : Option (ThreadPool τ × PoolNote τ) :=
  match newWorkers with
  | 0 => some ({ pool with mgr := .waiting }, .quiet)
  | left + 1 =>
      if id ∈ pool.workers.map Prod.fst then none
      else some ({ pool with mgr := .creating left, workers := pool.workers ++ [(id, .ready)] },
        .created id)

def handleQueueIdle : ThreadPool τ :=
  let rmWorkers :=
    if sizeSub pool.workers.length threadChangeSetup < poolMinWorkers then
      sizeSub pool.workers.length poolMinWorkers
    else threadChangeSetup
  if rmWorkers > 0 then { pool with mgr := .stopping rmWorkers } else { pool with mgr := .waiting }

/-- One step of the manager.  `choice` is the size of the queue it sees, or the id of
the thread it creates. -/
def mgrStep (choice : Nat) : Option (ThreadPool τ × PoolNote τ) :=
  match pool.mgr with
  | .absent | .finished => none
  | .waiting =>
      if pool.stopMgr then some ({ pool with mgr := .finished }, .quiet)
      else some ({ pool with mgr := .adjusting }, .quiet)
  | .adjusting =>
      if 0 < pool.stopNum then some ({ pool with mgr := .waiting }, .quiet)
      else some ({ pool with mgr := .joining }, .quiet)
  | .joining => pool.makeAdjustComplete
  | .checking => some (pool.checkQueueStatus choice, .quiet)
  | .growing => some (pool.handleQueueBusy, .quiet)
  | .creating newWorkers => pool.createWorker newWorkers choice
  | .shrinking => some (pool.handleQueueIdle, .quiet)
  | .stopping rmWorkers =>
      some ({ pool with
        stopNum := if pool.stopNum = 0 then rmWorkers else pool.stopNum, mgr := .notifying }, .quiet)
  | .notifying => some ({ pool with workers := pool.workers.wakeAll, mgr := .waiting }, .quiet)

/-- One step of the destructor.  The manager holds `mgr_mutex_` except in `wait_for`. -/
def dtorStep : Option (ThreadPool τ) :=
  match pool.dtor with
  | .notCalled =>
      if pool.mgr = .absent then some { pool with dtor := .stoppingAll }
      else if pool.mgr = .waiting then some { pool with stopMgr := true, dtor := .joiningMgr }
      else none
  | .joiningMgr => if pool.mgr = .finished then some { pool with dtor := .stoppingAll } else none
  | .stoppingAll => some { pool with stopNum := threadStopAll, dtor := .notifying }
  | .notifying =>
      some { pool with
        workers := pool.workers.wakeAll, dtor := .joining (pool.workers.map Prod.fst) }
  | .joining [] => some { pool with dtor := .done }
  | .joining (id :: rest) =>
      match pool.workers.pcOf id with
      | some pc => if pc.isEnded then some { pool with dtor := .joining rest } else none
      | none => none
  | .done => none

end ThreadPool

/-- Whose turn it is, with the choices that are the environment's. -/
inductive PoolTurn (τ : Type) where
  | enqueue (task : τ)
  | notifyOne (woken : Option Nat)
  | spurious (id : Nat)
  | worker (id : Nat)
  | mgr (choice : Nat)
  | dtor

namespace ThreadPool

def next (pool : ThreadPool τ) : PoolTurn τ → Option (ThreadPool τ × PoolNote τ)
  | .enqueue task => some (pool.enqueue task)
  | .notifyOne woken => (pool.notifyOne woken).map (·, .quiet)
  | .spurious id => (pool.wakeUp id).map (·, .quiet)
  | .worker id => pool.workerStep id
  | .mgr choice => pool.mgrStep choice
  | .dtor => pool.dtorStep.map (·, .quiet)

/-- The pool of `ThreadPool(idle_num, max_num, dynamic)`. -/
def system (τ : Type) (idleNum maxNum : Nat) (dynamic : Bool) :
    System (ThreadPool τ) (PoolNote τ) :=
  .ofNext
    (fun pool => ∃ ids : List Nat, ids.Nodup ∧ ids.length = min idleNum maxNum ∧
      pool = construct ids maxNum dynamic)
    next

end ThreadPool

end LiteWebServer
