import LiteWebServer.ThreadPool.Model

namespace LiteWebServer

open Data

namespace ThreadPool

/-! What one step of each party can do to the pool, with the tests that lead there. -/

/-- A blocked worker leaves `wait`, or a notification finds nobody there. -/
inductive WakeStep (pool : ThreadPool τ) : ThreadPool τ → Prop where
  | woken {id dueNotifies} (found : pool.workers.pcOf id = some .waiting)
      (spent : pool.dueNotifies ≤ dueNotifies + 1) :
      WakeStep pool { pool with workers := pool.workers.setPc id .ready, dueNotifies }
  | lost {dueNotifies} (awake : ∀ id, pool.workers.pcOf id ≠ some .waiting) :
      WakeStep pool { pool with dueNotifies }

inductive WorkerStep (pool : ThreadPool τ) (id : Nat) : ThreadPool τ → PoolNote τ → Prop where
  | block (found : pool.workers.pcOf id = some .ready) (going : pool.stopNum = 0)
      (idle : pool.tasks = []) :
      WorkerStep pool id { pool with workers := pool.workers.setPc id .waiting } .quiet
  | exit (found : pool.workers.pcOf id = some .ready) (partial_ : 0 < pool.stopNum) :
      WorkerStep pool id
        { pool with
          exitedWorkers := pool.exitedWorkers.insert id, stopNum := pool.stopNum - 1,
          workers := pool.workers.setPc id .exited } (.exited id)
  | leave (found : pool.workers.pcOf id = some .ready) (stopped : pool.stopNum = threadStopAll)
      (done : pool.tasks = []) :
      WorkerStep pool id { pool with workers := pool.workers.setPc id .finished } .quiet
  | front (found : pool.workers.pcOf id = some .ready) (negative : pool.stopNum < 0)
      (unnamed : pool.stopNum ≠ threadStopAll) :
      WorkerStep pool id { pool with workers := pool.workers.setPc id .wild } (.frontOfEmpty id)
  | take {task rest} (found : pool.workers.pcOf id = some .ready) (queue : pool.tasks = task :: rest) :
      WorkerStep pool id
        { pool with tasks := rest, workers := pool.workers.setPc id (.running task) } (.took id task)
  | run {task} (found : pool.workers.pcOf id = some (.running task)) :
      WorkerStep pool id { pool with workers := pool.workers.setPc id .ready } (.ran id task)

inductive MgrStep (pool : ThreadPool τ) : ThreadPool τ → PoolNote τ → Prop where
  | finish (here : pool.mgr = .waiting) (stop : pool.stopMgr = true) :
      MgrStep pool { pool with mgr := .finished } .quiet
  | adjust (here : pool.mgr = .waiting) (going : pool.stopMgr = false) :
      MgrStep pool { pool with mgr := .adjusting } .quiet
  | postpone (here : pool.mgr = .adjusting) (partial_ : 0 < pool.stopNum) :
      MgrStep pool { pool with mgr := .waiting } .quiet
  | complete (here : pool.mgr = .adjusting) (taken : pool.stopNum ≤ 0) :
      MgrStep pool { pool with mgr := .joining } .quiet
  | check (here : pool.mgr = .joining) (none : pool.exitedWorkers = []) :
      MgrStep pool { pool with mgr := .checking } .quiet
  | join {stay left joined} (here : pool.mgr = .joining)
      (loop : joinExited pool.exitedWorkers pool.workers = some (stay, left, joined)) :
      MgrStep pool { pool with workers := stay, exitedWorkers := left, mgr := .waiting } (.joined joined)
  | select {mgr busyTimes idleTimes} (here : pool.mgr = .checking)
      (next : mgr = .growing ∨ mgr = .shrinking ∨ mgr = .waiting) :
      MgrStep pool { pool with mgr, busyTimes, idleTimes } .quiet
  | grow {newWorkers} (here : pool.mgr = .growing)
      (fits : pool.workers.length ≤ pool.maxNum → pool.workers.length + newWorkers ≤ pool.maxNum) :
      MgrStep pool { pool with mgr := .creating newWorkers } .quiet
  | full (here : pool.mgr = .growing) : MgrStep pool { pool with mgr := .waiting } .quiet
  | create {left id} (here : pool.mgr = .creating (left + 1)) (new : id ∉ pool.workers.map Prod.fst) :
      MgrStep pool
        { pool with mgr := .creating left, workers := pool.workers ++ [(id, .ready)] } (.created id)
  | grown (here : pool.mgr = .creating 0) : MgrStep pool { pool with mgr := .waiting } .quiet
  | shrink {rmWorkers} (here : pool.mgr = .shrinking)
      (spares : 1 ≤ pool.workers.length → rmWorkers + 1 ≤ pool.workers.length) :
      MgrStep pool { pool with mgr := .stopping rmWorkers } .quiet
  | least (here : pool.mgr = .shrinking) : MgrStep pool { pool with mgr := .waiting } .quiet
  | stop {rmWorkers} (here : pool.mgr = .stopping rmWorkers) :
      MgrStep pool
        { pool with
          stopNum := if pool.stopNum = 0 then rmWorkers else pool.stopNum, mgr := .notifying } .quiet
  | notify (here : pool.mgr = .notifying) :
      MgrStep pool { pool with workers := pool.workers.wakeAll, mgr := .waiting } .quiet

inductive DtorStep (pool : ThreadPool τ) : ThreadPool τ → Prop where
  | unmanaged (here : pool.dtor = .notCalled) (absent : pool.mgr = .absent) :
      DtorStep pool { pool with dtor := .stoppingAll }
  | stopMgr (here : pool.dtor = .notCalled) (waits : pool.mgr = .waiting) :
      DtorStep pool { pool with stopMgr := true, dtor := .joiningMgr }
  | joinMgr (here : pool.dtor = .joiningMgr) (finished : pool.mgr = .finished) :
      DtorStep pool { pool with dtor := .stoppingAll }
  | stopAll (here : pool.dtor = .stoppingAll) :
      DtorStep pool { pool with stopNum := threadStopAll, dtor := .notifying }
  | notifyAll (here : pool.dtor = .notifying) :
      DtorStep pool
        { pool with workers := pool.workers.wakeAll, dtor := .joining (pool.workers.map Prod.fst) }
  | join {id rest pc} (here : pool.dtor = .joining (id :: rest))
      (found : pool.workers.pcOf id = some pc) (returned : pc.isEnded = true) :
      DtorStep pool { pool with dtor := .joining rest }
  | finish (here : pool.dtor = .joining []) : DtorStep pool { pool with dtor := .done }

inductive PoolStep (pool : ThreadPool τ) : PoolTurn τ → ThreadPool τ → PoolNote τ → Prop where
  | refuse {task} (stopped : pool.stopNum = threadStopAll) : PoolStep pool (.enqueue task) pool .quiet
  | enqueue {task} (going : pool.stopNum ≠ threadStopAll) :
      PoolStep pool (.enqueue task)
        { pool with tasks := pool.tasks ++ [task], dueNotifies := pool.dueNotifies + 1 }
        (.enqueued task)
  | notifyOne {woken after} (step : WakeStep pool after) : PoolStep pool (.notifyOne woken) after .quiet
  | spurious {id after} (step : WakeStep pool after) : PoolStep pool (.spurious id) after .quiet
  | worker {id after note} (step : WorkerStep pool id after note) : PoolStep pool (.worker id) after note
  | mgr {choice after note} (step : MgrStep pool after note) : PoolStep pool (.mgr choice) after note
  | dtor {after} (step : DtorStep pool after) : PoolStep pool .dtor after .quiet

variable {pool after : ThreadPool τ} {id : Nat} {note : PoolNote τ}

theorem wakeUp_step (woke : pool.wakeUp id = some after) : WakeStep pool after := by
  unfold wakeUp at woke
  split at woke
  · rename_i found
    cases woke
    exact .woken found (Nat.le_succ _)
  · cases woke

theorem not_waiting (awake : pool.workers.any (fun worker => worker.2.isWaiting) = false) (id : Nat) :
    pool.workers.pcOf id ≠ some .waiting := by
  intro found
  obtain ⟨front, back, shape, -⟩ := List.lookup_eq_some_iff.mp found
  simp [shape, WorkerPc.isWaiting] at awake

theorem notifyOne_step {woken : Option Nat} (notified : pool.notifyOne woken = some after) :
    WakeStep pool after := by
  unfold notifyOne at notified
  split at notified
  · cases notified
  · cases woken with
    | some id =>
        unfold wakeUp at notified
        dsimp only at notified
        split at notified
        · rename_i found
          cases notified
          exact .woken found (by omega)
        · cases notified
    | none =>
        dsimp only at notified
        split at notified
        · cases notified
        · rename_i awake
          cases notified
          exact .lost (not_waiting (Bool.eq_false_iff.mpr awake))

theorem workerBlock_step (found : pool.workers.pcOf id = some .ready) :
    WorkerStep pool id (pool.workerBlock id).1 (pool.workerBlock id).2 := by
  unfold workerBlock
  split
  · rename_i idle
    simp only [not_or, not_not] at idle
    exact .block found idle.1 idle.2
  · rename_i due
    split
    · rename_i partial_
      exact .exit found partial_
    · rename_i notPartial
      split
      · rename_i all
        exact .leave found all.1 all.2
      · rename_i notAll
        split
        · -- An empty queue means a stop, and this one is neither partial nor of all.
          rename_i empty
          simp only [empty, ne_eq, not_true_eq_false, or_false, not_not, and_true] at due notAll
          exact .front found (by omega) notAll
        · rename_i task rest queue
          exact .take found queue

theorem workerStep_step (stepped : pool.workerStep id = some (after, note)) :
    WorkerStep pool id after note := by
  unfold workerStep at stepped
  split at stepped
  · rename_i found
    have step := workerBlock_step found
    rwa [Option.some.inj stepped] at step
  · rename_i task found
    cases stepped
    exact .run found
  · cases stepped

theorem makeAdjustComplete_step (here : pool.mgr = .joining)
    (stepped : pool.makeAdjustComplete = some (after, note)) : MgrStep pool after note := by
  unfold makeAdjustComplete at stepped
  split at stepped
  · rename_i none
    cases stepped
    exact .check here none
  · obtain ⟨⟨stay, left, joined⟩, loop, same⟩ := Option.bind_eq_some_iff.mp stepped
    cases same
    exact .join here loop

theorem checkQueueStatus_step (here : pool.mgr = .checking) (size : Nat) :
    MgrStep pool (pool.checkQueueStatus size) .quiet := by
  unfold checkQueueStatus
  dsimp only
  repeat' split
  all_goals exact .select here (by simp)

/-- A busy queue gets a thread more, and none beyond `max_num_`. -/
theorem handleQueueBusy_step (here : pool.mgr = .growing) :
    MgrStep pool pool.handleQueueBusy .quiet := by
  have create (newWorkers : Nat) (fits : pool.workers.length ≤ pool.maxNum →
      pool.workers.length + newWorkers ≤ pool.maxNum) :
      MgrStep pool (if newWorkers > 0 then { pool with mgr := .creating newWorkers }
        else { pool with mgr := .waiting }) .quiet := by
    split
    · exact .grow here fits
    · exact .full here
  unfold handleQueueBusy
  split
  · refine create _ fun bound => ?_
    rw [sizeSub_of_le bound]
    omega
  · exact create _ fun _ => by omega

/-- The manager never stops the last worker. -/
theorem handleQueueIdle_step (here : pool.mgr = .shrinking) :
    MgrStep pool pool.handleQueueIdle .quiet := by
  have remove (rmWorkers : Nat)
      (spares : 1 ≤ pool.workers.length → rmWorkers + 1 ≤ pool.workers.length) :
      MgrStep pool (if rmWorkers > 0 then { pool with mgr := .stopping rmWorkers }
        else { pool with mgr := .waiting }) .quiet := by
    split
    · exact .shrink here spares
    · exact .least here
  unfold handleQueueIdle
  split
  · refine remove _ fun some => ?_
    rw [poolMinWorkers, sizeSub_of_le some]
    omega
  · rename_i more
    refine remove _ fun some => ?_
    rw [threadChangeSetup, sizeSub_of_le some, poolMinWorkers] at more
    rw [threadChangeSetup]
    omega

theorem createWorker_step {newWorkers : Nat} (here : pool.mgr = .creating newWorkers)
    (stepped : pool.createWorker newWorkers id = some (after, note)) : MgrStep pool after note := by
  cases newWorkers with
  | zero =>
      cases stepped
      exact .grown here
  | succ left =>
      rw [createWorker] at stepped
      split at stepped
      · cases stepped
      · rename_i new
        cases stepped
        exact .create here new

theorem mgrStep_step {choice : Nat} (stepped : pool.mgrStep choice = some (after, note)) :
    MgrStep pool after note := by
  cases here : pool.mgr with
  | absent | finished => simp only [mgrStep, here, reduceCtorEq] at stepped
  | waiting =>
      simp only [mgrStep, here] at stepped
      split at stepped
      · rename_i stop
        cases stepped
        exact .finish here stop
      · rename_i going
        cases stepped
        exact .adjust here (Bool.eq_false_iff.mpr going)
  | adjusting =>
      simp only [mgrStep, here] at stepped
      split at stepped
      · rename_i partial_
        cases stepped
        exact .postpone here partial_
      · rename_i taken
        cases stepped
        exact .complete here (Int.not_lt.mp taken)
  | joining =>
      simp only [mgrStep, here] at stepped
      exact makeAdjustComplete_step here stepped
  | checking =>
      simp only [mgrStep, here] at stepped
      cases stepped
      exact checkQueueStatus_step here choice
  | growing =>
      simp only [mgrStep, here] at stepped
      cases stepped
      exact handleQueueBusy_step here
  | creating newWorkers =>
      simp only [mgrStep, here] at stepped
      exact createWorker_step here stepped
  | shrinking =>
      simp only [mgrStep, here] at stepped
      cases stepped
      exact handleQueueIdle_step here
  | stopping rmWorkers =>
      simp only [mgrStep, here] at stepped
      cases stepped
      exact .stop here
  | notifying =>
      simp only [mgrStep, here] at stepped
      cases stepped
      exact .notify here

theorem MgrStep.plain (step : MgrStep pool after note) : note ≠ .frontOfEmpty id := by
  cases step <;> simp

theorem dtorStep_step (stepped : pool.dtorStep = some after) : DtorStep pool after := by
  unfold dtorStep at stepped
  split at stepped
  · rename_i here
    split at stepped
    · rename_i absent
      cases stepped
      exact .unmanaged here absent
    · split at stepped
      · rename_i waits
        cases stepped
        exact .stopMgr here waits
      · cases stepped
  · rename_i here
    split at stepped
    · rename_i finished
      cases stepped
      exact .joinMgr here finished
    · cases stepped
  · rename_i here
    cases stepped
    exact .stopAll here
  · rename_i here
    cases stepped
    exact .notifyAll here
  · rename_i here
    cases stepped
    exact .finish here
  · rename_i id rest here
    split at stepped
    · rename_i pc found
      split at stepped
      · rename_i returned
        cases stepped
        exact .join here found returned
      · cases stepped
    · cases stepped
  · cases stepped

theorem next_step {turn : PoolTurn τ} (stepped : pool.next turn = some (after, note)) :
    PoolStep pool turn after note := by
  cases turn with
  | enqueue task =>
      rw [next, Option.some.injEq, ThreadPool.enqueue] at stepped
      split at stepped
      · rename_i stopped
        cases stepped
        exact .refuse stopped
      · rename_i going
        cases stepped
        exact .enqueue going
  | notifyOne woken =>
      obtain ⟨next, notified, same⟩ := Option.map_eq_some_iff.mp stepped
      cases same
      exact .notifyOne (notifyOne_step notified)
  | spurious id =>
      obtain ⟨next, woke, same⟩ := Option.map_eq_some_iff.mp stepped
      cases same
      exact .spurious (wakeUp_step woke)
  | worker id => exact .worker (workerStep_step stepped)
  | mgr choice => exact .mgr (mgrStep_step stepped)
  | dtor =>
      obtain ⟨next, went, same⟩ := Option.map_eq_some_iff.mp stepped
      cases same
      exact .dtor (dtorStep_step went)

end ThreadPool

end LiteWebServer
