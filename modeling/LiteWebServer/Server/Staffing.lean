import LiteWebServer.Server.Model
import LiteWebServer.ThreadPool.TaskOnce

namespace LiteWebServer

open Data

/-! Which loops the workers of the pool come to run, and which loop a socket goes to. -/

namespace WorkerPc

def task? : WorkerPc τ → Option τ
  | .running task => some task
  | _ => none

def isReady : WorkerPc τ → Bool
  | .ready => true
  | _ => false

/-- The worker has not left its loop. -/
def isWilling : WorkerPc τ → Bool
  | .ready | .waiting | .running _ => true
  | _ => false

end WorkerPc

namespace Workers

/-- The tasks that the workers run. -/
def underway (workers : Workers τ) : List τ := workers.filterMap fun worker => worker.2.task?

def readyCount (workers : Workers τ) : Nat := workers.countP fun worker => worker.2.isReady

variable {workers : Workers τ} {id : Nat} {pc old : WorkerPc τ}

theorem mem_setPc (found : workers.pcOf id = some old) {worker : Nat × WorkerPc τ}
    (member : worker ∈ workers.setPc id pc) : worker.2 = pc ∨ worker ∈ workers := by
  obtain ⟨front, back, shape, absent⟩ := pcOf_split found
  rw [shape, setPc_middle absent, List.mem_append, List.mem_cons] at member
  rcases member with before | this | behind
  · exact .inr (by simp [shape, before])
  · exact .inl (by rw [this])
  · exact .inr (by simp [shape, behind])

theorem underway_setPc (found : workers.pcOf id = some old) : ∃ front back : List τ,
    workers.underway = front ++ (old.task?.toList ++ back) ∧
      ∀ pc, (workers.setPc id pc).underway = front ++ (pc.task?.toList ++ back) := by
  obtain ⟨front, back, shape, absent⟩ := pcOf_split found
  have middle (here : WorkerPc τ) :
      underway (front ++ (id, here) :: back) =
        underway front ++ (here.task?.toList ++ underway back) := by
    rw [underway, List.filterMap_append, List.filterMap_cons]
    cases here.task? <;> rfl
  refine ⟨underway front, underway back, by rw [shape, middle], fun pc => ?_⟩
  rw [shape, setPc_middle absent, middle]

theorem underway_setPc_same (found : workers.pcOf id = some old) (same : pc.task? = old.task?) :
    (workers.setPc id pc).underway = workers.underway := by
  obtain ⟨front, back, before, after⟩ := underway_setPc found
  rw [after, before, same]

theorem underway_setPc_running (found : workers.pcOf id = some old) (idle : old.task? = none)
    (task : τ) : (workers.setPc id (.running task)).underway.Perm (task :: workers.underway) := by
  obtain ⟨front, back, before, after⟩ := underway_setPc found
  rw [after, before, idle]
  exact List.perm_middle

theorem readyCount_setPc (found : workers.pcOf id = some old) (pc : WorkerPc τ) :
    (workers.setPc id pc).readyCount + (if old.isReady then 1 else 0) =
      workers.readyCount + (if pc.isReady then 1 else 0) :=
  countP_setPc WorkerPc.isReady found pc

/-- When every worker is in a task, there are as many tasks underway as workers. -/
theorem length_underway (busy : ∀ worker ∈ workers, ∃ task, worker.2 = .running task) :
    workers.underway.length = workers.length := by
  induction workers with
  | nil => rfl
  | cons worker rest ih =>
      obtain ⟨task, here⟩ := busy worker List.mem_cons_self
      have others := ih fun other member => busy other (List.mem_cons_of_mem _ member)
      rw [underway, List.filterMap_cons_some (b := task) (by rw [here]; rfl), List.length_cons,
        List.length_cons]
      exact congrArg (· + 1) others

theorem mem_underway (distinct : (workers.map Prod.fst).Nodup) {task : τ} :
    task ∈ workers.underway ↔ ∃ id, workers.pcOf id = some (.running task) := by
  constructor
  · intro member
    obtain ⟨⟨id, pc⟩, here, runs⟩ := List.mem_filterMap.mp member
    refine ⟨id, (mem_iff_pcOf distinct).mp ?_⟩
    cases pc with
    | running other => rwa [Option.some.inj runs] at here
    | _ => cases runs
  · rintro ⟨id, runs⟩
    exact List.mem_filterMap.mpr ⟨_, (mem_iff_pcOf distinct).mpr runs, rfl⟩

end Workers

namespace ThreadPool

/-- The tasks that wait in the queue or are underway. -/
def heldTasks (pool : ThreadPool τ) : List τ := pool.tasks ++ pool.workers.underway

/-- Until the stop `size` workers come back to the queue, and one of them stays blocked only
while the others suffice for it. -/
structure Crewed (pool : ThreadPool τ) (size : Nat) : Prop where
  distinct : (pool.workers.map Prod.fst).Nodup
  size : pool.workers.length = size
  going : pool.stopNum = 0
  willing : ∀ worker ∈ pool.workers, worker.2.isWilling = true
  heeded : ∀ id, pool.workers.pcOf id = some .waiting →
    pool.tasks.length ≤ pool.workers.readyCount + pool.dueNotifies

section Crewed

variable {pool after : ThreadPool τ} {size id : Nat}

theorem construct_crewed {ids : List Nat} (distinct : ids.Nodup) (maxNum : Nat) :
    (construct ids maxNum false : ThreadPool τ).Crewed ids.length where
  distinct := by simpa [construct, Function.comp_def] using distinct
  size := List.length_map _
  going := rfl
  willing := by simp [construct, WorkerPc.isWilling]
  heeded := by simp [construct]

theorem construct_heldTasks (ids : List Nat) (maxNum : Nat) :
    (construct ids maxNum false : ThreadPool τ).heldTasks = [] := by
  simp [construct, heldTasks, Workers.underway, WorkerPc.task?, List.filterMap_map]

theorem Crewed.enqueue (crewed : pool.Crewed size) (task : τ) : Crewed
    { pool with tasks := pool.tasks ++ [task], dueNotifies := pool.dueNotifies + 1 } size := by
  refine ⟨crewed.distinct, crewed.size, crewed.going, crewed.willing, fun id blocked => ?_⟩
  have heeded := crewed.heeded id blocked
  simp only [List.length_append, List.length_singleton]
  omega

/-- A worker goes to another place that it comes back from. -/
theorem Crewed.move (crewed : pool.Crewed size) {pc old : WorkerPc τ}
    (found : pool.workers.pcOf id = some old) (willing : pc.isWilling = true) (tasks : List τ)
    (dueNotifies : Nat)
    (heeded : ∀ other, (pool.workers.setPc id pc).pcOf other = some .waiting →
      tasks.length ≤ (pool.workers.setPc id pc).readyCount + dueNotifies) :
    Crewed { pool with tasks, workers := pool.workers.setPc id pc, dueNotifies } size := by
  refine ⟨?_, (Workers.length_setPc found).trans crewed.size, crewed.going,
    fun worker member => ?_, heeded⟩
  · rw [Workers.ids_setPc found]
    exact crewed.distinct
  · rcases Workers.mem_setPc found member with here | before
    · rw [here, willing]
    · exact crewed.willing worker before

/-- The worker that leaves `wait` may have used up one notification. -/
theorem Crewed.wake (crewed : pool.Crewed size) (step : WakeStep pool after) :
    after.Crewed size := by
  cases step with
  | @woken id dueNotifies found spent =>
      refine crewed.move found rfl pool.tasks dueNotifies fun other blocked => ?_
      have heeded := crewed.heeded id found
      have count := Workers.readyCount_setPc found .ready
      simp only [WorkerPc.isReady, Bool.false_eq_true, if_false, if_true] at count
      omega
  | lost awake => exact { crewed with heeded := fun id blocked => absurd blocked (awake id) }

theorem Crewed.worker (crewed : pool.Crewed size) {note : PoolNote τ}
    (step : WorkerStep pool id after note) : after.Crewed size := by
  have going := crewed.going
  cases step with
  | block found _ idle => exact crewed.move found rfl pool.tasks pool.dueNotifies fun _ _ => by simp [idle]
  | exit found partial_ => omega
  | leave found stopped => rw [going] at stopped; cases stopped
  | front found negative => omega
  | @take task rest found queue =>
      refine crewed.move found rfl rest pool.dueNotifies fun other blocked => ?_
      have heeded := crewed.heeded other (pcOf_of_setPc found blocked (by simp))
      have fewer := Workers.readyCount_setPc found (.running task)
      simp only [WorkerPc.isReady, Bool.false_eq_true, if_false, if_true] at fewer
      rw [queue, List.length_cons] at heeded
      omega
  | run found =>
      refine crewed.move found rfl pool.tasks pool.dueNotifies fun other blocked => ?_
      have heeded := crewed.heeded other (pcOf_of_setPc found blocked (by simp))
      have more := Workers.readyCount_setPc found .ready
      simp only [WorkerPc.isReady, Bool.false_eq_true, if_false, if_true] at more
      omega

theorem WakeStep.heldTasks (step : WakeStep pool after) : after.heldTasks = pool.heldTasks := by
  cases step with
  | woken found => exact congrArg (pool.tasks ++ ·) (Workers.underway_setPc_same found rfl)
  | lost => rfl

/-- A task is held until it has run. -/
theorem WorkerStep.heldTasks {note : PoolNote τ} (step : WorkerStep pool id after note) :
    ((note.ranBy? id).toList ++ after.heldTasks).Perm pool.heldTasks := by
  have still {pc old : WorkerPc τ} (found : pool.workers.pcOf id = some old) (same : pc.task? = old.task?) :
      (pool.tasks ++ (pool.workers.setPc id pc).underway).Perm pool.heldTasks := by
    rw [Workers.underway_setPc_same found same]
    exact .refl _
  cases step with
  | block found | exit found | leave found | front found => exact still found rfl
  | @take task rest found queue =>
      have taken := (Workers.underway_setPc_running found rfl task).append_left rest
      have front : pool.heldTasks = task :: (rest ++ pool.workers.underway) := by
        rw [ThreadPool.heldTasks, queue, List.cons_append]
      rw [front]
      exact taken.trans List.perm_middle
  | @run task found =>
      obtain ⟨front, back, before, behind⟩ := Workers.underway_setPc found
      have held : pool.heldTasks = (pool.tasks ++ front) ++ task :: back := by
        rw [ThreadPool.heldTasks, before, List.append_assoc]
        rfl
      have left : (pool.workers.setPc id .ready).underway = front ++ back := behind .ready
      rw [held]
      simp only [PoolNote.ranBy?, if_true, Option.toList_some, ThreadPool.heldTasks, left,
        ← List.append_assoc pool.tasks, List.singleton_append]
      exact List.perm_middle.symm

/-- With a worker for every task, no task waits while all the workers are in tasks. -/
theorem Crewed.queue_empty {pool : ThreadPool Nat} (crewed : pool.Crewed size)
    (once : pool.heldTasks.Nodup) (named : ∀ task ∈ pool.heldTasks, task < size)
    (busy : ∀ worker ∈ pool.workers, ∃ task, worker.2 = .running task) : pool.tasks = [] := by
  have all := Workers.length_underway busy
  have few := (once.subperm fun task member => List.mem_range.mpr (named task member)).length_le
  rw [heldTasks, List.length_append, List.length_range, all, crewed.size] at few
  exact List.eq_nil_of_length_eq_zero (by omega)

/-- Nor does one wait without a worker that comes to the queue, when no notification is due. -/
theorem Crewed.exists_ready {pool : ThreadPool Nat} (crewed : pool.Crewed size)
    (once : pool.heldTasks.Nodup) (named : ∀ task ∈ pool.heldTasks, task < size)
    (heard : pool.dueNotifies = 0) (waits : pool.tasks ≠ []) :
    ∃ id, pool.workers.pcOf id = some .ready := by
  by_contra none
  have unready : pool.workers.readyCount = 0 := by
    refine List.countP_eq_zero.mpr fun worker member ready => none ⟨worker.1, ?_⟩
    obtain ⟨id, pc⟩ := worker
    have found := (Workers.mem_iff_pcOf crewed.distinct).mp member
    cases pc with
    | ready => exact found
    | _ => cases ready
  refine waits (crewed.queue_empty once named fun worker member => ?_)
  obtain ⟨id, pc⟩ := worker
  have willing := crewed.willing _ member
  have found := (Workers.mem_iff_pcOf crewed.distinct).mp member
  cases pc with
  | running task => exact ⟨task, rfl⟩
  | ready => exact absurd ⟨id, found⟩ none
  | waiting =>
      -- A blocked worker would have left nothing in the queue.
      have heeded := crewed.heeded id found
      exact absurd (List.eq_nil_of_length_eq_zero (by omega)) waits
  | exited | finished | wild => cases willing

/-- So it goes on while neither the manager nor the destructor moves, and what is held was held
before or is put in. -/
theorem Crewed.next (crewed : pool.Crewed size) {turn : PoolTurn τ} {note : PoolNote τ}
    (stepped : pool.next turn = some (after, note)) (unmanaged : ∀ choice, turn ≠ .mgr choice)
    (alive : turn ≠ .dtor) :
    after.Crewed size ∧ after.heldTasks.Subperm (note.enqueued?.toList ++ pool.heldTasks) := by
  cases next_step stepped with
  | refuse stopped => rw [crewed.going] at stopped; cases stopped
  | @enqueue task going =>
      refine ⟨crewed.enqueue task, List.Perm.subperm ?_⟩
      rw [heldTasks, List.append_assoc]
      exact List.perm_middle
  | notifyOne step | spurious step =>
      exact ⟨crewed.wake step, step.heldTasks ▸ .refl _⟩
  | worker step =>
      exact ⟨crewed.worker step, ((List.sublist_append_right _ _).subperm.trans step.heldTasks.subperm).trans
        (List.sublist_append_right _ _).subperm⟩
  | mgr => exact absurd rfl (unmanaged _)
  | dtor => exact absurd rfl alive

end Crewed

/-- With `loops` tasks enqueued, each waits in the queue or is underway. -/
structure Manned (pool : ThreadPool Nat) (loops size : Nat) : Prop extends Crewed pool size where
  spread : pool.heldTasks.Perm (List.range loops)

variable {pool after : ThreadPool Nat} {loops size id : Nat}

theorem construct_manned {ids : List Nat} (distinct : ids.Nodup) (maxNum : Nat) :
    (construct ids maxNum false : ThreadPool Nat).Manned 0 ids.length :=
  ⟨construct_crewed distinct maxNum, by rw [construct_heldTasks]; exact .refl _⟩

theorem Manned.enqueue (manned : pool.Manned loops size) :
    (pool.enqueue loops).1.Manned (loops + 1) size := by
  have running : ¬ pool.stopNum = threadStopAll := by rw [manned.going]; decide
  rw [ThreadPool.enqueue, if_neg running]
  refine ⟨manned.toCrewed.enqueue loops, ?_⟩
  rw [heldTasks, List.range_succ, List.append_assoc]
  exact List.perm_middle.trans
    ((manned.spread.cons loops).trans (List.perm_append_singleton loops _).symm)

theorem Manned.wake (manned : pool.Manned loops size) (step : WakeStep pool after) :
    after.Manned loops size :=
  ⟨manned.toCrewed.wake step, step.heldTasks.symm ▸ manned.spread⟩

theorem Manned.workerBlock (manned : pool.Manned loops size)
    (found : pool.workers.pcOf id = some .ready) : (pool.workerBlock id).1.Manned loops size := by
  have step := workerBlock_step found
  refine ⟨manned.toCrewed.worker step, ?_⟩
  have held := step.heldTasks
  generalize (pool.workerBlock id).1 = after at step held ⊢
  generalize (pool.workerBlock id).2 = note at step held
  cases step with
  | run runs => rw [found] at runs; cases runs
  | _ => exact held.trans manned.spread

/-- Each loop is held once. -/
theorem Manned.once (manned : pool.Manned loops size) : pool.heldTasks.Nodup :=
  manned.spread.nodup_iff.mpr List.nodup_range

theorem Manned.mem_heldTasks (manned : pool.Manned loops size) {task : Nat} :
    task ∈ pool.heldTasks ↔ task < loops :=
  manned.spread.mem_iff.trans List.mem_range

end ThreadPool

namespace Process

variable {pq : PriorityQueue TimerNode TimerNode.expire} {process after : Process pq}
  {note : ProcessNote} {nthread : Nat}

/-- The connections go to the loops in turn, and the next loop is the one whose turn it is. -/
structure Rotating (process : Process pq) (nthread : Nat) : Prop where
  turns : ∀ conn index : Nat, process.owners[conn]? = some index → index = conn % nthread
  next : process.acceptor ≠ .pushed → process.poolIdx = process.owners.length % nthread
  pushed : process.acceptor = .pushed →
    ∃ conn, process.owners.length = conn + 1 ∧ process.poolIdx = conn % nthread

theorem Rotating.poolIdx_lt (rotating : process.Rotating nthread) (some : 0 < nthread) :
    process.poolIdx < nthread := by
  by_cases here : process.acceptor = .pushed
  · obtain ⟨conn, -, index⟩ := rotating.pushed here
    rw [index]
    exact Nat.mod_lt conn some
  · rw [rotating.next here]
    exact Nat.mod_lt _ some

theorem Rotating.acceptorStep (rotating : process.Rotating nthread)
    (all : process.connLoops.length = nthread) {fd : Int}
    (stepped : process.acceptorStep fd = some (after, note)) :
    after.Rotating nthread ∧ after.connLoops.length = process.connLoops.length := by
  cases acceptorStep_move stepped with
  | accept here new =>
      exact ⟨⟨rotating.turns, fun _ => rotating.next (by simp [here]), by simp⟩, rfl⟩
  | push here found =>
      have index := rotating.next (by simp [here])
      refine ⟨⟨fun conn owner given => ?_, by simp, fun _ => ⟨_, List.length_append, index⟩⟩,
        List.length_set⟩
      rcases Nat.lt_or_ge conn process.owners.length with before | new
      · exact rotating.turns conn owner (by rwa [List.getElem?_append_left before] at given)
      · rw [List.getElem?_append_right new, List.getElem?_singleton] at given
        split at given
        · rw [← Option.some.inj given, index]
          congr 1
          omega
        · cases given
  | write here found wrote =>
      obtain ⟨conn, length, index⟩ := rotating.pushed here
      refine ⟨⟨rotating.turns, fun _ => ?_, by simp⟩, List.length_set⟩
      dsimp only
      rw [index, length, all, Nat.mod_add_mod]

theorem Rotating.loopStep (rotating : process.Rotating nthread) {index : Nat} {choice : LoopChoice}
    (stepped : process.loopStep index choice = some (after, note)) :
    after.Rotating nthread ∧ after.connLoops.length = process.connLoops.length := by
  obtain ⟨loop, found, rest⟩ := Option.bind_eq_some_iff.mp stepped
  obtain ⟨⟨moved, said⟩, went, shown⟩ := Option.bind_eq_some_iff.mp rest
  cases said <;> cases shown <;>
    exact ⟨⟨rotating.turns, rotating.next, rotating.pushed⟩, List.length_set⟩

end Process

namespace WebServer

variable {pq : PriorityQueue TimerNode TimerNode.expire} {server after : WebServer pq}
  {note : ProcessNote} {conf : ServerConf}

/-- Every loop that a socket can be handed to is run by a worker. -/
def AllRun (server : WebServer pq) : Prop :=
  ∀ index < server.process.connLoops.length,
    ∃ id, server.eventpool.workers.pcOf id = some (.running index)

/-- No worker is on its way to the queue, and no notification is due. -/
def AtRest (server : WebServer pq) : Prop :=
  server.eventpool.dueNotifies = 0 ∧
    ∀ worker ∈ server.eventpool.workers, worker.2.isReady = false

/-- All the workers are in loops while another loop waits. -/
def Stuck (server : WebServer pq) : Prop :=
  server.eventpool.tasks ≠ [] ∧
    ∀ worker ∈ server.eventpool.workers, ∃ index, worker.2 = .running index

/-- Every loop gets a worker. -/
structure Staffed (server : WebServer pq) : Prop where
  enough : server.srvConf.nthread.toNat ≤ server.eventpool.workers.length
  unstuck : ¬ server.Stuck
  allRun : server.AtRest → server.AllRun

/-- The connections go to the loops in turn, by an index that is always valid. -/
structure RoundRobin (server : WebServer pq) : Prop where
  turns : ∀ conn index : Nat, server.process.owners[conn]? = some index →
    index = conn % server.srvConf.nthread.toNat
  valid : server.process.poolIdx < server.srvConf.nthread.toNat
  constructed : server.Constructed → server.process.poolIdx < server.process.connLoops.length

structure Steady (conf : ServerConf) (server : WebServer pq) : Prop where
  srvConf : server.srvConf = conf
  manned : server.eventpool.Manned server.process.connLoops.length
    (min conf.nthread.toNat defMaxNum)
  bounded : server.process.connLoops.length ≤ conf.nthread.toNat
  rotating : server.process.Rotating conf.nthread.toNat

theorem start_steady {ids : List Nat} (distinct : ids.Nodup)
    (size : ids.length = min conf.nthread.toNat defMaxNum) :
    (start pq conf ids).Steady conf where
  srvConf := rfl
  manned := size ▸ ThreadPool.construct_manned distinct defMaxNum
  bounded := Nat.zero_le _
  rotating := ⟨by simp [start, Process.start], fun _ => (Nat.zero_mod _).symm, nofun⟩

theorem Steady.construct (steady : server.Steady conf)
    (stepped : server.construct = some (after, note)) : after.Steady conf := by
  unfold WebServer.construct at stepped
  dsimp only at stepped
  split at stepped
  · rename_i room
    cases stepped
    refine ⟨steady.srvConf, ?_, ?_, steady.rotating.turns, steady.rotating.next,
      steady.rotating.pushed⟩
    · rw [List.length_append]
      exact steady.manned.enqueue
    · rw [steady.srvConf] at room
      rw [List.length_append]
      exact room.1
  · cases stepped

theorem Steady.workerStep (steady : server.Steady conf) {id : Nat}
    (stepped : server.workerStep id = some (after, note)) : after.Steady conf := by
  unfold WebServer.workerStep at stepped
  split at stepped
  · rename_i found
    cases stepped
    exact { steady with manned := steady.manned.workerBlock found }
  · cases stepped

/-- The members behind the acceptor move, and no loop comes or goes. -/
theorem Steady.setProcess (steady : server.Steady conf) {process : Process pq}
    (moved : process.Rotating conf.nthread.toNat ∧
      process.connLoops.length = server.process.connLoops.length) :
    Steady conf { server with process } := by
  obtain ⟨rotating, same⟩ := moved
  refine ⟨steady.srvConf, ?_, ?_, rotating⟩
  · rw [same]
    exact steady.manned
  · rw [same]
    exact steady.bounded

theorem Steady.loopStep (steady : server.Steady conf) {id : Nat} {choice : LoopChoice}
    (stepped : server.loopStep id choice = some (after, note)) : after.Steady conf := by
  unfold WebServer.loopStep at stepped
  split at stepped
  · obtain ⟨⟨process, said⟩, went, same⟩ := Option.bind_eq_some_iff.mp stepped
    cases same
    exact steady.setProcess (steady.rotating.loopStep went)
  · cases stepped

theorem Steady.acceptorStep (steady : server.Steady conf) {fd : Int}
    (stepped : server.acceptorStep fd = some (after, note)) : after.Steady conf := by
  unfold WebServer.acceptorStep at stepped
  split at stepped
  · rename_i constructed
    obtain ⟨⟨process, said⟩, went, same⟩ := Option.bind_eq_some_iff.mp stepped
    cases same
    have all : server.process.connLoops.length = conf.nthread.toNat := by
      rw [constructed.1, steady.srvConf]
    exact steady.setProcess (steady.rotating.acceptorStep all went)
  · cases stepped

theorem Steady.next (steady : server.Steady conf) {turn : ServerTurn}
    (stepped : server.next turn = some (after, note)) : after.Steady conf := by
  cases turn with
  | construct => exact steady.construct stepped
  | notifyOne woken =>
      obtain ⟨eventpool, notified, same⟩ := Option.map_eq_some_iff.mp stepped
      cases same
      exact { steady with manned := steady.manned.wake (ThreadPool.notifyOne_step notified) }
  | spurious id =>
      obtain ⟨eventpool, woke, same⟩ := Option.map_eq_some_iff.mp stepped
      cases same
      exact { steady with manned := steady.manned.wake (ThreadPool.wakeUp_step woke) }
  | worker id => exact steady.workerStep stepped
  | loop id choice => exact steady.loopStep stepped
  | acceptor fd => exact steady.acceptorStep stepped

theorem Runs.steady {notes : List ProcessNote} (run : (system pq conf).Runs notes server) :
    server.Steady conf := by
  refine @System.Runs.invariant _ _ _ (fun _ server => Steady conf server) ?_ ?_ _ _ run
  · intro server started
    obtain ⟨ids, distinct, size, rfl⟩ := started
    exact start_steady distinct size
  · intro notes before note after steady step
    obtain ⟨turn, stepped⟩ := step
    exact steady.next stepped

theorem Steady.roundRobin (steady : server.Steady conf) (some : 0 < conf.nthread.toNat) :
    server.RoundRobin := by
  have valid := steady.rotating.poolIdx_lt some
  refine ⟨?_, ?_, fun constructed => ?_⟩
  · rw [steady.srvConf]
    exact steady.rotating.turns
  · rwa [steady.srvConf]
  · rwa [constructed.1, steady.srvConf]

/-- With at most as many loops as the pool admits workers, every loop gets one. -/
theorem Steady.staffed (steady : server.Steady conf) (few : conf.nthread.toNat ≤ defMaxNum) :
    server.Staffed := by
  have manned := steady.manned
  have named : ∀ task ∈ server.eventpool.heldTasks, task < min conf.nthread.toNat defMaxNum := by
    intro task member
    have below := manned.mem_heldTasks.mp member
    have bounded := steady.bounded
    omega
  refine ⟨?_, fun stuck => stuck.1 (manned.toCrewed.queue_empty manned.once named stuck.2),
    fun rest index below => ?_⟩
  · rw [manned.size, steady.srvConf]
    omega
  · have empty : server.eventpool.tasks = [] := by
      by_contra waits
      obtain ⟨id, ready⟩ := manned.toCrewed.exists_ready manned.once named rest.1 waits
      have unready := rest.2 _ ((Workers.mem_iff_pcOf manned.distinct).mpr ready)
      cases unready
    have member := manned.mem_heldTasks.mpr below
    rw [ThreadPool.heldTasks, empty, List.nil_append] at member
    exact (Workers.mem_underway manned.distinct).mp member

/-- The constructor gets on with its loops while the workers in `ready` have not come to
the queue and the others are in loops. -/
structure Hiring (server : WebServer pq) (ready : List Nat) : Prop where
  tasks : server.eventpool.tasks = []
  dueNotifies : server.eventpool.dueNotifies = 0
  distinct : ready.Nodup
  here : ∀ id ∈ ready, server.eventpool.workers.pcOf id = some .ready
  places : ∀ id pc, server.eventpool.workers.pcOf id = some pc →
    id ∈ ready ∨ ∃ index, pc = .running index

theorem start_hiring {ids : List Nat} (distinct : ids.Nodup) :
    (start pq conf ids).Hiring ids where
  tasks := rfl
  dueNotifies := rfl
  distinct := distinct
  here id member := by
    have all : ((start pq conf ids).eventpool.workers.map Prod.fst).Nodup := by
      simpa [start, ThreadPool.construct, Function.comp_def] using distinct
    exact (Workers.mem_iff_pcOf all).mp (List.mem_map.mpr ⟨id, member, rfl⟩)
  places id pc found := by
    obtain ⟨front, back, shape, -⟩ := Workers.pcOf_split found
    have member : (id, pc) ∈ (start pq conf ids).eventpool.workers := by simp [shape]
    obtain ⟨other, known, same⟩ := List.mem_map.mp member
    cases same
    exact .inl known

/-- The constructor enqueues the next loop. -/
theorem Hiring.construct {ready : List Nat} (hiring : server.Hiring ready)
    (steady : server.Steady conf) (room : server.process.connLoops.length < conf.nthread.toNat) :
    server.construct = some ({ server with
      eventpool := { server.eventpool with
        tasks := [server.process.connLoops.length], dueNotifies := 1 }
      process := { server.process with
        connLoops := server.process.connLoops ++ [.fresh _ pq] } }, .quiet) := by
  have running : ¬ server.eventpool.stopNum = ThreadPool.threadStopAll := by
    rw [steady.manned.going]
    decide
  simp [WebServer.construct, ThreadPool.enqueue, steady.srvConf, room, running, hiring.tasks,
    hiring.dueNotifies]

/-- A worker takes the next loop as soon as it is enqueued. -/
theorem Hiring.take {id : Nat} {ready : List Nat} {notes : List ProcessNote}
    (hiring : server.Hiring (id :: ready)) (run : (system pq conf).Runs notes server)
    (room : server.process.connLoops.length < conf.nthread.toNat) :
    ∃ notes' after, (system pq conf).Runs notes' after ∧ after.Hiring ready ∧
      after.process.connLoops.length = server.process.connLoops.length + 1 := by
  have steady := Runs.steady run
  have found := hiring.here id List.mem_cons_self
  let index := server.process.connLoops.length
  let process : Process pq :=
    { server.process with connLoops := server.process.connLoops ++ [.fresh _ pq] }
  let enqueued : WebServer pq :=
    { server with eventpool := { server.eventpool with tasks := [index], dueNotifies := 1 }, process }
  let notified : WebServer pq :=
    { server with eventpool := { server.eventpool with tasks := [index], dueNotifies := 0 }, process }
  let taken : WebServer pq :=
    { server with
      eventpool := { server.eventpool with
        tasks := [], dueNotifies := 0,
        workers := server.eventpool.workers.setPc id (.running index) }
      process }
  have first : server.next .construct = some (enqueued, .quiet) := hiring.construct steady room
  have second : enqueued.next (.notifyOne none) = some (notified, .quiet) := by
    have awake : (server.eventpool.workers.any fun worker => worker.2.isWaiting) = false := by
      rw [List.any_eq_false]
      intro worker member
      obtain ⟨other, pc⟩ := worker
      have place := (Workers.mem_iff_pcOf steady.manned.distinct).mp member
      rcases hiring.places other pc place with waiting | ⟨task, rfl⟩
      · rw [hiring.here other waiting, Option.some.injEq] at place
        simp [← place, WorkerPc.isWaiting]
      · simp [WorkerPc.isWaiting]
    simp [WebServer.next, ThreadPool.notifyOne, enqueued, notified, awake]
  have third : notified.next (.worker id) = some (taken, .quiet) := by
    simp [WebServer.next, WebServer.workerStep, ThreadPool.workerBlock, notified, taken, found,
      steady.manned.going, ThreadPool.threadStopAll, index]
  refine ⟨_, taken, ((run.step ⟨_, first⟩).step ⟨_, second⟩).step ⟨_, third⟩, ?_, ?_⟩
  · obtain ⟨absent, distinct⟩ := List.nodup_cons.mp hiring.distinct
    refine ⟨rfl, rfl, distinct, fun other member => ?_, fun other pc place => ?_⟩
    · have differs : other ≠ id := fun same => absent (same ▸ member)
      rw [Workers.pcOf_setPc found, if_neg differs]
      exact hiring.here other (List.mem_cons_of_mem _ member)
    · rw [Workers.pcOf_setPc found] at place
      by_cases same : other = id
      · rw [if_pos same] at place
        exact .inr ⟨index, (Option.some.inj place).symm⟩
      · rw [if_neg same] at place
        refine (hiring.places other pc place).imp_left fun member => ?_
        exact (List.mem_cons.mp member).resolve_left same
  · exact List.length_append

/-- What waits in the queue is run by nobody. -/
theorem Steady.not_allRun (steady : server.Steady conf) (waits : server.eventpool.tasks ≠ []) :
    ¬ server.AllRun := by
  obtain ⟨index, rest, queue⟩ := List.exists_cons_of_ne_nil waits
  intro all
  have manned := steady.manned
  have waiting : index ∈ server.eventpool.tasks := by simp [queue]
  have below := manned.mem_heldTasks.mp (List.mem_append_left _ waiting)
  exact List.disjoint_of_nodup_append manned.once waiting
    ((Workers.mem_underway manned.distinct).mpr (all index below))

/-- The workers all go into loops while the constructor has loops left. -/
theorem Hiring.take_all {ready : List Nat} {notes : List ProcessNote}
    (hiring : server.Hiring ready) (run : (system pq conf).Runs notes server)
    (room : server.process.connLoops.length + ready.length < conf.nthread.toNat) :
    ∃ notes' after, (system pq conf).Runs notes' after ∧ after.Hiring [] ∧
      after.process.connLoops.length < conf.nthread.toNat := by
  induction ready generalizing server notes with
  | nil => exact ⟨notes, server, run, hiring, room⟩
  | cons id ready ih =>
      rw [List.length_cons] at room
      obtain ⟨notes', after, run', hiring', grown⟩ := hiring.take run (by omega)
      exact ih hiring' run' (by omega)

/-- With more loops than the pool admits workers, the constructor leaves one behind. -/
theorem exists_stuck (many : defMaxNum < conf.nthread.toNat) :
    ∃ notes server, (system pq conf).Runs notes server ∧ server.Stuck ∧ server.AtRest ∧
      ¬ server.AllRun := by
  have size : (List.range defMaxNum).length = min conf.nthread.toNat defMaxNum := by
    rw [List.length_range]
    omega
  have begun : (system pq conf).Runs [] (start pq conf (List.range defMaxNum)) :=
    .start ⟨_, List.nodup_range, size, rfl⟩
  obtain ⟨notes, server, run, hiring, room⟩ :=
    (start_hiring List.nodup_range).take_all begun (by simpa [start, Process.start] using many)
  have steady := Runs.steady run
  have busy : ∀ worker ∈ server.eventpool.workers, ∃ index, worker.2 = .running index := by
    intro worker member
    have place := (Workers.mem_iff_pcOf steady.manned.distinct).mp member
    exact (hiring.places worker.1 worker.2 place).resolve_left List.not_mem_nil
  have enqueued := run.step ⟨.construct, hiring.construct steady room⟩
  have awake : (server.eventpool.workers.any fun worker => worker.2.isWaiting) = false := by
    rw [List.any_eq_false]
    intro worker member
    obtain ⟨index, here⟩ := busy worker member
    simp [here, WorkerPc.isWaiting]
  have notified := enqueued.step ⟨.notifyOne none, by
    simp only [next, ThreadPool.notifyOne, awake]
    rfl⟩
  refine ⟨_, _, notified, ⟨List.cons_ne_nil _ _, busy⟩, ⟨rfl, fun worker member => ?_⟩,
    (Runs.steady notified).not_allRun (List.cons_ne_nil _ _)⟩
  obtain ⟨index, here⟩ := busy worker member
  rw [here]
  rfl

/-- The pool cuts its size to the default maximum, so the loops all get a worker only up
to that many. -/
theorem loops_staffed_iff (some : 0 < conf.nthread) :
    (∀ notes server, (system pq conf).Runs notes server → server.RoundRobin) ∧
      ((∀ notes server, (system pq conf).Runs notes server → server.Staffed) ↔
        conf.nthread ≤ 10) ∧
      (10 < conf.nthread → ∃ notes server, (system pq conf).Runs notes server ∧
        server.Stuck ∧ server.AtRest ∧ ¬ server.AllRun) := by
  have positive : 0 < conf.nthread.toNat := UInt8.lt_iff_toNat_lt.mp some
  have above (many : 10 < conf.nthread) := @exists_stuck pq conf (UInt8.lt_iff_toNat_lt.mp many)
  refine ⟨fun notes server run => (Runs.steady run).roundRobin positive, ?_, above⟩
  constructor
  · intro all
    by_contra many
    obtain ⟨notes, server, run, stuck, -⟩ := above (UInt8.not_le.mp many)
    exact (all notes server run).unstuck stuck
  · intro few notes server run
    exact (Runs.steady run).staffed (UInt8.le_iff_toNat_le.mp few)

/-- Four workers take the four loops, and two clients come to the first two. -/
def fourLoops : List ServerTurn :=
  [.construct, .notifyOne none, .construct, .notifyOne none, .construct, .notifyOne none, .construct,
    .notifyOne none, .worker 0, .worker 1, .worker 2, .worker 3, .acceptor 7, .acceptor 7, .acceptor 7,
    .acceptor 9, .acceptor 9]

theorem four_loops_staffed :
    ∃ notes server, System.follow next (start (.sorted TimerNode.expire) ⟨4⟩ [0, 1, 2, 3]) fourLoops =
        some (server, notes) ∧
      server.process.owners = [0, 1] ∧ server.eventpool.workers.underway = [0, 1, 2, 3] ∧
      server.RoundRobin ∧ server.Staffed := by
  have outcome : (System.follow next (start (.sorted TimerNode.expire) ⟨4⟩ [0, 1, 2, 3])
      fourLoops).map (fun reached =>
        (reached.1.process.owners, reached.1.eventpool.workers.underway)) =
      some ([0, 1], [0, 1, 2, 3]) := by decide +kernel
  obtain ⟨⟨server, notes⟩, followed, read⟩ := Option.map_eq_some_iff.mp outcome
  obtain ⟨owners, underway⟩ := Prod.mk.inj read
  have begun : (system (.sorted TimerNode.expire) ⟨4⟩).Runs [] (start _ ⟨4⟩ [0, 1, 2, 3]) :=
    .start ⟨[0, 1, 2, 3], by decide, rfl, rfl⟩
  have run := begun.follow followed
  obtain ⟨turns, staffed, -⟩ := @loops_staffed_iff (.sorted TimerNode.expire) ⟨4⟩ (by decide)
  exact ⟨notes, server, followed, owners, underway, turns notes server run,
    staffed.mpr (by decide) notes server run⟩

/-- The eleventh loop waits behind ten that do not return. -/
theorem eleventh_loop_waits :
    ∃ notes server, (system (.sorted TimerNode.expire) ⟨11⟩).Runs notes server ∧
      server.Stuck ∧ server.AtRest ∧ ¬ server.AllRun :=
  exists_stuck (by decide)

end WebServer

end LiteWebServer
