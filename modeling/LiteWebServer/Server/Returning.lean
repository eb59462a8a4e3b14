import LiteWebServer.Server.Listening

namespace LiteWebServer

open Data

/-! A signal ends `start_loop`, although the write of a command blocks while the socketpair of
its loop is full. -/

namespace MainThread

variable {pq : PriorityQueue TimerNode TimerNode.expire} {main after : MainThread pq}
  {note : MainNote} {turn : MainTurn} {conf : ServerConf}

/-- The loop to whose command socket the next step of the main thread writes. -/
def writesTo (main : MainThread pq) : Option Nat :=
  match main.pc with
  | .dealing _ =>
      if main.server.process.acceptor = .pushed then some main.server.process.poolIdx else none
  | .stopping index => if index < main.server.srvConf.nthread.toNat then some index else none
  | _ => none

/-- The loop that the main thread waits for in `cmd_send`, when a socketpair holds so many
commands. -/
def waitsFor (capacity : Nat) (main : MainThread pq) : Option Nat := do
  let index ← main.writesTo
  let loop ← main.loops[index]?
  if capacity ≤ loop.cmdSockpair.length then some index else none

/-- The program with socketpairs that hold so many commands. -/
def nextBlocking (capacity : Nat) (main : MainThread pq) : MainTurn → Option (MainThread pq × MainNote)
  | .main result => if (main.waitsFor capacity).isSome then none else main.next (.main result)
  | turn => main.next turn

/-- The turns that bring loop `index` nearer to its next `read`: those of the workers that come
to the queue while its task waits there, and those of its worker. -/
def Brings (main : MainThread pq) (index : Nat) : MainTurn → Prop
  | .worker id => index ∈ main.pool.tasks ∧ main.pool.workers.pcOf id = some .ready
  | .loop id _ => main.pool.workers.pcOf id = some (.running index)
  | _ => False

/-- The `epoll_wait` of loop `index` reports commands that wait. -/
def Reports (main : MainThread pq) (index : Nat) : MainTurn → Prop
  | .loop _ choice => ∀ loop, main.loops[index]? = some loop → loop.Prompt choice
  | _ => True

/-- The turns that the return of `start_loop` depends on: those of the main thread, and while
it waits for a loop, those that bring the loop to its `read`. -/
def BlockingOwn (capacity : Nat) (main : MainThread pq) (turn : MainTurn) : Prop :=
  match main.waitsFor capacity with
  | none => main.MainOwn turn
  | some index => main.Brings index turn ∧ main.Reports index turn

/-- A worker runs each loop that the main thread has not sent its stop. -/
def LoopsRun (main : MainThread pq) : Prop :=
  ∀ index, main.pc.stops main.server.srvConf.nthread.toNat ≤ index →
    index < main.server.srvConf.nthread.toNat → ∃ id, main.pool.workers.pcOf id = some (.running index)

/-- The loops that were not sent their stop go on. -/
def Unstopped (main : MainThread pq) : Prop :=
  ∀ (index : Nat) (loop : ConnLoop (Option Nat) pq),
    main.pc.stops main.server.srvConf.nthread.toNat ≤ index → main.loops[index]? = some loop → loop.Going

/-- The pool has its workers, and each loop once. -/
structure Tended (conf : ServerConf) (main : MainThread pq) : Prop where
  crewed : main.pool.Crewed (min conf.nthread.toNat WebServer.defMaxNum)
  once : main.pool.heldTasks.Nodup

variable {capacity index : Nat}

theorem waitsFor_eq_some : main.waitsFor capacity = some index ↔
    main.writesTo = some index ∧
      ∃ loop, main.loops[index]? = some loop ∧ capacity ≤ loop.cmdSockpair.length := by
  unfold waitsFor
  constructor
  · intro waits
    obtain ⟨other, writes, waits⟩ := Option.bind_eq_some_iff.mp waits
    obtain ⟨loop, found, waits⟩ := Option.bind_eq_some_iff.mp waits
    split at waits
    · rename_i full
      cases waits
      exact ⟨writes, loop, found, full⟩
    · cases waits
  · rintro ⟨writes, loop, found, full⟩
    simp [writes, found, full]

theorem writesTo_pc (writes : main.writesTo = some index) : main.pc ≠ .waiting ∧ main.pc ≠ .returned := by
  unfold writesTo at writes
  constructor <;> intro here <;> simp [here] at writes

/-- It writes to a loop that is still to be sent its stop. -/
theorem Listening.writesTo (listening : Listening conf main) (threads : 0 < conf.nthread.toNat)
    (writes : main.writesTo = some index) :
    main.pc.stops main.server.srvConf.nthread.toNat ≤ index ∧
      index < main.server.srvConf.nthread.toNat := by
  unfold MainThread.writesTo at writes
  split at writes
  · rename_i here
    split at writes
    · cases writes
      rw [here, listening.staged.srvConf]
      exact ⟨Nat.zero_le _, listening.rotating.poolIdx_lt threads⟩
    · cases writes
  · rename_i here
    split at writes
    · rename_i left
      cases writes
      rw [here]
      exact ⟨le_rfl, left⟩
    · cases writes
  · cases writes

/-! The loops that are still to be sent their stop. -/

theorem MainStep.unsent (step : MainStep main turn after note)
    (sent : after.pc.stops main.server.srvConf.nthread.toNat ≤ index)
    (small : index < main.server.srvConf.nthread.toNat) :
    main.pc.stops main.server.srvConf.nthread.toNat ≤ index := by
  cases step with
  | stop here left found =>
      rw [here]
      exact Nat.le_of_succ_le sent
  | leave here all => exact absurd small (Nat.not_lt.mpr sent)
  | wait here | fail here | again here | deal here | exit here | giveUp here =>
      rw [here]
      exact Nat.zero_le _
  | _ => exact sent

theorem acceptorStep_going {server server' : WebServer pq} {fd : Int} {said : ProcessNote}
    (moved : server.acceptorStep fd = some (server', said)) {loop' : ConnLoop (Option Nat) pq}
    (found' : server'.process.connLoops[index]? = some loop') :
    ∃ loop, server.process.connLoops[index]? = some loop ∧ (loop.Going → loop'.Going) := by
  unfold WebServer.acceptorStep at moved
  split at moved
  · obtain ⟨⟨process, note⟩, stepped, same⟩ := Option.bind_eq_some_iff.mp moved
    cases same
    have set {other : Nat} {loop next : ConnLoop (Option Nat) pq}
        (found : server.process.connLoops[other]? = some loop) (going : loop.Going → next.Going)
        (found' : (server.process.connLoops.set other next)[index]? = some loop') :
        ∃ loop, server.process.connLoops[index]? = some loop ∧ (loop.Going → loop'.Going) := by
      by_cases same : other = index
      · subst same
        rw [List.getElem?_set_self (List.getElem?_eq_some_iff.mp found).1] at found'
        cases found'
        exact ⟨loop, found, going⟩
      · rw [List.getElem?_set_ne same] at found'
        exact ⟨loop', found', id⟩
    cases Process.acceptorStep_move stepped with
    | accept here new => exact ⟨loop', found', id⟩
    | push here found => exact set found (fun going => going.pushed _) found'
    | write here found wrote => exact set found (fun going => going.written wrote) found'
  · cases moved

theorem Unstopped.next (unstopped : main.Unstopped) (staged : Staged conf main)
    (step : MainStep main turn after note) : after.Unstopped := by
  intro index loop' sent found'
  have small : index < main.server.srvConf.nthread.toNat := by
    rw [staged.srvConf]
    exact (List.getElem?_eq_some_iff.mp found').1.trans_le (staged.next step).size
  rw [step.srvConf] at sent
  have sent' := step.unsent sent small
  cases step with
  | construct moved =>
      obtain ⟨room, rfl⟩ := construct_some moved
      rcases getElem?_concat found' with old | ⟨-, rfl⟩
      · exact unstopped index loop' sent' old
      · exact ConnLoop.fresh_going
  | accept here idle waits moved | handOver here busy moved =>
      obtain ⟨loop, found, goes⟩ := acceptorStep_going moved found'
      exact goes (unstopped index loop sent' found)
  | stop here left found =>
      rw [MainThread.loops, List.getElem?_set_ne (Nat.ne_of_lt sent)] at found'
      exact unstopped index loop' sent' found'
  | @loop id choice server said moved =>
      obtain ⟨other, loop, next, note, running, found, looped, loops, -, -⟩ := loopStep_loop moved
      rw [MainThread.loops, loops] at found'
      by_cases same : other = index
      · subst same
        rw [List.getElem?_set_self (List.getElem?_eq_some_iff.mp found).1] at found'
        cases found'
        exact (unstopped other loop sent' found).loopStep looped
      · rw [List.getElem?_set_ne same] at found'
        exact unstopped index loop' sent' found'
  | _ => exact unstopped index loop' sent' found'

/-! The workers of the loops. -/

theorem mem_running {workers : Workers Nat} {id : Nat} :
    index ∈ workers.running id ↔ workers.pcOf id = some (.running index) := by
  rw [Workers.running]
  cases workers.pcOf id with
  | none => simp
  | some pc => cases pc <;> simp [WorkerPc.task, eq_comm]

theorem Tended.holds_iff (tended : Tended conf main) :
    index ∈ main.pool.heldTasks ↔ main.pool.Holds index := by
  rw [ThreadPool.heldTasks, List.mem_append, Workers.mem_underway tended.crewed.distinct,
    ThreadPool.Holds]
  simp only [mem_running]

theorem Tended.next (tended : Tended conf main) (hosted : main.Hosted) (serving : main.pc ≠ .returned)
    (step : MainStep main turn after note) : Tended conf after := by
  rcases step.pool with same | ⟨turn', note', stepped, unmanaged, dtor, -, built⟩
  · exact ⟨by rw [same]; exact tended.crewed, by rw [same]; exact tended.once⟩
  · obtain ⟨crewed, held⟩ := tended.crewed.next stepped unmanaged fun same => serving (dtor same)
    refine ⟨crewed, ?_⟩
    obtain ⟨between, same, part⟩ := held
    refine same.nodup_iff.mp (List.Sublist.nodup part ?_)
    cases enqueued : note'.enqueued? with
    | none => exact tended.once
    | some last =>
        -- The loop that is put in is behind those that are held.
        obtain rfl : note' = .enqueued last := by
          cases note' <;> simp_all [PoolNote.enqueued?]
        refine List.nodup_cons.mpr ⟨fun member => ?_, tended.once⟩
        have below := hosted.named last (tended.holds_iff.mp member)
        exact absurd (built last rfl).2 (Nat.ne_of_lt below)

/-- A worker does not leave a loop before it has stopped. -/
theorem MainStep.keeps_running (step : MainStep main turn after note) (unstopped : main.Unstopped)
    (pooled : main.Pooled) (sent : main.pc.stops main.server.srvConf.nthread.toNat ≤ index)
    {id : Nat} (runs : main.pool.workers.pcOf id = some (.running index)) :
    after.pool.workers.pcOf id = some (.running index) := by
  rcases step.pool with same | ⟨turn', note', stepped, -, -, finished, -⟩
  · rw [same]
    exact runs
  · have accounts := (ThreadPool.Accounts.next pooled.sound stepped).runs id
    have member : index ∈ (note'.ranBy? id).toList ++ after.pool.workers.running id := by
      rw [← accounts]
      exact List.mem_append_left _ (mem_running.mpr runs)
    rcases List.mem_append.mp member with ran | runs'
    · cases note' with
      | ran other done =>
          by_cases same : other = id
          · obtain rfl : index = done := by simpa [PoolNote.ranBy?, same] using ran
            obtain ⟨loop, found, stopped⟩ := finished other index rfl
            exact absurd stopped (unstopped index loop sent found).runs
          · simp [PoolNote.ranBy?, same] at ran
      | _ => simp [PoolNote.ranBy?] at ran
    · exact mem_running.mp runs'

theorem LoopsRun.next (run : main.LoopsRun) (unstopped : main.Unstopped) (pooled : main.Pooled)
    (step : MainStep main turn after note) : after.LoopsRun := by
  intro index sent small
  rw [step.srvConf] at sent small
  have sent' := step.unsent sent small
  obtain ⟨id, runs⟩ := run index sent' small
  exact ⟨id, step.keeps_running unstopped pooled sent' runs⟩

/-- What holds in every reachable state until `start_loop` returns. -/
structure Serving (conf : ServerConf) (main : MainThread pq) : Prop where
  standing : Standing conf main
  listening : Listening conf main
  unstopped : main.Unstopped
  tended : main.pc ≠ .returned → Tended conf main

theorem Serving.next (serving : Serving conf main) (step : MainStep main turn after note) :
    Serving conf after where
  standing := serving.standing.next step
  listening := serving.listening.next step
  unstopped := serving.unstopped.next serving.listening.staged step
  tended := fun goesOn =>
    have here : main.pc ≠ .returned := fun gone => goesOn (step.returned gone)
    (serving.tended here).next serving.standing.hosted here step

theorem Runs.serving {epollEtSrv : Bool} (threads : 0 < conf.nthread.toNat) {notes : List MainNote}
    (run : (system pq conf epollEtSrv).Runs notes main) : Serving conf main := by
  refine @System.Runs.invariant _ _ _ (fun _ main => Serving conf main) ?_ ?_ _ _ run
  · intro main held
    refine ⟨Runs.standing threads (.start held), Runs.listening (.start held), ?_, fun _ => ?_⟩
    · obtain ⟨ids, -, -, rfl⟩ := held
      exact fun index loop _ found => by cases found
    · obtain ⟨ids, distinct, size, rfl⟩ := held
      have crewed := @ThreadPool.construct_crewed Nat ids distinct WebServer.defMaxNum
      rw [size] at crewed
      refine ⟨crewed, ?_⟩
      change (ThreadPool.construct ids WebServer.defMaxNum false : ThreadPool Nat).heldTasks.Nodup
      rw [ThreadPool.construct_heldTasks]
      exact List.nodup_nil
  · intro notes before note after serving held
    obtain ⟨turn, stepped⟩ := held
    exact serving.next (next_step stepped)

/-! The return of `start_loop`. -/

/-- How far loop `index` is from its next `read`.  While its task waits in the queue, the tasks
there are counted. -/
def readRank (main : MainThread pq) (index : Nat) : ℕ ×ₗ (ℕ ×ₗ ℕ) :=
  if index ∈ main.pool.tasks then toLex (main.pool.tasks.length, toLex (0, 0))
  else toLex (0, (main.loops[index]?).elim (toLex (0, 0)) ConnLoop.closingRank)

/-- How far the loop that the main thread waits for is from its next `read`. -/
def waitRank (capacity : Nat) (main : MainThread pq) : ℕ ×ₗ (ℕ ×ₗ ℕ) :=
  (main.waitsFor capacity).elim (toLex (0, toLex (0, 0))) main.readRank

/-- What is known on the way to the return. -/
structure Returning (conf : ServerConf) (main : MainThread pq) : Prop extends Serving conf main where
  staffed : conf.nthread.toNat ≤ WebServer.defMaxNum ∨ main.LoopsRun
  signalled : main.exitEvent ≠ 0

theorem Returning.next (returning : Returning conf main) (step : MainStep main turn after note)
    (signalled : after.exitEvent ≠ 0) : Returning conf after where
  toServing := returning.toServing.next step
  staffed := returning.staffed.imp_right fun run =>
    run.next returning.unstopped returning.standing.pooled step
  signalled := signalled

/-- The loop that it waits for goes on, has something to read, and has a worker or waits for
one. -/
theorem Returning.awaited (returning : Returning conf main) (threads : 0 < conf.nthread.toNat)
    (room : 0 < capacity) (waits : main.waitsFor capacity = some index) :
    ∃ loop, main.loops[index]? = some loop ∧ loop.Going ∧ loop.cmdSockpair ≠ [] ∧
      (index ∈ main.pool.tasks ∨ ∃ id, main.pool.workers.pcOf id = some (.running index)) := by
  obtain ⟨writes, loop, found, full⟩ := waitsFor_eq_some.mp waits
  obtain ⟨sent, small⟩ := returning.listening.writesTo threads writes
  have going := returning.unstopped index loop sent found
  refine ⟨loop, found, going, fun empty => ?_, ?_⟩
  · rw [empty, List.length_nil] at full
    omega
  · rcases returning.standing.hosted.hosted index loop found with queued | stopped
    · exact queued.imp_right fun ⟨id, runs⟩ => ⟨id, mem_running.mp runs⟩
    · exact absurd stopped going.runs

theorem Returning.tends (returning : Returning conf main) (waits : main.waitsFor capacity = some index) :
    Tended conf main :=
  returning.tended (writesTo_pc (waitsFor_eq_some.mp waits).1).2

/-- A loop in the queue is run by nobody. -/
theorem Tended.not_queued (tended : Tended conf main) {id : Nat}
    (runs : main.pool.workers.pcOf id = some (.running index)) : index ∉ main.pool.tasks :=
  fun queued => List.disjoint_of_nodup_append tended.once queued
    ((Workers.mem_underway tended.crewed.distinct).mpr ⟨id, runs⟩)

/-- While the loop waits in the queue, a worker comes there. -/
theorem Returning.exists_ready (returning : Returning conf main) (threads : 0 < conf.nthread.toNat)
    (waits : main.waitsFor capacity = some index) (queued : index ∈ main.pool.tasks) :
    ∃ id, main.pool.workers.pcOf id = some .ready := by
  have writes := (waitsFor_eq_some.mp waits).1
  have tended := returning.tends waits
  rcases returning.staffed with few | run
  · refine tended.crewed.exists_ready tended.once (fun task member => ?_)
      (returning.listening.calm (writesTo_pc writes).1) (List.ne_nil_of_mem queued)
    have below := returning.standing.hosted.named task (tended.holds_iff.mp member)
    have size := returning.standing.staged.size
    omega
  · obtain ⟨sent, small⟩ := returning.listening.writesTo threads writes
    obtain ⟨id, runs⟩ := run index sent small
    exact absurd queued (tended.not_queued runs)

theorem Returning.advances (returning : Returning conf main) (threads : 0 < conf.nthread.toNat)
    (room : 0 < capacity) (serving : main.pc ≠ .returned) :
    ∃ turn, main.BlockingOwn capacity turn ∧ (main.nextBlocking capacity turn).isSome := by
  unfold BlockingOwn
  cases waits : main.waitsFor capacity with
  | none =>
      obtain ⟨turn, own, moves⟩ := returning.listening.advances returning.standing.pooled.sound threads
        returning.signalled serving
      refine ⟨turn, own, ?_⟩
      unfold nextBlocking
      split
      · rw [waits]
        exact moves
      · exact moves
  | some index =>
      obtain ⟨loop, found, going, -, -⟩ := returning.awaited threads room waits
      by_cases queued : index ∈ main.pool.tasks
      · obtain ⟨id, ready⟩ := returning.exists_ready threads waits queued
        have ready' : main.server.eventpool.workers.pcOf id = some .ready := ready
        refine ⟨.worker id, ⟨⟨queued, ready⟩, trivial⟩, ?_⟩
        simp [nextBlocking, MainThread.next, workerStep, withPool, ThreadPool.workerStep, ready']
      · obtain ⟨-, -, -, -, held⟩ := returning.awaited threads room waits
        obtain ⟨id, runs⟩ := held.resolve_left queued
        obtain ⟨choice, prompt, moves⟩ :=
          ConnLoop.exists_prompt main.server.process.fds.lookup going.runs
        refine ⟨.loop id choice, ⟨runs, fun other found' => ?_⟩, loop_moves runs found moves⟩
        rw [found, Option.some.injEq] at found'
        rwa [← found']

/-- A worker that comes to the queue takes the task in front. -/
theorem Returning.work_lowers (returning : Returning conf main)
    (waits : main.waitsFor capacity = some index) {id : Nat} (queued : index ∈ main.pool.tasks)
    (ready : main.pool.workers.pcOf id = some .ready) {eventpool : ThreadPool Nat} {said : PoolNote Nat}
    (step : ThreadPool.WorkerStep main.pool id eventpool said) :
    waitRank capacity { main with server := { main.server with eventpool } } < main.waitRank capacity := by
  have going := (returning.tends waits).crewed.going
  have waits' : MainThread.waitsFor capacity { main with server := { main.server with eventpool } } =
      some index := waits
  rw [waitRank, waits', waitRank, waits, Option.elim_some, Option.elim_some, readRank, readRank,
    if_pos queued]
  cases step with
  | @take task rest found queue =>
      have fewer : rest.length < main.pool.tasks.length := by
        rw [queue, List.length_cons]
        exact Nat.lt_succ_self _
      change (if index ∈ rest then toLex (rest.length, toLex (0, 0)) else toLex (0, _)) < _
      split
      · exact .left _ _ fewer
      · exact .left _ _ (Nat.zero_lt_of_lt fewer)
  | block _ _ idle => rw [idle] at queued; cases queued
  | exit _ partial_ => omega
  | leave _ stopped => rw [going] at stopped; cases stopped
  | front _ negative => omega
  | run runs => rw [ready] at runs; cases runs

/-- What brings a loop to its `read` is aside for the main thread. -/
theorem Brings.aside (brings : main.Brings index turn) : main.MainAside turn := by
  cases turn with
  | worker | loop => trivial
  | _ => cases brings

end MainThread

end LiteWebServer
