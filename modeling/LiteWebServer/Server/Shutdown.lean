import LiteWebServer.ConnLoop.Stopping
import LiteWebServer.Server.Steps
import LiteWebServer.ThreadPool.Teardown

namespace LiteWebServer

open Data

/-! Behind `start_loop` every loop stops, every thread returns and the pool is gone. -/

namespace ThreadPool

variable {pool after : ThreadPool τ} {note : PoolNote τ} {task : τ}

/-- The task waits in the queue or is in work. -/
def Holds (pool : ThreadPool τ) (task : τ) : Prop :=
  task ∈ pool.tasks ∨ ∃ id, task ∈ pool.workers.running id

/-- A task is held until it is run to its end. -/
theorem Accounts.holds (accounts : Accounts pool note after) (held : pool.Holds task) :
    after.Holds task ∨ ∃ id, note = .ran id task := by
  rcases held with waits | ⟨id, runs⟩
  · have member : task ∈ note.taken?.toList ++ after.tasks := by
      rw [accounts.order]
      exact List.mem_append_left _ waits
    rcases List.mem_append.mp member with taken | left
    · cases note with
      | took id other =>
          obtain rfl : task = other := by simpa [PoolNote.taken?] using taken
          have here : task ∈ after.workers.running id := by
            have runs := accounts.runs id
            simp only [PoolNote.takenBy?, PoolNote.ranBy?, if_true, Option.toList_some,
              Option.toList_none, List.nil_append] at runs
            rw [← runs]
            exact List.mem_append_right _ List.mem_cons_self
          exact .inl (.inr ⟨id, here⟩)
      | _ => simp [PoolNote.taken?] at taken
    · exact .inl (.inl left)
  · have member : task ∈ (note.ranBy? id).toList ++ after.workers.running id := by
      rw [← accounts.runs]
      exact List.mem_append_left _ runs
    rcases List.mem_append.mp member with ran | here
    · cases note with
      | ran other done =>
          by_cases same : other = id
          · obtain rfl : task = done := by simpa [PoolNote.ranBy?, same] using ran
            exact .inr ⟨other, rfl⟩
          · simp [PoolNote.ranBy?, same] at ran
      | _ => simp [PoolNote.ranBy?] at ran
    · exact .inl (.inr ⟨id, here⟩)

/-- A task is held only after it is put in. -/
theorem Accounts.held (accounts : Accounts pool note after) (holds : after.Holds task) :
    pool.Holds task ∨ note = .enqueued task := by
  rcases holds with waits | ⟨id, runs⟩
  · have member : task ∈ pool.tasks ++ note.enqueued?.toList := by
      rw [← accounts.order]
      exact List.mem_append_right _ waits
    rcases List.mem_append.mp member with before | enqueued
    · exact .inl (.inl before)
    · cases note with
      | enqueued other =>
          obtain rfl : task = other := by simpa [PoolNote.enqueued?] using enqueued
          exact .inr rfl
      | _ => simp [PoolNote.enqueued?] at enqueued
  · have member : task ∈ pool.workers.running id ++ (note.takenBy? id).toList := by
      rw [accounts.runs]
      exact List.mem_append_right _ runs
    rcases List.mem_append.mp member with before | taken
    · exact .inl (.inr ⟨id, before⟩)
    · cases note with
      | took other done =>
          by_cases same : other = id
          · obtain rfl : task = done := by simpa [PoolNote.takenBy?, same] using taken
            have order := accounts.order
            simp only [PoolNote.taken?, PoolNote.enqueued?, Option.toList_some, Option.toList_none,
              List.append_nil] at order
            refine .inl (.inl ?_)
            rw [← order]
            exact List.mem_append_left _ List.mem_cons_self
          · simp [PoolNote.takenBy?, same] at taken
      | _ => simp [PoolNote.takenBy?] at taken

end ThreadPool

namespace ConnLoop

variable {κ : Type} {pq : PriorityQueue TimerNode TimerNode.expire} {loop after : ConnLoop κ pq}

/-- A stopped loop stays so. -/
theorem next_stopped {newConn : Int → κ} {turn : LoopTurn} {note : LoopNote κ}
    (stopped : loop.pc = .stopped) (stepped : next newConn loop turn = some (after, note)) :
    after.pc = .stopped := by
  rcases next_step stepped with step | ⟨choice, same, -⟩
  · cases step <;> exact stopped
  · subst same
    simp [next, loopStep, stopped] at stepped

end ConnLoop

/-- What a step does to the loops that there are: a step of one of them or of its callers. -/
inductive LoopsMoved {pq : PriorityQueue TimerNode TimerNode.expire}
    (loops : List (ConnLoop (Option Nat) pq)) : List (ConnLoop (Option Nat) pq) → Prop where
  | same : LoopsMoved loops loops
  | moved {index loop after newConn turn note} (found : loops[index]? = some loop)
      (stepped : ConnLoop.next newConn loop turn = some (after, note)) :
      LoopsMoved loops (loops.set index after)

section LoopsMoved

variable {pq : PriorityQueue TimerNode TimerNode.expire} {loops after : List (ConnLoop (Option Nat) pq)}

theorem getElem?_concat {list : List α} {index : Nat} {last entry : α}
    (found : (list ++ [last])[index]? = some entry) :
    list[index]? = some entry ∨ index = list.length ∧ entry = last := by
  by_cases old : index < list.length
  · rw [List.getElem?_append_left old] at found
    exact .inl found
  · rw [List.getElem?_append_right (Nat.le_of_not_lt old), List.getElem?_singleton] at found
    split at found
    · rename_i zero
      exact .inr ⟨by omega, (Option.some.inj found).symm⟩
    · cases found

theorem LoopsMoved.length (moved : LoopsMoved loops after) : after.length = loops.length := by
  cases moved with
  | same => rfl
  | moved => exact List.length_set

theorem LoopsMoved.behind (moved : LoopsMoved loops after) {index : Nat}
    {loop' : ConnLoop (Option Nat) pq} (found' : after[index]? = some loop') :
    ∃ loop, loops[index]? = some loop ∧
      (loop' = loop ∨ ∃ newConn turn note, ConnLoop.next newConn loop turn = some (loop', note)) := by
  cases moved with
  | same => exact ⟨loop', found', .inl rfl⟩
  | @moved other loop next newConn turn note found stepped =>
      by_cases same : other = index
      · subst other
        have inside := (List.getElem?_eq_some_iff.mp found).1
        rw [List.getElem?_set_self inside, Option.some.injEq] at found'
        subst found'
        exact ⟨loop, found, .inr ⟨newConn, turn, note, stepped⟩⟩
      · rw [List.getElem?_set_ne same] at found'
        exact ⟨loop', found', .inl rfl⟩

end LoopsMoved

namespace MainPc

/-- How many of `count` loops have been sent their stop. -/
def stops (count : Nat) : MainPc → Nat
  | .stopping index => index
  | .returned => count
  | _ => 0

end MainPc

namespace MainThread

variable {pq : PriorityQueue TimerNode TimerNode.expire} {main after : MainThread pq}
  {note : MainNote} {turn : MainTurn} {conf : ServerConf}

def pool (main : MainThread pq) : ThreadPool Nat := main.server.eventpool

def loops (main : MainThread pq) : List (ConnLoop (Option Nat) pq) := main.server.process.connLoops

theorem construct_some {server server' : WebServer pq} {said : ProcessNote}
    (moved : server.construct = some (server', said)) :
    server.process.connLoops.length < server.srvConf.nthread.toNat ∧
      server' = { server with
        eventpool := (server.eventpool.enqueue server.process.connLoops.length).1,
        process := { server.process with
          connLoops := server.process.connLoops ++ [.fresh _ pq] } } := by
  unfold WebServer.construct at moved
  dsimp only at moved
  split at moved
  · rename_i room
    cases moved
    exact ⟨room.1, rfl⟩
  · cases moved

theorem acceptorStep_loops {server server' : WebServer pq} {fd : Int} {said : ProcessNote}
    (moved : server.acceptorStep fd = some (server', said)) :
    LoopsMoved server.process.connLoops server'.process.connLoops ∧
      server'.eventpool = server.eventpool ∧ server'.srvConf = server.srvConf := by
  unfold WebServer.acceptorStep at moved
  split at moved
  · obtain ⟨⟨process, note⟩, stepped, same⟩ := Option.bind_eq_some_iff.mp moved
    cases same
    refine ⟨?_, rfl, rfl⟩
    cases Process.acceptorStep_move stepped with
    | accept here new => exact .same
    | @push cliSock loop here found =>
        have stepped : ConnLoop.next (fun _ => none) loop (.addClisockToQueue cliSock) =
            some (loop.addClisockToQueue cliSock, .pushed cliSock) := rfl
        exact .moved found stepped
    | @write loop sent here found wrote =>
        have stepped : ConnLoop.next (fun _ => none) loop .cmdSendAddFd = some (sent, .quiet) := by
          rw [ConnLoop.next, wrote]
          rfl
        exact .moved found stepped
  · cases moved

/-- A worker makes a step of the loop that it runs. -/
theorem loopStep_loop {server server' : WebServer pq} {id : Nat} {choice : LoopChoice}
    {said : ProcessNote} (moved : server.loopStep id choice = some (server', said)) :
    ∃ index loop loop' note, server.eventpool.workers.pcOf id = some (.running index) ∧
      server.process.connLoops[index]? = some loop ∧
      loop.loopStep server.process.fds.lookup choice = some (loop', note) ∧
      server'.process.connLoops = server.process.connLoops.set index loop' ∧
      server'.eventpool = server.eventpool ∧ server'.srvConf = server.srvConf := by
  unfold WebServer.loopStep at moved
  split at moved
  · rename_i index running
    obtain ⟨⟨process, note⟩, stepped, same⟩ := Option.bind_eq_some_iff.mp moved
    cases same
    obtain ⟨loop, found, rest⟩ := Option.bind_eq_some_iff.mp stepped
    obtain ⟨⟨loop', note'⟩, looped, shape⟩ := Option.bind_eq_some_iff.mp rest
    refine ⟨index, loop, loop', note', running, found, looped, ?_, rfl, rfl⟩
    cases note' <;> cases shape <;> rfl
  · cases moved

theorem MainStep.loops (step : MainStep main turn after note) (built : turn ≠ .construct) :
    LoopsMoved main.loops after.loops := by
  cases step with
  | construct moved => exact absurd rfl built
  | accept here idle waits moved => exact (acceptorStep_loops moved).1
  | handOver here busy moved => exact (acceptorStep_loops moved).1
  | @stop result index loop here left found =>
      have stepped : ConnLoop.next (fun _ => none) loop (.cmdSend .close) =
          some (loop.cmdSend .close, .quiet) := rfl
      exact .moved found stepped
  | @loop id choice server note moved =>
      obtain ⟨index, loop, loop', said, running, found, looped, same, -⟩ := loopStep_loop moved
      change LoopsMoved main.server.process.connLoops server.process.connLoops
      rw [same]
      have stepped : ConnLoop.next main.server.process.fds.lookup loop (.loop choice) =
          some (loop', said) := looped
      exact .moved found stepped
  | _ => exact .same

/-- A turn of the pool within a step of the program.  There is no turn of a manager, only
behind `start_loop` one of the destructor, and only loops that have stopped are over. -/
structure PoolMoved (main : MainThread pq) (turn : MainTurn) (after : MainThread pq)
    (turn' : PoolTurn Nat) (note' : PoolNote Nat) : Prop where
  stepped : main.pool.next turn' = some (after.pool, note')
  unmanaged : ∀ choice, turn' ≠ .mgr choice
  dtor : turn' = .dtor → main.pc = .returned
  finished : ∀ id index, note' = .ran id index →
    ∃ loop, main.loops[index]? = some loop ∧ loop.pc = .stopped
  built : ∀ index, note' = .enqueued index → turn = .construct ∧ index = main.loops.length

theorem MainStep.pool (step : MainStep main turn after note) :
    after.pool = main.pool ∨ ∃ turn' note', main.PoolMoved turn after turn' note' := by
  have silent {turn' : PoolTurn Nat} {eventpool : ThreadPool Nat} {moved : Option (ThreadPool Nat)}
      (found : moved = some eventpool) (shape : main.pool.next turn' = moved.map (·, .quiet)) :
      main.pool.next turn' = some (eventpool, .quiet) := by
    rw [shape, found]
    rfl
  cases step with
  | construct moved =>
      obtain ⟨-, rfl⟩ := construct_some moved
      refine .inr ⟨.enqueue main.loops.length, (main.pool.enqueue main.loops.length).2, rfl,
        nofun, nofun, fun id index ran => ?_, fun index enqueued => ⟨rfl, ?_⟩⟩
      · unfold ThreadPool.enqueue at ran
        split at ran <;> cases ran
      · unfold ThreadPool.enqueue at enqueued
        split at enqueued <;> cases enqueued
        rfl
  | accept here idle waits moved => exact .inl (acceptorStep_loops moved).2.1
  | handOver here busy moved => exact .inl (acceptorStep_loops moved).2.1
  | dtor here moved =>
      exact .inr ⟨.dtor, .quiet, silent moved rfl, nofun, fun _ => here, nofun, nofun⟩
  | notifyOne moved => exact .inr ⟨.notifyOne _, .quiet, silent moved rfl, nofun, nofun, nofun, nofun⟩
  | spurious moved => exact .inr ⟨.spurious _, .quiet, silent moved rfl, nofun, nofun, nofun, nofun⟩
  | @work id eventpool note' moved finished =>
      have step := ThreadPool.workerStep_step moved
      refine .inr ⟨.worker id, note', moved, nofun, nofun, fun other index ran => ?_,
        fun index enqueued => ?_⟩
      · cases step with
        | run found =>
            cases ran
            exact finished index found
        | _ => cases ran
      · cases step <;> cases enqueued
  | loop moved =>
      obtain ⟨index, loop, loop', said, running, found, looped, -, same, -⟩ := loopStep_loop moved
      exact .inl same
  | _ => exact .inl rfl

theorem MainStep.srvConf (step : MainStep main turn after note) :
    after.server.srvConf = main.server.srvConf := by
  cases step with
  | construct moved =>
      obtain ⟨-, rfl⟩ := construct_some moved
      rfl
  | accept here idle waits moved => exact (acceptorStep_loops moved).2.2
  | handOver here busy moved => exact (acceptorStep_loops moved).2.2
  | loop moved =>
      obtain ⟨index, loop, loop', said, running, found, looped, -, -, same⟩ := loopStep_loop moved
      exact same
  | _ => rfl

/-- The stops are sent one by one, and to all loops before `start_loop` returns. -/
theorem MainStep.stops (step : MainStep main turn after note) :
    after.pc.stops main.server.srvConf.nthread.toNat ≤
        main.pc.stops main.server.srvConf.nthread.toNat ∨
      ∃ index loop, main.pc = .stopping index ∧ main.loops[index]? = some loop ∧
        after.loops = main.loops.set index (loop.cmdSend .close) ∧ after.pc = .stopping (index + 1) := by
  cases step with
  | stop here left found => exact .inr ⟨_, _, here, found, rfl, rfl⟩
  | leave here all =>
      left
      rw [here]
      exact all
  | wait | fail | again | deal | exit | giveUp => exact .inl (Nat.zero_le _)
  | _ => exact .inl le_rfl

theorem MainStep.returned (step : MainStep main turn after note) (here : main.pc = .returned) :
    after.pc = .returned := by
  cases step <;> simp_all

/-- The pool of the server, which has no manager. -/
structure Pooled (main : MainThread pq) : Prop where
  sound : main.pool.Sound
  parting : main.pool.Parting
  absent : main.pool.mgr = .absent
  called : main.pool.dtor ≠ .notCalled → main.pc = .returned

theorem next_unmanaged {pool after : ThreadPool Nat} {turn : PoolTurn Nat} {note : PoolNote Nat}
    (stepped : pool.next turn = some (after, note)) (plain : ∀ choice, turn ≠ .mgr choice) :
    after.mgr = pool.mgr ∧ (turn ≠ .dtor → after.dtor = pool.dtor) := by
  cases ThreadPool.next_step stepped with
  | refuse | enqueue => exact ⟨rfl, fun _ => rfl⟩
  | notifyOne step => cases step <;> exact ⟨rfl, fun _ => rfl⟩
  | spurious step => cases step <;> exact ⟨rfl, fun _ => rfl⟩
  | worker step => cases step <;> exact ⟨rfl, fun _ => rfl⟩
  | mgr step => exact absurd rfl (plain _)
  | dtor step => exact ⟨by cases step <;> rfl, fun other => absurd rfl other⟩

theorem Pooled.next (pooled : main.Pooled) (step : MainStep main turn after note) : after.Pooled := by
  rcases step.pool with same | ⟨turn', note', stepped, plain, dtor, -, -⟩
  · refine ⟨by rw [same]; exact pooled.sound, by rw [same]; exact pooled.parting,
      by rw [same]; exact pooled.absent, fun called => ?_⟩
    rw [same] at called
    exact step.returned (pooled.called called)
  · obtain ⟨mgr, others⟩ := next_unmanaged stepped plain
    refine ⟨(pooled.sound.next stepped).1, pooled.parting.next pooled.sound stepped,
      mgr.trans pooled.absent, fun called => step.returned ?_⟩
    by_cases destroys : turn' = .dtor
    · exact dtor destroys
    · rw [others destroys] at called
      exact pooled.called called

/-- The loops are there before the main thread comes to its `epoll_wait`. -/
structure Staged (conf : ServerConf) (main : MainThread pq) : Prop where
  srvConf : main.server.srvConf = conf
  size : main.loops.length ≤ conf.nthread.toNat
  full : main.pc ≠ .waiting → main.loops.length = conf.nthread.toNat

theorem Staged.next (staged : Staged conf main) (step : MainStep main turn after note) :
    Staged conf after := by
  have srvConf := step.srvConf.trans staged.srvConf
  by_cases built : turn = .construct
  · subst built
    cases step with
    | construct moved =>
        obtain ⟨room, rfl⟩ := construct_some moved
        rw [staged.srvConf] at room
        refine ⟨srvConf, ?_, fun gone => absurd (staged.full gone) (Nat.ne_of_lt room)⟩
        rw [MainThread.loops, List.length_append, List.length_singleton]
        exact room
  · have length := (step.loops built).length
    refine ⟨srvConf, by rw [length]; exact staged.size, fun gone => ?_⟩
    rw [length]
    by_cases here : main.pc = .waiting
    · cases step with
      | wait _ constructed | fail _ constructed =>
          rw [← staged.srvConf]
          exact constructed.1
      | _ => simp_all
    · exact staged.full here

/-- What is known of each loop: that it misses no command, and that a stop sent to it is on
its way or has arrived. -/
structure Warned (main : MainThread pq) : Prop where
  handover : ∀ (index : Nat) (loop : ConnLoop (Option Nat) pq), main.loops[index]? = some loop →
    ∃ notes, ConnLoop.Handover notes loop
  sent : ∀ (index : Nat) (loop : ConnLoop (Option Nat) pq),
    index < main.pc.stops main.server.srvConf.nthread.toNat → main.loops[index]? = some loop →
      loop.CloseDue

/-- A loop is in the queue of the pool or run by a worker until it has stopped. -/
structure Hosted (main : MainThread pq) : Prop where
  hosted : ∀ (index : Nat) (loop : ConnLoop (Option Nat) pq), main.loops[index]? = some loop →
    main.pool.Holds index ∨ loop.pc = .stopped
  named : ∀ index, main.pool.Holds index → index < main.loops.length

theorem Staged.building (staged : Staged conf main)
    (room : main.loops.length < main.server.srvConf.nthread.toNat) : main.pc = .waiting := by
  by_contra gone
  rw [staged.srvConf] at room
  exact absurd (staged.full gone) (Nat.ne_of_lt room)

theorem Hosted.construct (hosted : main.Hosted) (pooled : main.Pooled) (waits : main.pc = .waiting)
    {said : ProcessNote} {server : WebServer pq} (moved : main.server.construct = some (server, said)) :
    Hosted { main with server } := by
  obtain ⟨room, rfl⟩ := construct_some moved
  have going : main.pool.stopNum ≠ ThreadPool.threadStopAll := by
    rw [ne_eq, pooled.sound.stopped_iff]
    intro stopped
    have called : main.pool.dtor ≠ .notCalled := fun same => by simp [same, DtorPc.stopped] at stopped
    rw [pooled.called called] at waits
    cases waits
  have stepped : main.pool.next (.enqueue main.loops.length) =
      some ((main.pool.enqueue main.loops.length).1, .enqueued main.loops.length) := by
    rw [ThreadPool.next, ThreadPool.enqueue, if_neg going]
  have accounts := ThreadPool.Accounts.next pooled.sound stepped
  refine ⟨fun index loop found => ?_, fun index held => ?_⟩
  · rcases getElem?_concat found with old | ⟨rfl, rfl⟩
    · refine (hosted.hosted index loop old).imp_left fun held => ?_
      exact (accounts.holds held).resolve_right (by simp)
    · refine .inl (.inl ?_)
      change main.loops.length ∈ (main.pool.enqueue main.loops.length).1.tasks
      rw [ThreadPool.enqueue, if_neg going]
      exact List.mem_append_right _ List.mem_cons_self
  · rw [MainThread.loops, List.length_append, List.length_singleton]
    rcases accounts.held held with before | new
    · exact Nat.lt_succ_of_lt (hosted.named index before)
    · cases new
      exact Nat.lt_succ_self _

theorem Hosted.next (hosted : main.Hosted) (pooled : main.Pooled) (staged : Staged conf main)
    (step : MainStep main turn after note) : after.Hosted := by
  by_cases built : turn = .construct
  · subst built
    cases step with
    | construct moved => exact hosted.construct pooled (staged.building (construct_some moved).1) moved
  · have moved := step.loops built
    have stays {loop loop' : ConnLoop (Option Nat) pq}
        (same : loop' = loop ∨
          ∃ newConn turn note, ConnLoop.next newConn loop turn = some (loop', note))
        (stopped : loop.pc = .stopped) : loop'.pc = .stopped := by
      rcases same with rfl | ⟨newConn, turn', said, stepped⟩
      · exact stopped
      · exact ConnLoop.next_stopped stopped stepped
    rcases step.pool with same | ⟨turn', note', stepped, -, -, finished, enqueued⟩
    · refine ⟨fun index loop' found' => ?_, fun index held => ?_⟩
      · obtain ⟨loop, found, change_⟩ := moved.behind found'
        rw [same]
        exact (hosted.hosted index loop found).imp_right (stays change_)
      · rw [same] at held
        rw [moved.length]
        exact hosted.named index held
    · have accounts := ThreadPool.Accounts.next pooled.sound stepped
      refine ⟨fun index loop' found' => ?_, fun index held => ?_⟩
      · obtain ⟨loop, found, change_⟩ := moved.behind found'
        rcases hosted.hosted index loop found with held | stopped
        · rcases accounts.holds held with holds | ⟨id, ran⟩
          · exact .inl holds
          · obtain ⟨loop'', found'', stopped⟩ := finished id index ran
            rw [found, Option.some.injEq] at found''
            subst found''
            exact .inr (stays change_ stopped)
        · exact .inr (stays change_ stopped)
      · rw [moved.length]
        rcases accounts.held held with before | new
        · exact hosted.named index before
        · exact absurd (enqueued index new).1 built

theorem Warned.next (warned : main.Warned) (staged : Staged conf main)
    (step : MainStep main turn after note) : after.Warned := by
  by_cases built : turn = .construct
  · subst built
    cases step with
    | construct moved =>
        obtain ⟨room, rfl⟩ := construct_some moved
        have waits := staged.building room
        refine ⟨fun index loop found => ?_, fun index loop sent => by simp [waits, MainPc.stops] at sent⟩
        rcases getElem?_concat found with old | ⟨-, rfl⟩
        · exact warned.handover index loop old
        · exact ⟨[], .fresh⟩
  · have moved := step.loops built
    refine ⟨fun index loop' found' => ?_, fun index loop' sent found' => ?_⟩
    · obtain ⟨loop, found, rfl | ⟨newConn, turn', said, stepped⟩⟩ := moved.behind found'
      · exact warned.handover index loop' found
      · obtain ⟨notes, handover⟩ := warned.handover index loop found
        exact ⟨_, handover.next stepped⟩
    · rw [step.srvConf] at sent
      rcases step.stops with fewer | ⟨last, loop, here, found, loops, pc⟩
      · obtain ⟨loop, found, rfl | ⟨newConn, turn', said, stepped⟩⟩ := moved.behind found'
        · exact warned.sent index loop' (sent.trans_le fewer) found
        · exact (warned.sent index loop (sent.trans_le fewer) found).next stepped
      · rw [loops] at found'
        by_cases same : last = index
        · subst last
          rw [List.getElem?_set_self (List.getElem?_eq_some_iff.mp found).1, Option.some.injEq] at found'
          subst found'
          exact ConnLoop.stop_closeDue loop
        · rw [List.getElem?_set_ne same] at found'
          rw [pc] at sent
          refine warned.sent index loop' ?_ found'
          rw [here]
          change index < last
          change index < last + 1 at sent
          omega

/-- What holds in every reachable state. -/
structure Standing (conf : ServerConf) (main : MainThread pq) : Prop where
  pooled : main.Pooled
  staged : Staged conf main
  hosted : main.Hosted
  warned : main.Warned

theorem Standing.next (standing : Standing conf main) (step : MainStep main turn after note) :
    Standing conf after where
  pooled := standing.pooled.next step
  staged := standing.staged.next step
  hosted := standing.hosted.next standing.pooled standing.staged step
  warned := standing.warned.next standing.staged step

theorem start_standing {ids : List Nat} {epollEtSrv : Bool} (some : 0 < conf.nthread.toNat)
    (distinct : ids.Nodup) (size : ids.length = min conf.nthread.toNat WebServer.defMaxNum) :
    Standing conf (start pq conf epollEtSrv ids) where
  pooled := by
    refine ⟨ThreadPool.construct_sound distinct ?_ WebServer.defMaxNum false,
      ThreadPool.construct_parting _ _ _, rfl,
      fun called => absurd rfl called⟩
    rw [size, WebServer.defMaxNum]
    omega
  staged := ⟨rfl, Nat.zero_le _, fun gone => absurd rfl gone⟩
  hosted := by
    refine ⟨nofun, fun index held => ?_⟩
    rcases held with waits | ⟨id, runs⟩
    · cases waits
    · rw [Workers.running] at runs
      split at runs
      · rename_i pc found
        rw [ThreadPool.construct_ready found] at runs
        cases runs
      · cases runs
  warned := ⟨nofun, nofun⟩

theorem Runs.standing {epollEtSrv : Bool} (some : 0 < conf.nthread.toNat) {notes : List MainNote}
    (run : (system pq conf epollEtSrv).Runs notes main) : Standing conf main := by
  refine @System.Runs.invariant _ _ _ (fun _ main => Standing conf main) ?_ ?_ _ _ run
  · intro main held
    obtain ⟨ids, distinct, size, rfl⟩ := held
    exact start_standing some distinct size
  · intro notes before note after standing held
    obtain ⟨turn, stepped⟩ := held
    exact standing.next (next_step stepped)

/-! The end of the program. -/

theorem loop_moves {id index : Nat} {loop : ConnLoop (Option Nat) pq} {choice : LoopChoice}
    (running : main.pool.workers.pcOf id = some (.running index))
    (found : main.loops[index]? = some loop)
    (moves : (loop.loopStep main.server.process.fds.lookup choice).isSome) :
    (main.next (.loop id choice)).isSome := by
  obtain ⟨⟨loop', said⟩, looped⟩ := Option.isSome_iff_exists.mp moves
  have running' : main.server.eventpool.workers.pcOf id = some (.running index) := running
  have found' : main.server.process.connLoops[index]? = some loop := found
  cases said <;>
    simp [next, withServer, WebServer.loopStep, running', Process.loopStep, found', looped]

end MainThread

end LiteWebServer
