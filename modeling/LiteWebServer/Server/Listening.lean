import LiteWebServer.Server.Shutdown
import LiteWebServer.Server.Staffing
import Mathlib.Data.Int.CardIntervalMod

namespace LiteWebServer

open Data

/-! What `start_loop` does with the clients and with the exit signal. -/

namespace MainPc

/-- The events that are reported and still to come. -/
def eventsLeft : MainPc → List ListenEvent
  | .going rest | .dealing rest => rest
  | _ => []

/-- The main thread has left the loop of `start_loop`. -/
def past : MainPc → Bool
  | .stopping _ | .returned => true
  | _ => false

end MainPc

namespace MainThread

variable {pq : PriorityQueue TimerNode TimerNode.expire} {main after : MainThread pq}
  {note : MainNote} {turn : MainTurn} {conf : ServerConf}

/-- What the main thread relies on from one `epoll_wait` to the next. -/
structure Listening (conf : ServerConf) (main : MainThread pq) : Prop where
  staged : Staged conf main
  rotating : main.server.process.Rotating conf.nthread.toNat
  calm : main.pc ≠ .waiting → main.pool.dueNotifies = 0
  /-- A socket that was pushed is still to be announced. -/
  owing : main.server.process.acceptor = .pushed →
    ∃ loop, main.loops[main.server.process.poolIdx]? = some loop ∧ loop.owed ≠ 0
  dealing : main.server.process.acceptor ≠ .accepting → ∃ rest, main.pc = .dealing rest
  /-- The one event of the exit event is to come, or at hand. -/
  armed : main.exitArmed = true ∨ .exitEvent ∈ main.pc.eventsLeft ∨ main.pc.past = true

theorem loopStep_owed {loop loop' : ConnLoop (Option Nat) pq} {newConn : Int → Option Nat}
    {choice : LoopChoice} {said : LoopNote (Option Nat)}
    (looped : loop.loopStep newConn choice = some (loop', said)) : loop'.owed = loop.owed := by
  cases ConnLoop.loopStep_step looped <;> rfl

/-- A loop of its worker leaves what is between the acceptor and its loop. -/
theorem Listening.loop (listening : Listening conf main) {id : Nat} {choice : LoopChoice}
    {server : WebServer pq} {said : ProcessNote}
    (moved : main.server.loopStep id choice = some (server, said)) :
    Listening conf { main with server } := by
  have step : MainStep main (.loop id choice) { main with server } (.process said) := .loop moved
  have staged := listening.staged.next step
  unfold WebServer.loopStep at moved
  split at moved
  · rename_i index running
    obtain ⟨⟨process, note⟩, stepped, same⟩ := Option.bind_eq_some_iff.mp moved
    cases same
    have rotating := listening.rotating.loopStep stepped
    obtain ⟨loop, found, rest⟩ := Option.bind_eq_some_iff.mp stepped
    obtain ⟨⟨loop', note'⟩, looped, shape⟩ := Option.bind_eq_some_iff.mp rest
    have owed := loopStep_owed looped
    have keep (process' : Process pq)
        (acceptor : process'.acceptor = main.server.process.acceptor)
        (poolIdx : process'.poolIdx = main.server.process.poolIdx)
        (loops : process'.connLoops = main.server.process.connLoops.set index loop')
        (here : process'.acceptor = .pushed) :
        ∃ loop, process'.connLoops[process'.poolIdx]? = some loop ∧ loop.owed ≠ 0 := by
      obtain ⟨last, known, owes⟩ := listening.owing (acceptor.symm.trans here)
      rw [loops, poolIdx]
      by_cases same : index = main.server.process.poolIdx
      · subst same
        rw [MainThread.loops, found, Option.some.injEq] at known
        subst known
        exact ⟨loop', List.getElem?_set_self (List.getElem?_eq_some_iff.mp found).1, by rwa [owed]⟩
      · exact ⟨last, (List.getElem?_set_ne same).trans known, owes⟩
    cases note' <;> cases shape <;>
      exact ⟨staged, rotating.1, listening.calm, keep _ rfl rfl rfl, listening.dealing,
        listening.armed⟩
  · cases moved

/-- A step of the acceptor, which `deal_new_conn_greedy` makes. -/
theorem Listening.acceptor (listening : Listening conf main) {rest : List ListenEvent}
    (here : main.pc = .dealing rest) {fd : Int} {server : WebServer pq} {said : ProcessNote}
    (staged : Staged conf { main with server })
    (moved : main.server.acceptorStep fd = some (server, said)) :
    Listening conf { main with server } := by
  unfold WebServer.acceptorStep at moved
  split at moved
  · obtain ⟨⟨process, note⟩, stepped, same⟩ := Option.bind_eq_some_iff.mp moved
    cases same
    have rotating := listening.rotating.acceptorStep (listening.staged.full (by simp [here])) stepped
    refine ⟨staged, rotating.1, listening.calm, ?_, fun _ => ⟨rest, here⟩, listening.armed⟩
    cases Process.acceptorStep_move stepped with
    | accept | write => nofun
    | push accepted found =>
        refine fun _ => ⟨_, List.getElem?_set_self (List.getElem?_eq_some_iff.mp found).1, ?_⟩
        exact Nat.succ_ne_zero _
  · cases moved

/-- A turn of the pool that is not the manager's. -/
theorem Listening.setPool (listening : Listening conf main) {eventpool : ThreadPool Nat}
    (staged : Staged conf { main with server := { main.server with eventpool } })
    (fewer : eventpool.dueNotifies ≤ main.pool.dueNotifies) :
    Listening conf { main with server := { main.server with eventpool } } :=
  ⟨staged, listening.rotating,
    fun gone => Nat.eq_zero_of_le_zero (listening.calm gone ▸ fewer),
    listening.owing, listening.dealing, listening.armed⟩

theorem wakeUp_dueNotifies {pool woken : ThreadPool Nat} {id : Nat}
    (woke : pool.wakeUp id = some woken) : woken.dueNotifies = pool.dueNotifies := by
  unfold ThreadPool.wakeUp at woke
  split at woke
  · cases woke
    rfl
  · cases woke

theorem notifyOne_dueNotifies {pool notified : ThreadPool Nat} {woken : Option Nat}
    (moved : pool.notifyOne woken = some notified) :
    notified.dueNotifies + 1 = pool.dueNotifies := by
  unfold ThreadPool.notifyOne at moved
  split at moved
  · cases moved
  · rename_i due
    cases woken with
    | some id =>
        rw [wakeUp_dueNotifies moved]
        exact Nat.succ_pred due
    | none =>
        dsimp only at moved
        split at moved
        · cases moved
        · cases moved
          exact Nat.succ_pred due

theorem workerStep_dueNotifies {pool worked : ThreadPool Nat} {id : Nat} {said : PoolNote Nat}
    (moved : pool.workerStep id = some (worked, said)) : worked.dueNotifies = pool.dueNotifies := by
  cases ThreadPool.workerStep_step moved <;> rfl

theorem dtorStep_dueNotifies {pool destroyed : ThreadPool Nat}
    (moved : pool.dtorStep = some destroyed) : destroyed.dueNotifies = pool.dueNotifies := by
  cases ThreadPool.dtorStep_step moved <;> rfl

/-- A step of the main thread outside `deal_new_conn_greedy`. -/
theorem Listening.move (listening : Listening conf main) (staged : Staged conf after)
    (idle : main.server.process.acceptor = .accepting)
    (server : after.server = main.server) (calm : after.pc ≠ .waiting → main.pool.dueNotifies = 0)
    (armed : after.exitArmed = true ∨ .exitEvent ∈ after.pc.eventsLeft ∨ after.pc.past = true) :
    Listening conf after where
  staged := staged
  rotating := by rw [server]; exact listening.rotating
  calm gone := by
    rw [MainThread.pool, server]
    exact calm gone
  owing here := by simp [server, idle] at here
  dealing busy := by simp [server, idle] at busy
  armed := armed

theorem Listening.idle (listening : Listening conf main)
    (elsewhere : ∀ rest, main.pc ≠ .dealing rest) : main.server.process.acceptor = .accepting := by
  by_contra busy
  obtain ⟨rest, here⟩ := listening.dealing busy
  exact elsewhere rest here

theorem Listening.next (listening : Listening conf main) (step : MainStep main turn after note) :
    Listening conf after := by
  have staged := listening.staged.next step
  have armed := listening.armed
  cases step with
  | arrive | signal =>
      exact ⟨staged, listening.rotating, listening.calm, listening.owing, listening.dealing,
        listening.armed⟩
  | construct moved =>
      obtain ⟨room, rfl⟩ := construct_some moved
      have waits := listening.staged.building room
      have idle := listening.idle (by simp [waits])
      exact ⟨staged, ⟨listening.rotating.turns, listening.rotating.next, listening.rotating.pushed⟩,
        fun gone => absurd waits gone, fun here => by simp [idle] at here,
        fun busy => absurd idle busy, armed⟩
  | @wait events here constructed some ready once =>
      refine listening.move staged (listening.idle (by simp [here])) rfl (fun _ => constructed.2) ?_
      simp only [here, MainPc.eventsLeft, MainPc.past, List.not_mem_nil, Bool.false_eq_true,
        or_false] at armed
      by_cases reported : ListenEvent.exitEvent ∈ events
      · exact .inr (.inl reported)
      · left
        simp [armed, reported]
  | fail here constructed =>
      exact listening.move staged (listening.idle (by simp [here])) rfl (fun _ => constructed.2)
        (.inr (.inr rfl))
  | again here =>
      rw [here] at armed
      refine listening.move staged (listening.idle (by simp [here])) rfl
        (fun gone => absurd rfl gone) (armed.imp_right fun later => ?_)
      exact later.elim (fun member => absurd member List.not_mem_nil) nofun
  | deal here =>
      rw [here] at armed
      refine listening.move staged (listening.idle (by simp [here])) rfl
        (fun _ => listening.calm (by simp [here])) (armed.imp_right fun later => ?_)
      exact later.elim (fun member => .inl ((List.mem_cons.mp member).resolve_left (by simp))) nofun
  | exit here =>
      exact listening.move staged (listening.idle (by simp [here])) rfl
        (fun _ => listening.calm (by simp [here])) (.inr (.inr rfl))
  | accept here idle waits moved =>
      have dealt := listening.acceptor here ⟨staged.srvConf, staged.size, staged.full⟩ moved
      exact ⟨staged, dealt.rotating, dealt.calm, dealt.owing, dealt.dealing, dealt.armed⟩
  | interrupted here idle => exact listening
  | giveUp here idle =>
      rw [here] at armed
      exact listening.move staged idle rfl (fun _ => listening.calm (by simp [here])) armed
  | handOver here busy moved => exact listening.acceptor here staged moved
  | stop here left found =>
      have idle := listening.idle (by simp [here])
      refine ⟨staged, ⟨listening.rotating.turns, listening.rotating.next, listening.rotating.pushed⟩,
        fun _ => listening.calm (by simp [here]), fun pushed => by simp [idle] at pushed,
        fun busy => absurd idle busy, .inr (.inr rfl)⟩
  | leave here all =>
      exact listening.move staged (listening.idle (by simp [here])) rfl
        (fun _ => listening.calm (by simp [here])) (.inr (.inr rfl))
  | dtor here moved => exact listening.setPool staged (dtorStep_dueNotifies moved).le
  | notifyOne moved =>
      refine listening.setPool staged ?_
      have fewer := notifyOne_dueNotifies moved
      rw [MainThread.pool]
      omega
  | spurious moved => exact listening.setPool staged (wakeUp_dueNotifies moved).le
  | work moved finished => exact listening.setPool staged (workerStep_dueNotifies moved).le
  | loop moved => exact listening.loop moved

theorem Runs.listening {epollEtSrv : Bool} {notes : List MainNote}
    (run : (system pq conf epollEtSrv).Runs notes main) : Listening conf main := by
  refine @System.Runs.invariant _ _ _ (fun _ main => Listening conf main) ?_ ?_ _ _ run
  · intro main held
    obtain ⟨ids, -, -, rfl⟩ := held
    exact ⟨⟨rfl, Nat.zero_le _, fun gone => absurd rfl gone⟩,
      ⟨by simp [start, WebServer.start, Process.start], fun _ => (Nat.zero_mod _).symm, nofun⟩,
      fun gone => absurd rfl gone, nofun, fun busy => absurd rfl busy, .inl rfl⟩
  · intro notes before note after listening held
    obtain ⟨turn, stepped⟩ := held
    exact listening.next (next_step stepped)

/-! A signal ends `start_loop`. -/

/-- An `accept` of `deal_new_conn_greedy` that a signal interrupted. -/
def Interrupted (main : MainThread pq) (turn : MainTurn) : Prop :=
  turn = .main .interrupted ∧ main.server.process.acceptor = .accepting ∧ ∃ rest, main.pc = .dealing rest

/-- The turns of the main thread.  `epoll_wait` reports the exit event if it can. -/
def MainOwn (main : MainThread pq) : MainTurn → Prop
  | .construct | .notifyOne _ | .fail => True
  | .wait events => main.Ready .exitEvent → .exitEvent ∈ events
  | .main result => ¬ main.Interrupted (.main result)
  | _ => False

/-- What the others do, and interrupted calls.  No client connects any more. -/
def MainAside (main : MainThread pq) : MainTurn → Prop
  | .signal | .spurious _ | .worker _ | .loop _ _ => True
  | turn => main.Interrupted turn

/-- What the main thread does before it leaves the loop, at most: the loops to construct, the
notifications, the connections to hand over, and the events at hand. -/
def servingLeft (main : MainThread pq) : Nat :=
  8 * (main.server.srvConf.nthread.toNat - main.loops.length) + 4 * main.pool.dueNotifies +
    4 * main.backlog +
    match main.server.process.acceptor with
    | .accepting => 0
    | .accepted _ => 2
    | .pushed => 1

def eventsRank (rest : List ListenEvent) : Nat :=
  2 * rest.length + (if .exitEvent ∈ rest then 0 else 6)

def pcRank (count : Nat) : MainPc → Nat
  | .waiting => count + 7
  | .going rest => count + 2 + eventsRank rest
  | .dealing rest => count + 3 + eventsRank rest
  | .stopping index => count - index + 1
  | .returned => 0

def startLoopRank (main : MainThread pq) : Nat :=
  main.servingLeft + pcRank main.server.srvConf.nthread.toNat main.pc

theorem eventsRank_srvSock (rest : List ListenEvent) :
    eventsRank (.srvSock :: rest) = eventsRank rest + 2 := by
  have same : ListenEvent.exitEvent ∈ ListenEvent.srvSock :: rest ↔ .exitEvent ∈ rest := by simp
  simp only [eventsRank, same, List.length_cons]
  omega

/-- Two events at most are reported, and the exit event is one of them. -/
theorem eventsRank_reported {events : List ListenEvent} (once : events.Nodup)
    (reported : .exitEvent ∈ events) : eventsRank events ≤ 4 := by
  have inside : events ⊆ [.srvSock, .exitEvent] := fun event _ => by cases event <;> simp
  have few := (once.subperm inside).length_le
  rw [eventsRank, if_pos reported]
  rw [List.length_cons, List.length_singleton] at few
  omega

theorem startLoopRank_pc {pc : MainPc}
    (lower : pcRank main.server.srvConf.nthread.toNat pc <
      pcRank main.server.srvConf.nthread.toNat main.pc) (srvEdge exitArmed : Bool) :
    startLoopRank { main with pc, srvEdge, exitArmed } < main.startLoopRank :=
  Nat.add_lt_add_left lower _

/-- A step of the acceptor counts for less than the connection that it takes. -/
theorem acceptorStep_lowers {server : WebServer pq} {fd : Int} {said : ProcessNote}
    (moved : main.server.acceptorStep fd = some (server, said)) :
    main.server.process.acceptor = .accepting ∧
        startLoopRank { main with server } = main.startLoopRank + 2 ∨
      main.server.process.acceptor ≠ .accepting ∧
        startLoopRank { main with server } < main.startLoopRank := by
  have length := (acceptorStep_loops moved).1.length
  unfold WebServer.acceptorStep at moved
  split at moved
  · obtain ⟨⟨process, note⟩, stepped, same⟩ := Option.bind_eq_some_iff.mp moved
    cases same
    cases Process.acceptorStep_move stepped with
    | accept here new =>
        refine .inl ⟨here, ?_⟩
        simp only [startLoopRank, servingLeft, MainThread.pool, MainThread.loops, here]
        omega
    | push here found =>
        refine .inr ⟨by simp [here], ?_⟩
        simp only [startLoopRank, servingLeft, MainThread.pool, MainThread.loops, here] at length ⊢
        rw [length]
        omega
    | write here found wrote =>
        refine .inr ⟨by simp [here], ?_⟩
        simp only [startLoopRank, servingLeft, MainThread.pool, MainThread.loops, here] at length ⊢
        rw [length]
        omega
  · cases moved

/-- The exit event is counted and has not been taken for granted. -/
theorem Listening.ready (listening : Listening conf main) (waits : main.pc = .waiting)
    (signalled : main.exitEvent ≠ 0) : main.Ready .exitEvent := by
  refine ⟨signalled, listening.armed.resolve_right fun later => ?_⟩
  rw [waits] at later
  exact later.elim (fun member => absurd member List.not_mem_nil) nofun

/-- Every turn of the main thread leads it nearer to the end of `start_loop`. -/
theorem Listening.lowers (listening : Listening conf main) (signalled : main.exitEvent ≠ 0)
    (serving : main.pc ≠ .returned) (own : main.MainOwn turn) (step : MainStep main turn after note) :
    after.startLoopRank < main.startLoopRank ∧ after.exitEvent ≠ 0 := by
  cases step with
  | arrive | signal | spurious | work | loop => exact own.elim
  | construct moved =>
      obtain ⟨room, rfl⟩ := construct_some moved
      refine ⟨?_, signalled⟩
      have due : ((main.pool.enqueue main.loops.length).1).dueNotifies ≤ main.pool.dueNotifies + 1 := by
        unfold ThreadPool.enqueue
        split
        · exact Nat.le_succ _
        · exact le_rfl
      simp only [startLoopRank, servingLeft, MainThread.pool, MainThread.loops, List.length_append,
        List.length_singleton] at due ⊢
      omega
  | @wait events here constructed some ready once =>
      refine ⟨startLoopRank_pc ?_ _ _, signalled⟩
      have few := eventsRank_reported once (own (listening.ready here signalled))
      rw [here, pcRank, pcRank]
      omega
  | fail here =>
      refine ⟨startLoopRank_pc ?_ _ _, signalled⟩
      rw [here, pcRank, pcRank]
      omega
  | again here =>
      refine ⟨startLoopRank_pc ?_ _ _, signalled⟩
      rw [here, pcRank, pcRank, eventsRank, if_neg List.not_mem_nil]
      omega
  | @deal result rest here =>
      refine ⟨startLoopRank_pc ?_ _ _, signalled⟩
      rw [here, pcRank, pcRank, eventsRank_srvSock]
      omega
  | exit here =>
      refine ⟨startLoopRank_pc ?_ _ _, signalled⟩
      rw [here, pcRank, pcRank]
      omega
  | @accept rest fd server said here idle waits moved =>
      refine ⟨?_, signalled⟩
      have cost := (acceptorStep_lowers moved).resolve_right fun busy => busy.1 idle
      have paid : startLoopRank { main with server, backlog := main.backlog - 1 } + 4 =
          startLoopRank { main with server } := by
        simp only [startLoopRank, servingLeft, MainThread.pool, MainThread.loops]
        omega
      omega
  | interrupted here idle => exact absurd ⟨rfl, idle, _, here⟩ own
  | giveUp here idle =>
      refine ⟨startLoopRank_pc ?_ _ _, signalled⟩
      rw [here, pcRank, pcRank]
      omega
  | handOver here busy moved =>
      exact ⟨((acceptorStep_lowers moved).resolve_left fun idle => busy idle.1).2, signalled⟩
  | stop here left found =>
      refine ⟨?_, signalled⟩
      simp only [startLoopRank, servingLeft, MainThread.pool, MainThread.loops, List.length_set, here,
        pcRank]
      omega
  | leave here all =>
      refine ⟨startLoopRank_pc ?_ _ _, signalled⟩
      rw [here, pcRank, pcRank]
      omega
  | dtor here => exact absurd here serving
  | notifyOne moved =>
      refine ⟨?_, signalled⟩
      have fewer := notifyOne_dueNotifies moved
      simp only [startLoopRank, servingLeft, MainThread.pool, MainThread.loops] at fewer ⊢
      omega

/-- Until `start_loop` returns the main thread can always move. -/
theorem Listening.advances (listening : Listening conf main) (sound : main.pool.Sound)
    (some : 0 < conf.nthread.toNat)
    (signalled : main.exitEvent ≠ 0) (serving : main.pc ≠ .returned) :
    ∃ turn, main.MainOwn turn ∧ (main.next turn).isSome := by
  have moves (plain : ∀ result, (main.mainStep result).isSome) :
      ∃ turn, main.MainOwn turn ∧ (main.next turn).isSome :=
    ⟨.main .failed, fun interrupted => (by cases interrupted.1), plain .failed⟩
  cases here : main.pc with
  | waiting =>
      by_cases constructed : main.server.Constructed
      · have ready := listening.ready here signalled
        refine ⟨.wait [.exitEvent], fun _ => List.mem_cons_self, ?_⟩
        simp [MainThread.next, epollWait, here, constructed, ready]
      · by_cases due : main.pool.dueNotifies = 0
        · refine ⟨.construct, trivial, ?_⟩
          have room : main.server.process.connLoops.length < main.server.srvConf.nthread.toNat := by
            refine lt_of_le_of_ne ?_ fun full => constructed ⟨full, due⟩
            rw [listening.staged.srvConf]
            exact listening.staged.size
          have due' : main.server.eventpool.dueNotifies = 0 := due
          simp [MainThread.next, withServer, WebServer.construct, room, due']
        · have due' : main.server.eventpool.dueNotifies ≠ 0 := due
          by_cases blocked : main.pool.workers.any fun worker => worker.2.isWaiting
          · obtain ⟨⟨id, pc⟩, member, waits⟩ := List.any_eq_true.mp blocked
            have found : main.server.eventpool.workers.pcOf id = .some pc :=
              (Workers.mem_iff_pcOf sound.distinct).mp member
            refine ⟨.notifyOne (.some id), trivial, ?_⟩
            cases pc with
            | waiting =>
                simp only [MainThread.next, withPool, ThreadPool.notifyOne, if_neg due',
                  ThreadPool.wakeUp, found]
                rfl
            | _ => cases waits
          · refine ⟨.notifyOne none, trivial, ?_⟩
            have awake : ¬ (main.server.eventpool.workers.any fun worker => worker.2.isWaiting) = true :=
              blocked
            simp only [MainThread.next, withPool, ThreadPool.notifyOne, if_neg due', if_neg awake]
            rfl
  | going rest =>
      refine moves fun result => ?_
      cases rest with
      | nil => simp [mainStep, here]
      | cons event rest => cases event <;> simp [mainStep, here]
  | dealing rest =>
      have constructed : main.server.Constructed := by
        refine ⟨?_, listening.calm (by simp [here])⟩
        rw [listening.staged.srvConf]
        exact listening.staged.full (by simp [here])
      cases acceptor : main.server.process.acceptor with
      | accepting =>
          refine ⟨.main .failed, fun interrupted => (by cases interrupted.1), ?_⟩
          simp [MainThread.next, mainStep, here, dealNewConnGreedy, acceptor]
      | accepted cliSock =>
          have inside : main.server.process.poolIdx < main.server.process.connLoops.length := by
            rw [← MainThread.loops, listening.staged.full (by simp [here])]
            exact listening.rotating.poolIdx_lt some
          refine moves fun result => ?_
          simp [mainStep, here, dealNewConnGreedy, acceptor, withServer, WebServer.acceptorStep,
            constructed, Process.acceptorStep, Process.push, inside]
      | pushed =>
          obtain ⟨loop, found, owes⟩ := listening.owing acceptor
          have found' : main.server.process.connLoops[main.server.process.poolIdx]? = .some loop := found
          refine moves fun result => ?_
          simp [mainStep, here, dealNewConnGreedy, acceptor, withServer, WebServer.acceptorStep,
            constructed, Process.acceptorStep, Process.write, found', ConnLoop.cmdSendAddFd, owes]
  | stopping index =>
      refine moves fun result => ?_
      by_cases left : index < main.server.srvConf.nthread.toNat
      · have inside : index < main.server.process.connLoops.length := by
          rw [← MainThread.loops, listening.staged.full (by simp [here]), ← listening.staged.srvConf]
          exact left
        simp [mainStep, here, stopLoop, left, inside]
      · simp [mainStep, here, stopLoop, left]
  | returned => exact absurd here serving

/-! Clients that wait. -/

/-- A client that waits has its event pending or at hand, or is about to be accepted. -/
def Attended (main : MainThread pq) : Prop :=
  main.backlog ≠ 0 → main.srvEdge = true ∨ .srvSock ∈ main.pc.eventsLeft ∨
    (∃ rest, main.pc = .dealing rest) ∨ main.pc.past = true

theorem Attended.keep (attended : main.Attended) (backlog : after.backlog ≤ main.backlog)
    (srvEdge : after.srvEdge = main.srvEdge) (pc : after.pc = main.pc) : after.Attended := by
  intro waits
  rw [srvEdge, pc]
  exact attended (by omega)

/-- It stays so unless `deal_new_conn_greedy` gives up before all are accepted. -/
theorem Attended.next (attended : main.Attended) (step : MainStep main turn after note)
    (patient : ∀ backlog, note = .left backlog → backlog = 0) : after.Attended := by
  cases step with
  | arrive => exact fun _ => .inl rfl
  | @wait events here =>
      intro waits
      rcases attended waits with edge | later
      · by_cases reported : ListenEvent.srvSock ∈ events
        · exact .inr (.inl reported)
        · left
          simp [edge, reported]
      · simp [here, MainPc.eventsLeft, MainPc.past] at later
  | fail | exit | leave | stop => exact fun _ => .inr (.inr (.inr rfl))
  | again here =>
      intro waits
      rcases attended waits with edge | later
      · exact .inl edge
      · simp [here, MainPc.eventsLeft, MainPc.past] at later
  | deal here => exact fun _ => .inr (.inr (.inl ⟨_, rfl⟩))
  | giveUp here idle => exact fun waits => absurd (patient _ rfl) waits
  | interrupted => exact attended
  | accept => exact attended.keep (Nat.sub_le _ _) rfl rfl
  | _ => exact attended.keep le_rfl rfl rfl

theorem MainStep.epollEtSrv (step : MainStep main turn after note) :
    after.epollEtSrv = main.epollEtSrv := by
  cases step <;> rfl

theorem Runs.keeps_attended {epollEtSrv : Bool} {notes : List MainNote}
    (run : (system pq conf epollEtSrv).Runs notes main) :
    main.epollEtSrv = epollEtSrv ∧
      ((∀ backlog, MainNote.left backlog ∈ notes → backlog = 0) → main.Attended) := by
  refine @System.Runs.invariant _ _ _ (fun notes main => main.epollEtSrv = epollEtSrv ∧
    ((∀ backlog, MainNote.left backlog ∈ notes → backlog = 0) → main.Attended)) ?_ ?_ _ _ run
  · intro main held
    obtain ⟨ids, -, -, rfl⟩ := held
    exact ⟨rfl, fun _ waits => absurd rfl waits⟩
  · intro notes before note after known held
    obtain ⟨turn, stepped⟩ := held
    have step := next_step stepped
    refine ⟨step.epollEtSrv.trans known.1, fun patient => ?_⟩
    refine (known.2 fun backlog member => patient backlog (List.mem_append_left _ member)).next step
      fun backlog same => patient backlog ?_
    rw [same]
    exact List.mem_append_right _ List.mem_cons_self

/-- The constructor while no worker has begun yet. -/
structure Constructing (conf : ServerConf) (built : Nat) (main : MainThread pq) : Prop where
  srvConf : main.server.srvConf = conf
  built : main.server.process.connLoops.length = built
  acceptor : main.server.process.acceptor = .accepting
  dueNotifies : main.server.eventpool.dueNotifies = 0
  ready : ∀ worker ∈ main.server.eventpool.workers, worker.2 = .ready
  going : main.server.eventpool.stopNum = 0
  pc : main.pc = .waiting

theorem Constructing.round {built : Nat} (constructing : Constructing conf built main)
    (room : built < conf.nthread.toNat) :
    ∃ notes after, System.follow next main [.construct, .notifyOne none] = some (after, notes) ∧
      Constructing conf (built + 1) after := by
  obtain ⟨srvConf, rfl, acceptor, dueNotifies, ready, going, pc⟩ := constructing
  rw [← srvConf] at room
  have enqueued : main.server.eventpool.stopNum ≠ ThreadPool.threadStopAll := by
    rw [going]
    decide
  have awake : ¬ (main.server.eventpool.workers.any fun worker => worker.2.isWaiting) = true := by
    intro blocked
    obtain ⟨worker, member, waits⟩ := List.any_eq_true.mp blocked
    rw [ready worker member] at waits
    cases waits
  let added : WebServer pq := { main.server with
    eventpool := { main.server.eventpool with
      tasks := main.server.eventpool.tasks ++ [main.server.process.connLoops.length]
      dueNotifies := main.server.eventpool.dueNotifies + 1 }
    process := { main.server.process with
      connLoops := main.server.process.connLoops ++ [.fresh _ pq] } }
  have first : main.next .construct = some ({ main with server := added }, .process .quiet) := by
    simp only [MainThread.next, withServer, WebServer.construct, if_pos (And.intro room dueNotifies),
      ThreadPool.enqueue, if_neg enqueued]
    rfl
  have second : MainThread.next { main with server := added } (.notifyOne none) =
      some ({ main with server := { added with
        eventpool := { added.eventpool with dueNotifies := main.server.eventpool.dueNotifies } } },
        .quiet) := by
    simp only [MainThread.next, withPool, ThreadPool.notifyOne, added, Nat.add_one_sub_one,
      if_neg (Nat.succ_ne_zero _), if_neg awake]
    rfl
  refine ⟨_, _, System.follow_cons.mpr ⟨_, _, _, first,
    System.follow_cons.mpr ⟨_, _, _, second, rfl, rfl⟩, rfl⟩, ?_⟩
  exact ⟨srvConf, List.length_append, acceptor, dueNotifies, ready, going, pc⟩

theorem exists_constructing (conf : ServerConf) (epollEtSrv : Bool) {built : Nat}
    (room : built ≤ conf.nthread.toNat) :
    ∃ notes main, (system pq conf epollEtSrv).Runs notes main ∧ Constructing conf built main := by
  induction built with
  | zero =>
      let ids := List.range (min conf.nthread.toNat WebServer.defMaxNum)
      refine ⟨[], start pq conf epollEtSrv ids,
        .start ⟨ids, List.nodup_range, List.length_range, rfl⟩, rfl, rfl, rfl, rfl, ?_, rfl, rfl⟩
      intro worker member
      obtain ⟨id, -, rfl⟩ := List.mem_map.mp member
      rfl
  | succ built ih =>
      obtain ⟨notes, main, run, constructing⟩ := ih (Nat.le_of_succ_le room)
      obtain ⟨later, after, followed, constructing⟩ := constructing.round room
      exact ⟨_, after, run.follow followed, constructing⟩

/-- A client connects, and `accept` fails before it is accepted. -/
def oneLeftBehind : List MainTurn :=
  [.arrive, .wait [.srvSock], .main .failed, .main .failed, .main .failed]

theorem Constructing.leaveBehind (constructing : Constructing conf conf.nthread.toNat main) :
    ∃ notes after, System.follow next main oneLeftBehind = some (after, notes) ∧
      after.pc = .waiting ∧ after.backlog ≠ 0 ∧ after.srvEdge = false := by
  have constructed : main.server.Constructed := by
    refine ⟨?_, constructing.dueNotifies⟩
    rw [constructing.srvConf]
    exact constructing.built
  let arrived : MainThread pq := { main with backlog := main.backlog + 1, srvEdge := true }
  let reported (pc : MainPc) : MainThread pq :=
    { arrived with srvEdge := false, exitArmed := main.exitArmed && true, pc }
  have wait : arrived.next (.wait [.srvSock]) = some (reported (.going [.srvSock]), .quiet) := by
    have ready : arrived.Ready .srvSock := ⟨Nat.succ_ne_zero _, fun _ => rfl⟩
    have tests : arrived.pc = .waiting ∧ arrived.server.Constructed ∧ [ListenEvent.srvSock] ≠ [] ∧
        [ListenEvent.srvSock].Nodup ∧ ∀ event ∈ [ListenEvent.srvSock], arrived.Ready event :=
      ⟨constructing.pc, constructed, List.cons_ne_nil _ _, List.nodup_singleton _, fun event member => by
        rw [List.mem_singleton.mp member]; exact ready⟩
    simp only [MainThread.next, epollWait, if_pos tests]
    rfl
  have giveUp : (reported (.dealing [])).next (.main .failed) =
      some (reported (.going []), .left arrived.backlog) := by
    have idle : (reported (.dealing [])).server.process.acceptor = .accepting := constructing.acceptor
    simp only [MainThread.next, mainStep, reported, dealNewConnGreedy]
    simp only [reported] at idle
    rw [idle]
  exact ⟨_, reported .waiting, System.follow_cons.mpr ⟨_, _, _, rfl, System.follow_cons.mpr
    ⟨_, _, _, wait, System.follow_cons.mpr ⟨reported (.dealing []), _, _, rfl, System.follow_cons.mpr
      ⟨_, _, _, giveUp, System.follow_cons.mpr ⟨reported .waiting, _, _, rfl, rfl, rfl⟩, rfl⟩, rfl⟩, rfl⟩,
        rfl⟩, rfl, Nat.succ_ne_zero _, rfl⟩

/-- With a level-triggered listening socket no client is ever left behind.  With an
edge-triggered one some are, but only where `accept` fails with clients waiting. -/
theorem waiting_clients_reported (conf : ServerConf) (epollEtSrv : Bool) :
    ((∀ notes main, (system pq conf epollEtSrv).Runs notes main → main.pc = .waiting →
        main.backlog ≠ 0 → main.Ready .srvSock) ↔ epollEtSrv = false) ∧
      ∀ notes main, (system pq conf epollEtSrv).Runs notes main → main.pc = .waiting →
        (∀ backlog, MainNote.left backlog ∈ notes → backlog = 0) → main.backlog ≠ 0 →
          main.Ready .srvSock := by
  refine ⟨⟨fun all => ?_, fun level notes main run here waits => ⟨waits, fun edge => ?_⟩⟩,
    fun notes main run here patient waits => ⟨waits, fun _ => ?_⟩⟩
  · rw [← Bool.not_eq_true]
    intro edge
    obtain ⟨notes, main, run, constructing⟩ := exists_constructing conf epollEtSrv le_rfl
    obtain ⟨later, after, followed, here, waits, unset⟩ := constructing.leaveBehind
    have run' := run.follow followed
    have set := (all _ after run' here waits).2 ((Runs.keeps_attended run').1.trans edge)
    simp [unset] at set
  · rw [(Runs.keeps_attended run).1, level] at edge
    cases edge
  · have attended := (Runs.keeps_attended run).2 patient waits
    simpa [here, MainPc.eventsLeft, MainPc.past] using attended

/-! How the clients are shared out. -/

theorem count_rotating {owners : List Nat} {nthread index : Nat}
    (turns : ∀ conn owner : Nat, owners[conn]? = some owner → owner = conn % nthread)
    (valid : index < nthread) :
    owners.count index = Nat.count (· ≡ index [MOD nthread]) owners.length := by
  induction owners using List.reverseRecOn with
  | nil => rfl
  | append_singleton owners last ih =>
      have rotates := turns owners.length last (by simp)
      have earlier := ih fun conn owner found => turns conn owner (by
        rw [List.getElem?_append_left (List.getElem?_eq_some_iff.mp found).1]
        exact found)
      have same : last = index ↔ owners.length ≡ index [MOD nthread] := by
        rw [rotates, Nat.ModEq, Nat.mod_eq_of_lt valid]
      rw [List.count_append, earlier, List.length_append, List.length_singleton, Nat.count_succ,
        List.count_singleton]
      simp only [beq_iff_eq, same]

/-- No loop is ever given two connections more than another. -/
theorem loads_balanced {epollEtSrv : Bool} {notes : List MainNote}
    (run : (system pq conf epollEtSrv).Runs notes main) {index other : Nat}
    (valid : index < conf.nthread.toNat) (valid' : other < conf.nthread.toNat) :
    main.server.process.owners.count index ≤ main.server.process.owners.count other + 1 := by
  have turns := (Runs.listening run).rotating.turns
  have positive : 0 < conf.nthread.toNat := Nat.zero_lt_of_lt valid
  rw [count_rotating turns valid, count_rotating turns valid', Nat.count_modEq_card _ positive,
    Nat.count_modEq_card _ positive]
  split <;> split <;> omega

/-- One client comes to two loops. -/
def oneClient : List MainTurn :=
  [.construct, .notifyOne none, .construct, .notifyOne none, .arrive, .wait [.srvSock], .main .failed,
    .main (.cliSock 7), .main .failed, .main .failed]

theorem loads_balanced_one :
    ∃ notes main, System.follow next (start (.sorted TimerNode.expire) ⟨2⟩ true [0, 1]) oneClient =
        some (main, notes) ∧
      main.server.process.owners = [0] ∧
      main.server.process.owners.count 0 ≤ main.server.process.owners.count 1 + 1 := by
  have outcome : (System.follow next (start (.sorted TimerNode.expire) ⟨2⟩ true [0, 1])
      oneClient).map (fun reached => reached.1.server.process.owners) = some [0] := by decide +kernel
  obtain ⟨⟨main, notes⟩, followed, read⟩ := Option.map_eq_some_iff.mp outcome
  have begun : (system (.sorted TimerNode.expire) ⟨2⟩ true).Runs [] (start _ ⟨2⟩ true [0, 1]) :=
    .start ⟨[0, 1], by decide, rfl, rfl⟩
  exact ⟨notes, main, followed, read,
    loads_balanced (begun.follow followed) (by decide) (by decide)⟩

end MainThread

end LiteWebServer
