import LiteWebServer.Server.MainThread

namespace LiteWebServer

open Data

namespace MainThread

/-! What one step of the program can do, with the tests that lead there. -/

variable {pq : PriorityQueue TimerNode TimerNode.expire}

inductive MainStep (main : MainThread pq) : MainTurn → MainThread pq → MainNote → Prop where
  | arrive : MainStep main .arrive { main with backlog := main.backlog + 1, srvEdge := true } .quiet
  | signal : MainStep main .signal { main with exitEvent := main.exitEvent + 1 } .quiet
  | construct {server note} (moved : main.server.construct = some (server, note)) :
      MainStep main .construct { main with server } (.process note)
  | wait {events} (here : main.pc = .waiting) (constructed : main.server.Constructed)
      (some : events ≠ []) (ready : ∀ event ∈ events, main.Ready event) (once : events.Nodup) :
      MainStep main (.wait events)
        { main with
          srvEdge := main.srvEdge && !(ListenEvent.srvSock ∈ events : Bool),
          exitArmed := main.exitArmed && !(ListenEvent.exitEvent ∈ events : Bool),
          pc := .going events } .quiet
  | fail (here : main.pc = .waiting) (constructed : main.server.Constructed) :
      MainStep main .fail { main with pc := .stopping 0 } .quiet
  | again {result} (here : main.pc = .going []) :
      MainStep main (.main result) { main with pc := .waiting } .quiet
  | deal {result rest} (here : main.pc = .going (.srvSock :: rest)) :
      MainStep main (.main result) { main with pc := .dealing rest } .quiet
  | exit {result rest} (here : main.pc = .going (.exitEvent :: rest)) :
      MainStep main (.main result) { main with pc := .stopping 0 } .quiet
  | accept {rest fd server note} (here : main.pc = .dealing rest)
      (idle : main.server.process.acceptor = .accepting) (waits : main.backlog ≠ 0)
      (moved : main.server.acceptorStep fd = some (server, note)) :
      MainStep main (.main (.cliSock fd)) { main with server, backlog := main.backlog - 1 } (.process note)
  | interrupted {rest} (here : main.pc = .dealing rest)
      (idle : main.server.process.acceptor = .accepting) :
      MainStep main (.main .interrupted) main .quiet
  | giveUp {rest} (here : main.pc = .dealing rest)
      (idle : main.server.process.acceptor = .accepting) :
      MainStep main (.main .failed) { main with pc := .going rest } (.left main.backlog)
  | handOver {result rest fd server note} (here : main.pc = .dealing rest)
      (busy : main.server.process.acceptor ≠ .accepting)
      (moved : main.server.acceptorStep fd = some (server, note)) :
      MainStep main (.main result) { main with server } (.process note)
  | stop {result index loop} (here : main.pc = .stopping index)
      (left : index < main.server.srvConf.nthread.toNat)
      (found : main.server.process.connLoops[index]? = some loop) :
      MainStep main (.main result)
        { main with
          server := { main.server with
            process := { main.server.process with
              connLoops := main.server.process.connLoops.set index (loop.cmdSend .close) } },
          pc := .stopping (index + 1) } (.stopped index)
  | leave {result index} (here : main.pc = .stopping index)
      (all : main.server.srvConf.nthread.toNat ≤ index) :
      MainStep main (.main result) { main with pc := .returned } .quiet
  | dtor {result eventpool} (here : main.pc = .returned)
      (moved : main.server.eventpool.dtorStep = some eventpool) :
      MainStep main (.main result) { main with server := { main.server with eventpool } } .quiet
  | notifyOne {woken eventpool} (moved : main.server.eventpool.notifyOne woken = some eventpool) :
      MainStep main (.notifyOne woken) { main with server := { main.server with eventpool } } .quiet
  | spurious {id eventpool} (moved : main.server.eventpool.wakeUp id = some eventpool) :
      MainStep main (.spurious id) { main with server := { main.server with eventpool } } .quiet
  | work {id eventpool note} (moved : main.server.eventpool.workerStep id = some (eventpool, note))
      (finished : ∀ index, main.server.eventpool.workers.pcOf id = some (.running index) →
        ∃ loop, main.server.process.connLoops[index]? = some loop ∧ loop.pc = .stopped) :
      MainStep main (.worker id) { main with server := { main.server with eventpool } } .quiet
  | loop {id choice server note} (moved : main.server.loopStep id choice = some (server, note)) :
      MainStep main (.loop id choice) { main with server } (.process note)

variable {main after : MainThread pq} {note : MainNote} {turn : MainTurn}

theorem withServer_some {moved : Option (WebServer pq × ProcessNote)}
    (stepped : main.withServer moved = some (after, note)) :
    ∃ server said, moved = some (server, said) ∧ after = { main with server } ∧ note = .process said := by
  obtain ⟨⟨server, said⟩, found, same⟩ := Option.map_eq_some_iff.mp stepped
  cases same
  exact ⟨server, said, found, rfl, rfl⟩

theorem withPool_some {moved : Option (ThreadPool Nat)}
    (stepped : main.withPool moved = some (after, note)) :
    ∃ eventpool, moved = some eventpool ∧
      after = { main with server := { main.server with eventpool } } ∧ note = .quiet := by
  obtain ⟨eventpool, found, same⟩ := Option.map_eq_some_iff.mp stepped
  cases same
  exact ⟨eventpool, found, rfl, rfl⟩

theorem dealNewConnGreedy_step {rest : List ListenEvent} {result : AcceptResult}
    (here : main.pc = .dealing rest)
    (stepped : main.dealNewConnGreedy rest result = some (after, note)) :
    MainStep main (.main result) after note := by
  unfold dealNewConnGreedy at stepped
  split at stepped
  · rename_i idle
    split at stepped
    · rename_i fd
      split at stepped
      · cases stepped
      · rename_i waits
        obtain ⟨server, said, moved, rfl, rfl⟩ := withServer_some stepped
        exact .accept here idle waits moved
    · cases stepped
      exact .interrupted here idle
    · cases stepped
      exact .giveUp here idle
  · rename_i cliSock busy
    obtain ⟨server, said, moved, rfl, rfl⟩ := withServer_some stepped
    exact .handOver here (by simp [busy]) moved
  · rename_i busy
    obtain ⟨server, said, moved, rfl, rfl⟩ := withServer_some stepped
    exact .handOver here (by simp [busy]) moved

theorem stopLoop_step {index : Nat} {result : AcceptResult} (here : main.pc = .stopping index)
    (stepped : main.stopLoop index = some (after, note)) : MainStep main (.main result) after note := by
  unfold stopLoop at stepped
  split at stepped
  · rename_i left
    obtain ⟨loop, found, same⟩ := Option.bind_eq_some_iff.mp stepped
    cases same
    exact .stop here left found
  · rename_i all
    cases stepped
    exact .leave here (Nat.le_of_not_lt all)

theorem mainStep_step {result : AcceptResult} (stepped : main.mainStep result = some (after, note)) :
    MainStep main (.main result) after note := by
  unfold mainStep at stepped
  split at stepped
  · cases stepped
  · rename_i here
    cases stepped
    exact .again here
  · rename_i rest here
    cases stepped
    exact .deal here
  · rename_i rest here
    cases stepped
    exact .exit here
  · rename_i rest here
    exact dealNewConnGreedy_step here stepped
  · rename_i index here
    exact stopLoop_step here stepped
  · rename_i here
    obtain ⟨eventpool, moved, rfl, rfl⟩ := withPool_some stepped
    exact .dtor here moved

theorem workerStep_step {id : Nat} (stepped : main.workerStep id = some (after, note)) :
    MainStep main (.worker id) after note := by
  unfold workerStep at stepped
  have work (finished : ∀ index, main.server.eventpool.workers.pcOf id = some (.running index) →
        ∃ loop, main.server.process.connLoops[index]? = some loop ∧ loop.pc = .stopped)
      (stepped : main.withPool ((main.server.eventpool.workerStep id).map Prod.fst) =
        some (after, note)) : MainStep main (.worker id) after note := by
    obtain ⟨eventpool, worked, rfl, rfl⟩ := withPool_some stepped
    obtain ⟨⟨_, said⟩, moved, rfl⟩ := Option.map_eq_some_iff.mp worked
    exact .work moved finished
  split at stepped
  · rename_i index found
    obtain ⟨loop, inside, ended⟩ := Option.bind_eq_some_iff.mp stepped
    split at ended
    · rename_i stopped
      refine work (fun other same => ?_) ended
      rw [found] at same
      cases same
      exact ⟨loop, inside, stopped⟩
    · cases ended
  · rename_i idle
    exact work (fun index found => absurd found (idle index)) stepped

/-- Every step is one of these. -/
theorem next_step (stepped : main.next turn = some (after, note)) : MainStep main turn after note := by
  cases turn with
  | arrive =>
      cases stepped
      exact .arrive
  | signal =>
      cases stepped
      exact .signal
  | construct =>
      obtain ⟨server, said, moved, rfl, rfl⟩ := withServer_some stepped
      exact .construct moved
  | wait events =>
      change main.epollWait events = _ at stepped
      unfold epollWait at stepped
      split at stepped
      · rename_i tests
        obtain ⟨here, constructed, some, once, ready⟩ := tests
        cases stepped
        exact .wait here constructed some ready once
      · cases stepped
  | fail =>
      change main.epollFail = _ at stepped
      unfold epollFail at stepped
      split at stepped
      · rename_i tests
        cases stepped
        exact .fail tests.1 tests.2
      · cases stepped
  | main result => exact mainStep_step stepped
  | notifyOne woken =>
      obtain ⟨eventpool, moved, rfl, rfl⟩ := withPool_some stepped
      exact .notifyOne moved
  | spurious id =>
      obtain ⟨eventpool, moved, rfl, rfl⟩ := withPool_some stepped
      exact .spurious moved
  | worker id => exact workerStep_step stepped
  | loop id choice =>
      obtain ⟨server, said, moved, rfl, rfl⟩ := withServer_some stepped
      exact .loop moved

end MainThread

end LiteWebServer
