import LiteWebServer.Server.Model

namespace LiteWebServer

open Data

/-! The whole program: the main thread from the constructor over `start_loop` to the
destructor of the pool, beside the threads of the pool, the clients and the signals. -/

/-- What the `epoll_wait` of `start_loop` reports. -/
inductive ListenEvent where
  | srvSock | exitEvent
deriving DecidableEq, Repr

/-- Where the main thread is: in `epoll_wait`, between two events, in
`deal_new_conn_greedy`, before the stop of a loop, or behind `start_loop`. -/
inductive MainPc where
  | waiting
  | going (rest : List ListenEvent)
  | dealing (rest : List ListenEvent)
  | stopping (index : Nat)
  | returned
deriving DecidableEq, Repr

/-- What `accept` comes back with: a client socket, `EINTR`, or any other error. -/
inductive AcceptResult where
  | cliSock (fd : Int)
  | interrupted | failed

/-- `backlog` counts the connections that wait to be accepted, `srvEdge` is the event
pending for an edge-triggered listening socket, `exitEvent` is the counter of
`exit_event_`, and `exitArmed` tells whether its one event is still to come. -/
structure MainThread (pq : PriorityQueue TimerNode TimerNode.expire) where
  server : WebServer pq
  epollEtSrv : Bool
  backlog : Nat
  srvEdge : Bool
  exitEvent : Nat
  exitArmed : Bool
  pc : MainPc

/-- Whose turn it is: a client that connects, a signal, the main thread, or a thread of
the pool. -/
inductive MainTurn where
  | arrive | signal
  | construct
  | wait (events : List ListenEvent)
  | fail
  | main (result : AcceptResult)
  | notifyOne (woken : Option Nat)
  | spurious (id : Nat)
  | worker (id : Nat)
  | loop (id : Nat) (choice : LoopChoice)

/-- What a step shows beside what the process shows: that `deal_new_conn_greedy` ended with
so many connections waiting, or that a loop was stopped. -/
inductive MainNote where
  | quiet
  | process (note : ProcessNote)
  | left (backlog : Nat)
  | stopped (index : Nat)

namespace MainThread

variable {pq : PriorityQueue TimerNode TimerNode.expire}

def start (pq : PriorityQueue TimerNode TimerNode.expire) (conf : ServerConf) (epollEtSrv : Bool)
    (ids : List Nat) : MainThread pq where
  server := .start pq conf ids
  epollEtSrv := epollEtSrv
  backlog := 0
  srvEdge := false
  exitEvent := 0
  exitArmed := true
  pc := .waiting

variable (main : MainThread pq)

def withServer (moved : Option (WebServer pq × ProcessNote)) : Option (MainThread pq × MainNote) :=
  moved.map fun moved => ({ main with server := moved.1 }, .process moved.2)

def withPool (moved : Option (ThreadPool Nat)) : Option (MainThread pq × MainNote) :=
  moved.map fun eventpool => ({ main with server := { main.server with eventpool } }, .quiet)

/-- What `epoll_wait` may report: the listening socket for a connection that waits, and the
exit event once. -/
def Ready : ListenEvent → Prop
  | .srvSock => main.backlog ≠ 0 ∧ (main.epollEtSrv = true → main.srvEdge = true)
  | .exitEvent => main.exitEvent ≠ 0 ∧ main.exitArmed = true

instance (event : ListenEvent) : Decidable (main.Ready event) :=
  match event with
  | .srvSock => inferInstanceAs (Decidable (_ ∧ (_ → _)))
  | .exitEvent => inferInstanceAs (Decidable (_ ∧ _))

/-- `epoll_wait` blocks until there is something to report; an interrupted one is repeated. -/
def epollWait (events : List ListenEvent) : Option (MainThread pq × MainNote) :=
  if main.pc = .waiting ∧ main.server.Constructed ∧
      events ≠ [] ∧ events.Nodup ∧ ∀ event ∈ events, main.Ready event then
    some ({ main with
      srvEdge := main.srvEdge && !(ListenEvent.srvSock ∈ events : Bool),
      exitArmed := main.exitArmed && !(ListenEvent.exitEvent ∈ events : Bool),
      pc := .going events }, .quiet)
  else none

/-- Any other error of `epoll_wait` ends the loop. -/
def epollFail : Option (MainThread pq × MainNote) :=
  if main.pc = .waiting ∧ main.server.Constructed then some ({ main with pc := .stopping 0 }, .quiet)
  else none

/-- One `accept` of `deal_new_conn_greedy`, or a step of what it does with the socket. -/
def dealNewConnGreedy (rest : List ListenEvent) (result : AcceptResult) :
    Option (MainThread pq × MainNote) :=
  match main.server.process.acceptor with
  | .accepting =>
      match result with
      | .cliSock fd =>
          if main.backlog = 0 then none
          else withServer { main with backlog := main.backlog - 1 } (main.server.acceptorStep fd)
      | .interrupted => some (main, .quiet)
      | .failed => some ({ main with pc := .going rest }, .left main.backlog)
  | .accepted cliSock => main.withServer (main.server.acceptorStep cliSock)
  | .pushed => main.withServer (main.server.acceptorStep 0)

/-- A round of the loop that stops the loops. -/
def stopLoop (index : Nat) : Option (MainThread pq × MainNote) :=
  if index < main.server.srvConf.nthread.toNat then do
    let loop ← main.server.process.connLoops[index]?
    return ({ main with
      server := { main.server with
        process := { main.server.process with
          connLoops := main.server.process.connLoops.set index (loop.cmdSend .close) } },
      pc := .stopping (index + 1) }, .stopped index)
  else some ({ main with pc := .returned }, .quiet)

/-- A step of the main thread outside `epoll_wait`.  Behind `start_loop` it is in the
destructor of `eventpool_`. -/
def mainStep (result : AcceptResult) : Option (MainThread pq × MainNote) :=
  match main.pc with
  | .waiting => none
  | .going [] => some ({ main with pc := .waiting }, .quiet)
  | .going (.srvSock :: rest) => some ({ main with pc := .dealing rest }, .quiet)
  | .going (.exitEvent :: _) => some ({ main with pc := .stopping 0 }, .quiet)
  | .dealing rest => main.dealNewConnGreedy rest result
  | .stopping index => main.stopLoop index
  | .returned => main.withPool main.server.eventpool.dtorStep

/-- A worker returns from `ConnLoop::loop` when its loop has stopped. -/
def workerStep (id : Nat) : Option (MainThread pq × MainNote) :=
  match main.server.eventpool.workers.pcOf id with
  | some (.running index) => do
      let loop ← main.server.process.connLoops[index]?
      if loop.pc = .stopped then
        main.withPool ((main.server.eventpool.workerStep id).map Prod.fst)
      else none
  | _ => main.withPool ((main.server.eventpool.workerStep id).map Prod.fst)

def next : MainTurn → Option (MainThread pq × MainNote)
  | .arrive => some ({ main with backlog := main.backlog + 1, srvEdge := true }, .quiet)
  | .signal => some ({ main with exitEvent := main.exitEvent + 1 }, .quiet)
  | .construct => main.withServer main.server.construct
  | .wait events => main.epollWait events
  | .fail => main.epollFail
  | .main result => main.mainStep result
  | .notifyOne woken => main.withPool (main.server.eventpool.notifyOne woken)
  | .spurious id => main.withPool (main.server.eventpool.wakeUp id)
  | .worker id => main.workerStep id
  | .loop id choice => main.withServer (main.server.loopStep id choice)

def system (pq : PriorityQueue TimerNode TimerNode.expire) (conf : ServerConf) (epollEtSrv : Bool) :
    System (MainThread pq) MainNote :=
  .ofNext
    (fun main => ∃ ids : List Nat, ids.Nodup ∧
      ids.length = min conf.nthread.toNat WebServer.defMaxNum ∧ main = start pq conf epollEtSrv ids)
    next

end MainThread

end LiteWebServer
