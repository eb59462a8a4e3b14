import LiteWebServer.Data.Transition
import LiteWebServer.TimeUtil
import LiteWebServer.UserConn.State

namespace LiteWebServer

open Data

/-! One loop with the callers of `add_clisock_to_queue`.  A step of a caller is its block
or its `write`; a step of the loop ends before the next access to what others see. -/

inductive ConnLoopCmd where
  | unknown | addFd | close
deriving DecidableEq, Repr

/-- The flags that `loop` tests: `EPOLLRDHUP | EPOLLHUP | EPOLLERR`, `EPOLLIN`, `EPOLLOUT`. -/
structure ReadyFlags where
  hangup : Bool
  pollIn : Bool
  pollOut : Bool
deriving DecidableEq, Repr

inductive ReadyEvent where
  | cmd
  | sock (fd : Int) (flags : ReadyFlags)
deriving DecidableEq, Repr

/-- The client socket of an event; the command socket is not one. -/
def ReadyEvent.sock? : ReadyEvent → Option Int
  | .cmd => none
  | .sock fd _ => some fd

/-- What is left of an iteration: events of the batch, or expired sockets. -/
inductive Todo where
  | events (rest : List ReadyEvent)
  | expired (rest : List Int)
deriving DecidableEq, Repr

/-- Where the loop is: in `epoll_wait`, between two events or expired sockets, at the
`read` of `cmd_recv`, in its batch of commands, in the loop of `add_clisock_to_epoll`,
or before the `close` of `handle_conn_close`. -/
inductive LoopPc where
  | waiting
  | going (todo : Todo)
  | reading (rest : List ReadyEvent)
  | handling (cmds : List ConnLoopCmd) (cmdRecvAddFd : Bool) (rest : List ReadyEvent)
  | adding (newCliSocksSwap : List Int) (cmds : List ConnLoopCmd) (rest : List ReadyEvent)
  | closing (fd : Int) (todo : Todo)
  | stopped
deriving DecidableEq, Repr

/-- A loop whose connections are of type `κ`.  `owed` counts the callers between their
block and their `write`, `edge` is the event pending for the command socket, and
`epoll` holds the client sockets that are registered. -/
structure ConnLoop (κ : Type) (pq : PriorityQueue TimerNode TimerNode.expire) where
  newCliSocks : List Int
  owed : Nat
  cmdSockpair : List ConnLoopCmd
  edge : Bool
  epoll : List Int
  conns : UnorderedMap Int κ
  timerMgr : TimerManager pq
  pc : LoopPc

inductive LoopNote (κ : Type) where
  | quiet
  | pushed (fd : Int)
  | registered (fd : Int)
  | dispatched (fd : Int) (conn : κ)
  | closed (fd : Int)

/-- What the environment chooses for a step of the loop: the events reported, how many
bytes `read` takes, the readings of the clock, and what the connection asks for. -/
structure LoopChoice where
  events : List ReadyEvent
  count : Nat
  now : TimePoint
  later : TimePoint
  call : LoopCall

namespace ConnLoop

variable {κ : Type} {pq : PriorityQueue TimerNode TimerNode.expire}

def defCmdBuffLen : Nat := 1024

/-- `SteadyClock::now() + MilliSeconds(DEF_TIMER_EXPIRE_MS)`, in nanoseconds. -/
def defExpire (now : TimePoint) : TimePoint := now + 10 * 1000 * 1000000

def fresh (κ : Type) (pq : PriorityQueue TimerNode TimerNode.expire) : ConnLoop κ pq where
  newCliSocks := []
  owed := 0
  cmdSockpair := []
  edge := false
  epoll := []
  conns := ∅
  timerMgr := .fresh pq
  pc := .waiting

variable (loop : ConnLoop κ pq)

/-- The block of `add_clisock_to_queue`. -/
def addClisockToQueue (fd : Int) : ConnLoop κ pq :=
  { loop with newCliSocks := loop.newCliSocks ++ [fd], owed := loop.owed + 1 }

/-- A `write` to the command socket arrives at the other end. -/
def cmdSend (cmd : ConnLoopCmd) : ConnLoop κ pq :=
  { loop with cmdSockpair := loop.cmdSockpair ++ [cmd], edge := true }

/-- The `write` of `add_clisock_to_queue`. -/
def cmdSendAddFd : Option (ConnLoop κ pq) :=
  if loop.owed = 0 then none else some { loop.cmdSend .addFd with owed := loop.owed - 1 }

/-- What `epoll_wait` may report: each socket at most once, clients that are registered,
and the command socket if its event is pending. -/
def Reportable (events : List ReadyEvent) : Prop :=
  (events.map ReadyEvent.sock?).Nodup ∧
    ∀ event ∈ events, match event with
      | .cmd => loop.edge = true
      | .sock fd _ => fd ∈ loop.epoll

instance (events : List ReadyEvent) : Decidable (loop.Reportable events) :=
  haveI (event : ReadyEvent) : Decidable (match event with
      | .cmd => loop.edge = true
      | .sock fd _ => fd ∈ loop.epoll) :=
    match event with
    | .cmd => inferInstanceAs (Decidable (_ = _))
    | .sock _ _ => inferInstanceAs (Decidable (_ ∈ _))
  inferInstanceAs (Decidable (_ ∧ _))

/-- `epoll_wait`.  Timeouts and interruptions report nothing. -/
def epollWait (events : List ReadyEvent) : Option (ConnLoop κ pq) :=
  if loop.Reportable events then
    some { loop with
      edge := loop.edge && !(ReadyEvent.cmd ∈ events : Bool), pc := .going (.events events) }
  else none

def epollAdd (fd : Int) : List Int := if fd ∈ loop.epoll then loop.epoll else loop.epoll ++ [fd]

def addTimer (fd : Int) (now : TimePoint) : ConnLoop κ pq :=
  { loop with timerMgr := loop.timerMgr.addTimer fd (defExpire now) }

/-- `handle_conn_close` up to its `close`. -/
def handleConnClose (fd : Int) (todo : Todo) : ConnLoop κ pq :=
  { loop with
    epoll := loop.epoll.erase fd, conns := loop.conns.erase fd,
    timerMgr := loop.timerMgr.rmTimer fd, pc := .closing fd todo }

/-- `handle_conn_in` and `handle_conn_out`, which differ in the method they call.
`EPOLL_CTL_MOD` changes what a registered socket waits for. -/
def handleConn (fd : Int) (rest : List ReadyEvent) (choice : LoopChoice) : ConnLoop κ pq :=
  let loop := loop.addTimer fd choice.now
  match choice.call with
  | .modConnEventRead | .modConnEventWrite =>
      { loop.addTimer fd choice.later with pc := .going (.events rest) }
  | .connClose => loop.handleConnClose fd (.events rest)

/-- The body of the loop over the events, for a client socket.  `newConn` makes the
connection for a number. -/
def handleEvent (newConn : Int → κ) (fd : Int) (flags : ReadyFlags) (rest : List ReadyEvent)
    (choice : LoopChoice) : ConnLoop κ pq × LoopNote κ :=
  if flags.hangup then (loop.handleConnClose fd (.events rest), .quiet)
  else
    let conns := UnorderedMap.emplace loop.conns fd (newConn fd)
    let conn := (conns.lookup fd).getD (newConn fd)
    let loop := { loop with conns }
    if flags.pollIn then (loop.handleConn fd rest choice, .dispatched fd conn)
    else if flags.pollOut then (loop.handleConn fd rest choice, .dispatched fd conn)
    else ({ loop with pc := .going (.events rest) }, .quiet)

/-- One `read` of `cmd_recv`, of any number of bytes up to the buffer size; an
interrupted one is only repeated. -/
def cmdRead (rest : List ReadyEvent) (count : Nat) : Option (ConnLoop κ pq) :=
  if loop.cmdSockpair = [] then some { loop with pc := .going (.events rest) }
  else if 1 ≤ count ∧ count ≤ min defCmdBuffLen loop.cmdSockpair.length then
    some { loop with
      cmdSockpair := loop.cmdSockpair.drop count,
      pc := .handling (loop.cmdSockpair.take count) false rest }
  else none

def cmdHandle (cmds : List ConnLoopCmd) (cmdRecvAddFd : Bool) (rest : List ReadyEvent) :
    ConnLoop κ pq :=
  match cmds with
  | [] => { loop with pc := .reading rest }
  | .close :: _ => { loop with pc := .stopped }
  | .addFd :: cmds =>
      if !cmdRecvAddFd then
        { loop with newCliSocks := [], pc := .adding loop.newCliSocks cmds rest }
      else { loop with pc := .handling cmds cmdRecvAddFd rest }
  | .unknown :: cmds => { loop with pc := .handling cmds cmdRecvAddFd rest }

def addClisockToEpoll (socks : List Int) (cmds : List ConnLoopCmd) (rest : List ReadyEvent)
    (now : TimePoint) : ConnLoop κ pq × LoopNote κ :=
  match socks with
  | [] => ({ loop with pc := .handling cmds true rest }, .quiet)
  | fd :: socks =>
      ({ loop.addTimer fd now with epoll := loop.epollAdd fd, pc := .adding socks cmds rest },
        .registered fd)

def loopStep (newConn : Int → κ) (choice : LoopChoice) : Option (ConnLoop κ pq × LoopNote κ) :=
  match loop.pc with
  | .waiting => (loop.epollWait choice.events).map (·, .quiet)
  | .going (.events (.cmd :: rest)) => some ({ loop with pc := .reading rest }, .quiet)
  | .going (.events (.sock fd flags :: rest)) =>
      some (loop.handleEvent newConn fd flags rest choice)
  | .going (.events []) =>
      let (timerMgr, expired) := loop.timerMgr.handleExpiredTimers choice.now []
      some ({ loop with timerMgr, pc := .going (.expired expired) }, .quiet)
  | .going (.expired (fd :: rest)) => some (loop.handleConnClose fd (.expired rest), .quiet)
  | .going (.expired []) => some ({ loop with pc := .waiting }, .quiet)
  | .reading rest => (loop.cmdRead rest choice.count).map (·, .quiet)
  | .handling cmds cmdRecvAddFd rest => some (loop.cmdHandle cmds cmdRecvAddFd rest, .quiet)
  | .adding socks cmds rest => some (loop.addClisockToEpoll socks cmds rest choice.now)
  | .closing fd todo => some ({ loop with pc := .going todo }, .closed fd)
  | .stopped => none

end ConnLoop

inductive LoopTurn where
  | addClisockToQueue (fd : Int)
  | cmdSendAddFd
  | cmdSend (cmd : ConnLoopCmd)
  | loop (choice : LoopChoice)

namespace ConnLoop

variable {κ : Type} {pq : PriorityQueue TimerNode TimerNode.expire}

def next (newConn : Int → κ) (loop : ConnLoop κ pq) :
    LoopTurn → Option (ConnLoop κ pq × LoopNote κ)
  | .addClisockToQueue fd => some (loop.addClisockToQueue fd, .pushed fd)
  | .cmdSendAddFd => loop.cmdSendAddFd.map (·, .quiet)
  | .cmdSend cmd => if cmd = .addFd then none else some (loop.cmdSend cmd, .quiet)
  | .loop choice => loop.loopStep newConn choice

/-- A loop under any callers, any events and any clock. -/
def system (newConn : Int → κ) (pq : PriorityQueue TimerNode TimerNode.expire) :
    System (ConnLoop κ pq) (LoopNote κ) :=
  .ofNext (fun loop => loop = fresh κ pq) (next newConn)

end ConnLoop

end LiteWebServer
