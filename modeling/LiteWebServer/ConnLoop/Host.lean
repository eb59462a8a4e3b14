import LiteWebServer.ConnLoop.Tidy
import LiteWebServer.Data.Sessions
import LiteWebServer.UserConn.Phases

namespace LiteWebServer

open Data

/-! One loop with the connections that it makes and the one-shot sockets in the kernel.  The
handlers are those of the connections, and what they ask for is what the loop does. -/

/-- What `epoll_wait` reports of a socket that waits for this: one of its flags or a hangup.
Nothing is reported of a socket that was reported before and not armed since. -/
def ReadyFlags.Fits (flags : ReadyFlags) : Arming → Prop
  | .read => flags.pollOut = false ∧ (flags.hangup || flags.pollIn) = true
  | .write => flags.pollIn = false ∧ (flags.hangup || flags.pollOut) = true
  | .fired | .closed => False

instance (flags : ReadyFlags) (arming : Arming) : Decidable (flags.Fits arming) :=
  match arming with
  | .read | .write => inferInstanceAs (Decidable (_ ∧ _))
  | .fired | .closed => inferInstanceAs (Decidable False)

/-- The choices for a step of the loop, with the results of the system calls of a handler. -/
structure HostChoice where
  events : List ReadyEvent
  count : Nat
  now : TimePoint
  later : TimePoint
  errno : Errno
  offer : Bytes
  answers : OutAnswers

def HostChoice.loopChoice (choice : HostChoice) (call : LoopCall) : LoopChoice :=
  ⟨choice.events, choice.count, choice.now, choice.later, call⟩

inductive HostTurn where
  | addClisockToQueue (fd : Int)
  | cmdSendAddFd
  | cmdSend (cmd : ConnLoopCmd)
  | loop (choice : HostChoice)

/-- A socket is registered, or what the connection of a socket is told and what it sends. -/
inductive HostNote where
  | quiet
  | registered (fd : Int)
  | told (fd : Int) (event : LinkEvent) (sent : Bytes)

/-- What a note means for the connection of a socket. -/
def HostNote.mark (fd : Int) : HostNote → Mark LinkEvent Bytes
  | .quiet => .quiet
  | .registered other => if other = fd then .opened else .quiet
  | .told other event sent => if other = fd then .told event sent else .quiet

namespace Link

variable (order : HashOrder Bytes Bytes) (server : Server)

/-- The bytes that go out in the handling of an event.  A `send` from behind a text takes them
from the answers. -/
def output (link : Link) : LinkEvent → Bytes
  | .processOut answers => (link.conn.processOutAny order server answers).sent
  | _ => []

/-- A connection on its own, with the bytes that it sends. -/
def speak (link : Link) (event : LinkEvent) : Option (Link × Bytes) :=
  (link.next order server event).map fun stepped => (stepped.1, link.output order server event)

end Link

/-- `armed` is the mask of each registered socket. -/
structure Host (pq : PriorityQueue TimerNode TimerNode.expire) where
  loop : ConnLoop UserConn pq
  armed : Int → Arming

namespace Host

variable (order : HashOrder Bytes Bytes) (server : Server)
  {pq : PriorityQueue TimerNode TimerNode.expire}

/-- `std::make_shared<UserConn>(this, srv_conf_, sockfd)`. -/
def makeConn (_ : Int) : UserConn := .fresh order

def fresh (pq : PriorityQueue TimerNode TimerNode.expire) : Host pq where
  loop := .fresh UserConn pq
  armed _ := .closed

/-- The mask of one socket changes. -/
def arm (armed : Int → Arming) (fd : Int) (arming : Arming) : Int → Arming :=
  Function.update armed fd arming

/-- A reported socket stays silent until it is armed again. -/
def report (armed : Int → Arming) (events : List ReadyEvent) (fd : Int) : Arming :=
  if fd ∈ events.filterMap ReadyEvent.sock? then .fired else armed fd

variable (host : Host pq)

def FitsAll (events : List ReadyEvent) : Prop :=
  ∀ event ∈ events, match event with
    | .cmd => True
    | .sock fd flags => flags.Fits (host.armed fd)

instance (events : List ReadyEvent) : Decidable (host.FitsAll events) :=
  haveI (event : ReadyEvent) : Decidable (match event with
      | .cmd => True
      | .sock fd flags => flags.Fits (host.armed fd)) :=
    match event with
    | .cmd => inferInstanceAs (Decidable True)
    | .sock _ _ => inferInstanceAs (Decidable (ReadyFlags.Fits _ _))
  inferInstanceAs (Decidable (∀ _ ∈ _, _))

def epollWait (events : List ReadyEvent) : Option (Host pq) :=
  if host.FitsAll events then
    (host.loop.epollWait events).map fun loop => ⟨loop, report host.armed events⟩
  else none

/-- The connection of an event, as its handler finds it. -/
def link (fd : Int) : Link := ⟨host.loop.connOf (makeConn order) fd, host.armed fd, []⟩

/-- What is left when a method of the connection of `fd` has run and made its call. -/
def handled (fd : Int) (flags : ReadyFlags) (rest : List ReadyEvent) (choice : HostChoice)
    (event : LinkEvent) : Except Fault Link → Option (Host pq × HostNote)
  | .ok ⟨conn, arming, [call]⟩ =>
      let (loop, _) := host.loop.handleEvent (makeConn order) fd flags rest (choice.loopChoice call)
      some (⟨{ loop with conns := loop.conns.replace fd conn }, arm host.armed fd arming⟩,
        .told fd event ((host.link order fd).output order server event))
  | _ => none

def handleConnClose (fd : Int) (todo : Todo) : Host pq × HostNote :=
  (⟨host.loop.handleConnClose fd todo, arm host.armed fd .closed⟩, .told fd .handleConnClose [])

/-- The body of the loop over the events, for a client socket. -/
def handleEvent (fd : Int) (flags : ReadyFlags) (rest : List ReadyEvent) (choice : HostChoice) :
    Option (Host pq × HostNote) :=
  if flags.hangup then some (host.handleConnClose fd (.events rest))
  else if flags.pollIn then
    host.handled order server fd flags rest choice (.processIn choice.errno choice.offer)
      ((host.link order fd).processIn choice.errno choice.offer)
  else if flags.pollOut then
    host.handled order server fd flags rest choice (.processOut choice.answers)
      (.ok ((host.link order fd).processOut order server choice.answers))
  else
    let loop := host.loop.emplaceConn (makeConn order) fd
    some (⟨{ loop with pc := .going (.events rest) }, host.armed⟩, .quiet)

def loopStep (choice : HostChoice) : Option (Host pq × HostNote) :=
  match host.loop.pc with
  | .waiting => (host.epollWait choice.events).map (·, .quiet)
  | .going (.events (.sock fd flags :: rest)) =>
      host.handleEvent order server fd flags rest choice
  | .going (.expired (fd :: rest)) => some (host.handleConnClose fd (.expired rest))
  | .adding (fd :: socks) cmds rest =>
      let (loop, _) := host.loop.addClisockToEpoll (fd :: socks) cmds rest choice.now
      some (⟨loop, arm host.armed fd .read⟩, .registered fd)
  | _ =>
      (host.loop.loopStep (makeConn order) (choice.loopChoice .connClose)).map fun stepped =>
        (⟨stepped.1, host.armed⟩, .quiet)

/-- The callers give the loop sockets that were just accepted, so none that it still holds. -/
def next : HostTurn → Option (Host pq × HostNote)
  | .addClisockToQueue fd =>
      if fd ∈ host.loop.held then none
      else some (⟨host.loop.addClisockToQueue fd, host.armed⟩, .quiet)
  | .cmdSendAddFd => host.loop.cmdSendAddFd.map (⟨·, host.armed⟩, .quiet)
  | .cmdSend cmd =>
      if cmd = .addFd then none else some (⟨host.loop.cmdSend cmd, host.armed⟩, .quiet)
  | .loop choice => host.loopStep order server choice

/-- A loop and its connections under any callers, any clock, any readiness of its sockets and
any results of the system calls of the handlers. -/
def system (pq : PriorityQueue TimerNode TimerNode.expire) : System (Host pq) HostNote :=
  .ofNext (fun host => host = fresh pq) (next order server)

end Host

end LiteWebServer
