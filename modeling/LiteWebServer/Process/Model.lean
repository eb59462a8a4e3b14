import LiteWebServer.ConnLoop.Tidy

namespace LiteWebServer

open Data

/-! The acceptor and the loops over the descriptor table of the process, until shutdown. -/

/-- Where `deal_new_conn_greedy` is: before `accept`, between `accept` and the block of
`add_clisock_to_queue`, or before its `write`. -/
inductive AcceptorPc where
  | accepting
  | accepted (cliSock : Int)
  | pushed
deriving DecidableEq, Repr

/-- `fds` are the numbers of the open client sockets, each with the connection it stands
for.  Connections are numbered as they are accepted, and `owners` has the loop that each
was given to.  The connections in `conns` carry the number they were made for. -/
structure Process (pq : PriorityQueue TimerNode TimerNode.expire) where
  fds : UnorderedMap Int Nat
  owners : List Nat
  poolIdx : Nat
  acceptor : AcceptorPc
  connLoops : List (ConnLoop (Option Nat) pq)

/-- What a step shows: a connection accepted, a call of `close` with what the number stood
for, and an event given to a connection with what its number stands for. -/
inductive ProcessNote where
  | quiet
  | accepted (conn : Nat)
  | closed (loop : Nat) (fd : Int) (conn : Option Nat)
  | dispatched (loop : Nat) (fd : Int) (conn current : Option Nat)
deriving DecidableEq, Repr

/-- The acceptor with the number that `accept` gives, or a loop. -/
inductive ProcessTurn where
  | acceptor (fd : Int)
  | loop (loop : Nat) (choice : LoopChoice)

namespace Process

variable {pq : PriorityQueue TimerNode TimerNode.expire}

def start (pq : PriorityQueue TimerNode TimerNode.expire) (nthread : Nat) : Process pq where
  fds := ∅
  owners := []
  poolIdx := 0
  acceptor := .accepting
  connLoops := List.replicate nthread (.fresh _ pq)

variable (process : Process pq)

/-- `accept` gives any number that is not in use. -/
def accept (fd : Int) : Option (Process pq × ProcessNote) :=
  if fd ∈ process.fds then none
  else
    some ({ process with
      fds := process.fds.insert fd process.owners.length, acceptor := .accepted fd },
      .accepted process.owners.length)

/-- `conn_loops_[pool_idx_]->add_clisock_to_queue(cli_sock)` up to the end of its block. -/
def push (cliSock : Int) : Option (Process pq × ProcessNote) := do
  let loop ← process.connLoops[process.poolIdx]?
  return ({ process with
    connLoops := process.connLoops.set process.poolIdx (loop.addClisockToQueue cliSock),
    owners := process.owners ++ [process.poolIdx], acceptor := .pushed }, .quiet)

/-- The rest of that call, and the choice of the next loop. -/
def write : Option (Process pq × ProcessNote) := do
  let loop ← process.connLoops[process.poolIdx]?
  let loop ← loop.cmdSendAddFd
  return ({ process with
    connLoops := process.connLoops.set process.poolIdx loop,
    poolIdx := (process.poolIdx + 1) % process.connLoops.length, acceptor := .accepting }, .quiet)

def acceptorStep (fd : Int) : Option (Process pq × ProcessNote) :=
  match process.acceptor with
  | .accepting => process.accept fd
  | .accepted cliSock => process.push cliSock
  | .pushed => process.write

/-- What a step of the acceptor does, by where it stands. -/
inductive AcceptorMove (process : Process pq) (fd : Int) : Process pq → ProcessNote → Prop where
  | accept (here : process.acceptor = .accepting) (new : fd ∉ process.fds) :
      AcceptorMove process fd
        { process with
          fds := process.fds.insert fd process.owners.length, acceptor := .accepted fd }
        (.accepted process.owners.length)
  | push {cliSock : Int} {loop : ConnLoop (Option Nat) pq}
      (here : process.acceptor = .accepted cliSock)
      (found : process.connLoops[process.poolIdx]? = some loop) :
      AcceptorMove process fd
        { process with
          connLoops := process.connLoops.set process.poolIdx (loop.addClisockToQueue cliSock),
          owners := process.owners ++ [process.poolIdx], acceptor := .pushed }
        .quiet
  | write {loop sent : ConnLoop (Option Nat) pq} (here : process.acceptor = .pushed)
      (found : process.connLoops[process.poolIdx]? = some loop)
      (wrote : loop.cmdSendAddFd = some sent) :
      AcceptorMove process fd
        { process with
          connLoops := process.connLoops.set process.poolIdx sent,
          poolIdx := (process.poolIdx + 1) % process.connLoops.length, acceptor := .accepting }
        .quiet

theorem acceptorStep_move {process after : Process pq} {fd : Int} {note : ProcessNote}
    (stepped : process.acceptorStep fd = some (after, note)) : process.AcceptorMove fd after note := by
  unfold acceptorStep at stepped
  split at stepped
  · rename_i here
    unfold accept at stepped
    split at stepped
    · cases stepped
    · rename_i new
      cases stepped
      exact .accept here new
  · rename_i cliSock here
    obtain ⟨loop, found, same⟩ := Option.bind_eq_some_iff.mp stepped
    cases same
    exact .push here found
  · rename_i here
    obtain ⟨loop, found, rest⟩ := Option.bind_eq_some_iff.mp stepped
    obtain ⟨sent, wrote, same⟩ := Option.bind_eq_some_iff.mp rest
    cases same
    exact .write here found wrote

/-- A step of loop `index`.  A connection is made for what its number stands for now, and
`close` frees the number. -/
def loopStep (index : Nat) (choice : LoopChoice) : Option (Process pq × ProcessNote) := do
  let loop ← process.connLoops[index]?
  let (loop, note) ← loop.loopStep process.fds.lookup choice
  let after := { process with connLoops := process.connLoops.set index loop }
  match note with
  | .closed fd =>
      return ({ after with fds := process.fds.erase fd }, .closed index fd (process.fds.lookup fd))
  | .dispatched fd conn => return (after, .dispatched index fd conn (process.fds.lookup fd))
  | _ => return (after, .quiet)

def next : ProcessTurn → Option (Process pq × ProcessNote)
  | .acceptor fd => process.acceptorStep fd
  | .loop index choice => process.loopStep index choice

def system (pq : PriorityQueue TimerNode TimerNode.expire) (nthread : Nat) :
    System (Process pq) ProcessNote :=
  .ofNext (fun process => process = start pq nthread) next

def acceptedCount : Nat :=
  match process.acceptor with
  | .accepted _ => process.owners.length + 1
  | _ => process.owners.length

end Process

end LiteWebServer
