import LiteWebServer.Process.Model
import LiteWebServer.ThreadPool.Model

namespace LiteWebServer

open Data

/-! The server from its constructor until shutdown.  The loops are tasks of its pool, and
only a worker makes a loop move. -/

/-- `nthread_`, from which the numbers of workers and of loops come. -/
structure ServerConf where
  nthread : UInt8

/-- `eventpool_`, whose tasks are the indices of the loops to run, and the members behind
the acceptor. -/
structure WebServer (pq : PriorityQueue TimerNode TimerNode.expire) where
  srvConf : ServerConf
  eventpool : ThreadPool Nat
  process : Process pq

/-- The constructor, the threads of the pool, and the acceptor of `start_loop`. -/
inductive ServerTurn where
  | construct
  | notifyOne (woken : Option Nat)
  | spurious (id : Nat)
  | worker (id : Nat)
  | loop (id : Nat) (choice : LoopChoice)
  | acceptor (fd : Int)

namespace WebServer

variable {pq : PriorityQueue TimerNode TimerNode.expire}

/-- The default of `max_num`, which `eventpool_(srv_conf_.nthread_)` leaves in force. -/
def defMaxNum : Nat := 10

/-- The server before the first round of the loop that ends its constructor. -/
def start (pq : PriorityQueue TimerNode TimerNode.expire) (conf : ServerConf) (ids : List Nat) :
    WebServer pq where
  srvConf := conf
  eventpool := .construct ids defMaxNum false
  process := .start pq 0

variable (server : WebServer pq)

/-- The constructor has enqueued every loop and made every notification. -/
def Constructed : Prop :=
  server.process.connLoops.length = server.srvConf.nthread.toNat ∧
    server.eventpool.dueNotifies = 0

instance : Decidable server.Constructed := inferInstanceAs (Decidable (_ ∧ _))

/-- A round of that loop up to the end of the block of `enqueue`.  The round before it has
made its notification. -/
def construct : Option (WebServer pq × ProcessNote) :=
  let index := server.process.connLoops.length
  if index < server.srvConf.nthread.toNat ∧ server.eventpool.dueNotifies = 0 then
    some ({ server with
      eventpool := (server.eventpool.enqueue index).1,
      process := { server.process with
        connLoops := server.process.connLoops ++ [.fresh _ pq] } }, .quiet)
  else none

/-- The block of the worker loop.  `ConnLoop::loop` does not return before the stop. -/
def workerStep (id : Nat) : Option (WebServer pq × ProcessNote) :=
  match server.eventpool.workers.pcOf id with
  | some .ready => some ({ server with eventpool := (server.eventpool.workerBlock id).1 }, .quiet)
  | _ => none

/-- A step of the loop that the worker runs. -/
def loopStep (id : Nat) (choice : LoopChoice) : Option (WebServer pq × ProcessNote) :=
  match server.eventpool.workers.pcOf id with
  | some (.running index) => do
      let (process, note) ← server.process.loopStep index choice
      return ({ server with process }, note)
  | _ => none

/-- A step of `deal_new_conn_greedy`, which `start_loop` calls. -/
def acceptorStep (fd : Int) : Option (WebServer pq × ProcessNote) :=
  if server.Constructed then do
    let (process, note) ← server.process.acceptorStep fd
    return ({ server with process }, note)
  else none

def next : ServerTurn → Option (WebServer pq × ProcessNote)
  | .construct => server.construct
  | .notifyOne woken =>
      (server.eventpool.notifyOne woken).map fun eventpool => ({ server with eventpool }, .quiet)
  | .spurious id =>
      (server.eventpool.wakeUp id).map fun eventpool => ({ server with eventpool }, .quiet)
  | .worker id => server.workerStep id
  | .loop id choice => server.loopStep id choice
  | .acceptor fd => server.acceptorStep fd

def system (pq : PriorityQueue TimerNode TimerNode.expire) (conf : ServerConf) :
    System (WebServer pq) ProcessNote :=
  .ofNext
    (fun server => ∃ ids : List Nat, ids.Nodup ∧
      ids.length = min conf.nthread.toNat defMaxNum ∧ server = start pq conf ids)
    next

end WebServer

end LiteWebServer
