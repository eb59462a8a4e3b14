import LiteWebServer.ConnLoop.Hosting
import LiteWebServer.Process.Ownership

namespace LiteWebServer

open Data

/-! The acceptor and the loops with their connections, over the descriptor table of the
process.  What a loop does with its sockets does not depend on its connections, so that this
is a process in which they are left out. -/

def LoopNote.closed? {κ : Type} : LoopNote κ → Option Int
  | .closed fd => some fd
  | _ => none

/-- The socket that the next step of the loop closes in the kernel. -/
def LoopPc.closes? : LoopPc → Option Int
  | .closing fd _ => some fd
  | _ => none

namespace ConnLoop

variable {κ ν : Type} {pq : PriorityQueue TimerNode TimerNode.expire} {newConn : Int → κ}

/-- The same loop with other connections. -/
def withConns (loop : ConnLoop κ pq) (conns : UnorderedMap Int ν) : ConnLoop ν pq where
  newCliSocks := loop.newCliSocks
  owed := loop.owed
  cmdSockpair := loop.cmdSockpair
  edge := loop.edge
  epoll := loop.epoll
  conns := conns
  timerMgr := loop.timerMgr
  pc := loop.pc

variable {loop after : ConnLoop κ pq} {choice : LoopChoice} {note : LoopNote κ}

theorem LoopStep.closed? (step : LoopStep newConn loop choice after note) :
    note.closed? = loop.pc.closes? := by
  cases step with
  | wait here | command here | hangup here | serve here | drop here | ignore here | expire here
  | dropExpired here | again here | drained here | read here | handled here | stop here | swap here
  | skip here | register here | registered here | close here =>
      rw [here]
      rfl

theorem epollWait_withConns (conns : UnorderedMap Int ν) (events : List ReadyEvent) :
    (loop.withConns conns).epollWait events = (loop.epollWait events).map (·.withConns conns) := by
  unfold epollWait
  by_cases reportable : loop.Reportable events
  · have reportable' : (loop.withConns conns).Reportable events := reportable
    rw [if_pos reportable, if_pos reportable']
    rfl
  · have refused : ¬ (loop.withConns conns).Reportable events := reportable
    rw [if_neg reportable, if_neg refused]
    rfl

theorem cmdRead_withConns (conns : UnorderedMap Int ν) (rest : List ReadyEvent) (count : Nat) :
    (loop.withConns conns).cmdRead rest count = (loop.cmdRead rest count).map (·.withConns conns) := by
  have same : (loop.withConns conns).cmdSockpair = loop.cmdSockpair := rfl
  unfold cmdRead
  rw [same]
  split
  · rfl
  · split <;> rfl

theorem cmdHandle_withConns (conns : UnorderedMap Int ν) (cmds : List ConnLoopCmd)
    (cmdRecvAddFd : Bool) (rest : List ReadyEvent) :
    (loop.withConns conns).cmdHandle cmds cmdRecvAddFd rest =
      (loop.cmdHandle cmds cmdRecvAddFd rest).withConns conns := by
  cases cmds with
  | nil => rfl
  | cons cmd cmds => cases cmd <;> cases cmdRecvAddFd <;> rfl

theorem handleEvent_withConns (conns : UnorderedMap Int ν) (newConn : Int → κ) (newConn' : Int → ν)
    (fd : Int) (flags : ReadyFlags) (rest : List ReadyEvent) :
    ∃ conns', ((loop.withConns conns).handleEvent newConn' fd flags rest choice).1 =
      (loop.handleEvent newConn fd flags rest choice).1.withConns conns' := by
  obtain ⟨hangup, pollIn, pollOut⟩ := flags
  cases hangup with
  | true => exact ⟨_, rfl⟩
  | false =>
      cases called : choice.call <;> cases pollIn <;> cases pollOut <;>
        simp only [handleEvent, handleConn, called] <;> exact ⟨_, rfl⟩

theorem addClisockToEpoll_withConns (conns : UnorderedMap Int ν) (socks : List Int)
    (cmds : List ConnLoopCmd) (rest : List ReadyEvent) (now : TimePoint) :
    ((loop.withConns conns).addClisockToEpoll socks cmds rest now).1 =
      (loop.addClisockToEpoll socks cmds rest now).1.withConns conns := by
  cases socks <;> rfl

/-- A loop does with other connections what it does with these. -/
theorem loopStep_withConns (stepped : loop.loopStep newConn choice = some (after, note))
    (conns : UnorderedMap Int ν) (newConn' : Int → ν) :
    ∃ conns' note', (loop.withConns conns).loopStep newConn' choice =
      some (after.withConns conns', note') := by
  have same : (loop.withConns conns).pc = loop.pc := rfl
  unfold loopStep at stepped ⊢
  rw [same]
  split at stepped
  · obtain ⟨next, waited, same⟩ := Option.map_eq_some_iff.mp stepped
    cases same
    rw [epollWait_withConns, waited]
    exact ⟨_, _, rfl⟩
  · cases stepped
    exact ⟨conns, .quiet, rfl⟩
  · rename_i fd flags rest here
    obtain ⟨conns', handled⟩ :=
      @handleEvent_withConns _ _ _ loop choice conns newConn newConn' fd flags rest
    rw [Option.some.inj stepped] at handled
    exact ⟨conns', _, congrArg some (Prod.ext handled rfl)⟩
  · cases stepped
    exact ⟨conns, .quiet, rfl⟩
  · cases stepped
    exact ⟨_, .quiet, rfl⟩
  · cases stepped
    exact ⟨conns, .quiet, rfl⟩
  · obtain ⟨next, read, same⟩ := Option.map_eq_some_iff.mp stepped
    cases same
    rw [cmdRead_withConns, read]
    exact ⟨_, _, rfl⟩
  · cases stepped
    rw [cmdHandle_withConns]
    exact ⟨_, _, rfl⟩
  · rename_i socks cmds rest here
    have added := @addClisockToEpoll_withConns _ _ _ loop conns socks cmds rest choice.now
    rw [Option.some.inj stepped] at added
    exact ⟨conns, _, congrArg some (Prod.ext added rfl)⟩
  · cases stepped
    exact ⟨conns, _, rfl⟩
  · cases stepped

end ConnLoop

namespace Host

variable {pq : PriorityQueue TimerNode TimerNode.expire} {order : HashOrder Bytes Bytes}
  {server : Server} {host after : Host pq} {note : HostNote}

theorem handled_loop {fd : Int} {flags : ReadyFlags} {rest : List ReadyEvent} {choice : HostChoice}
    {event : LinkEvent} {link : Except Fault Link}
    (here : host.loop.pc = .going (.events (.sock fd flags :: rest)))
    (stepped : host.handled order server fd flags rest choice event link = some (after, note)) :
    ∃ choice' loop said conns, host.loop.loopStep (makeConn order) choice' = some (loop, said) ∧
      after.loop = loop.withConns conns := by
  unfold handled at stepped
  split at stepped
  · rename_i conn arming loopCall
    cases stepped
    let shown := host.loop.handleEvent (makeConn order) fd flags rest (choice.loopChoice loopCall)
    refine ⟨choice.loopChoice loopCall, shown.1, shown.2, shown.1.conns.replace fd conn, ?_, rfl⟩
    rw [ConnLoop.loopStep, here]
  · cases stepped

/-- A step of the loop of a host is one of a loop, up to the connections. -/
theorem loopStep_loop {choice : HostChoice}
    (stepped : host.loopStep order server choice = some (after, note)) :
    ∃ choice' loop said conns, host.loop.loopStep (makeConn order) choice' = some (loop, said) ∧
      after.loop = loop.withConns conns := by
  unfold Host.loopStep at stepped
  split at stepped
  · rename_i here
    obtain ⟨next, waited, same⟩ := Option.map_eq_some_iff.mp stepped
    cases same
    unfold Host.epollWait at waited
    split at waited
    · obtain ⟨loop, reported, same⟩ := Option.map_eq_some_iff.mp waited
      cases same
      refine ⟨choice.loopChoice .connClose, loop, .quiet, loop.conns, ?_, rfl⟩
      rw [ConnLoop.loopStep, here]
      exact congrArg (Option.map (·, LoopNote.quiet)) reported
    · cases waited
  · rename_i fd flags rest here
    unfold Host.handleEvent at stepped
    split at stepped
    · rename_i gone
      cases stepped
      refine ⟨choice.loopChoice .connClose, host.loop.handleConnClose fd (.events rest), .quiet, _, ?_,
        rfl⟩
      rw [ConnLoop.loopStep, here]
      dsimp only
      rw [ConnLoop.handleEvent, if_pos gone]
    · split at stepped
      · exact handled_loop here stepped
      · split at stepped
        · exact handled_loop here stepped
        · rename_i calm silent still
          cases stepped
          refine ⟨choice.loopChoice .connClose,
            { host.loop.emplaceConn (makeConn order) fd with pc := .going (.events rest) }, .quiet, _, ?_,
            rfl⟩
          rw [ConnLoop.loopStep, here]
          dsimp only
          rw [ConnLoop.handleEvent, if_neg calm]
          dsimp only
          rw [if_neg silent, if_neg still]
          rfl
  · rename_i fd rest here
    cases stepped
    refine ⟨choice.loopChoice .connClose, host.loop.handleConnClose fd (.expired rest), .quiet, _, ?_,
      rfl⟩
    rw [ConnLoop.loopStep, here]
  · rename_i fd socks cmds rest here
    cases stepped
    refine ⟨choice.loopChoice .connClose,
      { host.loop.addTimer fd choice.now with
        epoll := host.loop.epollAdd fd, pc := .adding socks cmds rest }, .registered fd, _, ?_, rfl⟩
    rw [ConnLoop.loopStep, here]
    rfl
  · obtain ⟨⟨loop, said⟩, went, same⟩ := Option.map_eq_some_iff.mp stepped
    cases same
    exact ⟨_, _, _, _, went, rfl⟩

end Host

structure Serving (pq : PriorityQueue TimerNode TimerNode.expire) where
  fds : UnorderedMap Int Nat
  owners : List Nat
  poolIdx : Nat
  acceptor : AcceptorPc
  hosts : List (Host pq)

inductive ServingTurn where
  | acceptor (fd : Int)
  | loop (index : Nat) (choice : HostChoice)

/-- What a loop says, or what is done to it, has its index. -/
inductive ServingNote where
  | accepted (fd : Int)
  | loop (index : Nat) (note : HostNote)

namespace Serving

variable (order : HashOrder Bytes Bytes) (server : Server)
  {pq : PriorityQueue TimerNode TimerNode.expire}

def start (pq : PriorityQueue TimerNode TimerNode.expire) (nthread : Nat) : Serving pq where
  fds := ∅
  owners := []
  poolIdx := 0
  acceptor := .accepting
  hosts := List.replicate nthread (.fresh pq)

variable (serving : Serving pq)

/-- `accept` returns any number that is free, and the connection gets the next number. -/
def accept (fd : Int) : Option (Serving pq × ServingNote) :=
  if fd ∈ serving.fds then none
  else
    some ({ serving with
      fds := serving.fds.insert fd serving.owners.length, acceptor := .accepted fd }, .accepted fd)

/-- The block of `add_clisock_to_queue`. -/
def push (cliSock : Int) : Option (Serving pq × ServingNote) := do
  let host ← serving.hosts[serving.poolIdx]?
  return ({ serving with
    hosts := serving.hosts.set serving.poolIdx ⟨host.loop.addClisockToQueue cliSock, host.armed⟩,
    owners := serving.owners ++ [serving.poolIdx], acceptor := .pushed },
    .loop serving.poolIdx .quiet)

def write : Option (Serving pq × ServingNote) := do
  let host ← serving.hosts[serving.poolIdx]?
  let loop ← host.loop.cmdSendAddFd
  return ({ serving with
    hosts := serving.hosts.set serving.poolIdx ⟨loop, host.armed⟩,
    poolIdx := (serving.poolIdx + 1) % serving.hosts.length, acceptor := .accepting },
    .loop serving.poolIdx .quiet)

def acceptorStep (fd : Int) : Option (Serving pq × ServingNote) :=
  match serving.acceptor with
  | .accepting => serving.accept fd
  | .accepted cliSock => serving.push cliSock
  | .pushed => serving.write

/-- The descriptors after a step of a loop.  Its `close` frees the number. -/
def fdsAfter (host : Host pq) : UnorderedMap Int Nat :=
  match host.loop.pc.closes? with
  | some fd => serving.fds.erase fd
  | none => serving.fds

def loopStep (index : Nat) (choice : HostChoice) : Option (Serving pq × ServingNote) := do
  let host ← serving.hosts[index]?
  let (after, note) ← host.loopStep order server choice
  return ({ serving with fds := serving.fdsAfter host, hosts := serving.hosts.set index after },
    .loop index note)

def next : ServingTurn → Option (Serving pq × ServingNote)
  | .acceptor fd => serving.acceptorStep fd
  | .loop index choice => serving.loopStep order server index choice

/-- Any order of steps, any events, and any reuse of numbers that are free. -/
def system (pq : PriorityQueue TimerNode TimerNode.expire) (nthread : Nat) :
    System (Serving pq) ServingNote :=
  .ofNext (fun serving => serving = start pq nthread) (next order server)

inductive ServingStep (order : HashOrder Bytes Bytes) (server : Server) (serving : Serving pq) :
    Serving pq → ServingNote → Prop where
  | accept {fd} (here : serving.acceptor = .accepting) (new : fd ∉ serving.fds) :
      ServingStep order server serving
        { serving with
          fds := serving.fds.insert fd serving.owners.length, acceptor := .accepted fd }
        (.accepted fd)
  | push {cliSock host} (here : serving.acceptor = .accepted cliSock)
      (found : serving.hosts[serving.poolIdx]? = some host) :
      ServingStep order server serving
        { serving with
          hosts :=
            serving.hosts.set serving.poolIdx ⟨host.loop.addClisockToQueue cliSock, host.armed⟩,
          owners := serving.owners ++ [serving.poolIdx], acceptor := .pushed }
        (.loop serving.poolIdx .quiet)
  | write {host loop} (here : serving.acceptor = .pushed)
      (found : serving.hosts[serving.poolIdx]? = some host)
      (wrote : host.loop.cmdSendAddFd = some loop) :
      ServingStep order server serving
        { serving with
          hosts := serving.hosts.set serving.poolIdx ⟨loop, host.armed⟩,
          poolIdx := (serving.poolIdx + 1) % serving.hosts.length, acceptor := .accepting }
        (.loop serving.poolIdx .quiet)
  | loop {index host choice after note} (found : serving.hosts[index]? = some host)
      (stepped : host.loopStep order server choice = some (after, note)) :
      ServingStep order server serving
        { serving with fds := serving.fdsAfter host, hosts := serving.hosts.set index after }
        (.loop index note)

variable {serving after : Serving pq} {process : Process pq} {index : Nat} {host : Host pq}
  {order server} {note : ServingNote} {fd : Int}

theorem next_step {turn : ServingTurn} (stepped : serving.next order server turn = some (after, note)) :
    ServingStep order server serving after note := by
  cases turn with
  | acceptor fd =>
      rw [next, acceptorStep] at stepped
      split at stepped
      · rename_i here
        unfold Serving.accept at stepped
        split at stepped
        · cases stepped
        · rename_i new
          cases stepped
          exact .accept here new
      · rename_i cliSock here
        obtain ⟨host, found, same⟩ := Option.bind_eq_some_iff.mp stepped
        cases same
        exact .push here found
      · rename_i here
        obtain ⟨host, found, rest⟩ := Option.bind_eq_some_iff.mp stepped
        obtain ⟨loop, wrote, same⟩ := Option.bind_eq_some_iff.mp rest
        cases same
        exact .write here found wrote
  | loop index choice =>
      obtain ⟨host, found, rest⟩ := Option.bind_eq_some_iff.mp stepped
      obtain ⟨⟨after, note⟩, went, same⟩ := Option.bind_eq_some_iff.mp rest
      cases same
      exact .loop found went

theorem found_set {hosts : List (Host pq)} {moved found : Host pq} {other : Nat}
    (lookup : (hosts.set index moved)[other]? = some found) :
    other = index ∧ found = moved ∨ other ≠ index ∧ hosts[other]? = some found := by
  rw [List.getElem?_set] at lookup
  split at lookup
  · rename_i same
    split at lookup
    · exact .inl ⟨same.symm, (Option.some.inj lookup).symm⟩
    · cases lookup
  · rename_i differs
    exact .inr ⟨Ne.symm differs, lookup⟩

/-- `process` is what is left when the connections are. -/
structure Refines (serving : Serving pq) (process : Process pq) : Prop where
  fds : process.fds = serving.fds
  owners : process.owners = serving.owners
  poolIdx : process.poolIdx = serving.poolIdx
  acceptor : process.acceptor = serving.acceptor
  loops : process.connLoops.length = serving.hosts.length
  alike : ∀ (index : Nat) (host), serving.hosts[index]? = some host →
    ∃ conns, process.connLoops[index]? = some (host.loop.withConns conns)

theorem start_refines (nthread : Nat) : (start pq nthread).Refines (.start pq nthread) where
  fds := rfl
  owners := rfl
  poolIdx := rfl
  acceptor := rfl
  loops := by simp [start, Process.start]
  alike index host found := by
    obtain ⟨inside, rfl⟩ := List.getElem?_eq_some_iff.mp found
    rw [start, List.length_replicate] at inside
    refine ⟨∅, ?_⟩
    rw [Process.start, List.getElem?_replicate_of_lt inside]
    simp only [start, List.getElem_replicate]
    rfl

/-- The loop at `index` moves on both sides. -/
theorem Refines.alike_set (refines : serving.Refines process) {moved : Host pq}
    {loop : ConnLoop (Option Nat) pq} {conns : UnorderedMap Int (Option Nat)}
    (inside : serving.hosts[index]? = some host) (same : loop = moved.loop.withConns conns)
    (other : Nat) (found : Host pq) (lookup : (serving.hosts.set index moved)[other]? = some found) :
    ∃ conns, (process.connLoops.set index loop)[other]? = some (found.loop.withConns conns) := by
  rcases found_set lookup with ⟨rfl, rfl⟩ | ⟨differs, here⟩
  · refine ⟨conns, ?_⟩
    rw [List.getElem?_set_self, same]
    rw [refines.loops]
    exact (List.getElem?_eq_some_iff.mp inside).1
  · obtain ⟨conns', here'⟩ := refines.alike other found here
    exact ⟨conns', by rw [List.getElem?_set_ne (Ne.symm differs), here']⟩

theorem Refines.step (refines : serving.Refines process)
    (step : ServingStep order server serving after note) :
    ∃ turn image said, process.next turn = some (image, said) ∧ after.Refines image := by
  have index := refines.poolIdx
  cases step with
  | @accept fd here new =>
      have new' : fd ∉ process.fds := by rwa [refines.fds]
      refine ⟨.acceptor fd,
        { process with
          fds := process.fds.insert fd process.owners.length, acceptor := .accepted fd },
        .accepted process.owners.length, ?_, ?_, refines.owners, index, rfl, refines.loops,
        refines.alike⟩
      · rw [Process.next, Process.acceptorStep, refines.acceptor, here]
        exact if_neg new'
      · dsimp only
        rw [refines.fds, refines.owners]
  | @push cliSock host here found =>
      obtain ⟨conns, found'⟩ := refines.alike _ host found
      rw [← index] at found'
      refine ⟨.acceptor cliSock,
        { process with
          connLoops := process.connLoops.set process.poolIdx
            ((host.loop.withConns conns).addClisockToQueue cliSock),
          owners := process.owners ++ [process.poolIdx], acceptor := .pushed },
        .quiet, ?_, refines.fds, ?_, index, rfl, ?_, ?_⟩
      · rw [Process.next, Process.acceptorStep, refines.acceptor, here]
        exact Option.bind_eq_some_iff.mpr ⟨_, found', rfl⟩
      · dsimp only
        rw [refines.owners, index]
      · dsimp only
        rw [List.length_set, List.length_set, refines.loops]
      · dsimp only
        rw [index]
        exact refines.alike_set found rfl
  | @write host loop here found wrote =>
      obtain ⟨conns, found'⟩ := refines.alike _ host found
      rw [← index] at found'
      have wrote' : (host.loop.withConns conns).cmdSendAddFd = some (loop.withConns conns) := by
        unfold ConnLoop.cmdSendAddFd at wrote ⊢
        split at wrote
        · cases wrote
        · rename_i owes
          cases wrote
          exact if_neg owes
      refine ⟨.acceptor 0,
        { process with
          connLoops := process.connLoops.set process.poolIdx (loop.withConns conns),
          poolIdx := (process.poolIdx + 1) % process.connLoops.length, acceptor := .accepting },
        .quiet, ?_, refines.fds, refines.owners, ?_, rfl, ?_, ?_⟩
      · rw [Process.next, Process.acceptorStep, refines.acceptor, here]
        exact Option.bind_eq_some_iff.mpr ⟨_, found', Option.bind_eq_some_iff.mpr ⟨_, wrote', rfl⟩⟩
      · dsimp only
        rw [refines.loops, index]
      · dsimp only
        rw [List.length_set, List.length_set, refines.loops]
      · dsimp only
        rw [index]
        exact refines.alike_set found rfl
  | @loop index host choice moved said found stepped =>
      obtain ⟨choice', loop, shown, conns, went, same⟩ := Host.loopStep_loop stepped
      obtain ⟨before, found'⟩ := refines.alike index host found
      obtain ⟨conns', shown', went'⟩ :=
        ConnLoop.loopStep_withConns went before process.fds.lookup
      have closed := (ConnLoop.loopStep_step went').closed?
      have here : (host.loop.withConns before).pc = host.loop.pc := rfl
      rw [here] at closed
      have same' : loop.withConns conns' = moved.loop.withConns conns' := by rw [same]; rfl
      -- Only a close changes the descriptors.
      have ran : ∃ said, process.next (.loop index choice') = some ({ process with
          fds := serving.fdsAfter host,
          connLoops := process.connLoops.set index (loop.withConns conns') }, said) := by
        simp only [Process.next, Process.loopStep, found', went', Option.bind_eq_bind,
          Option.bind_some, fdsAfter, ← closed, ← refines.fds]
        cases shown' <;> exact ⟨_, rfl⟩
      obtain ⟨said, ran⟩ := ran
      refine ⟨_, _, said, ran, ⟨rfl, refines.owners, refines.poolIdx, refines.acceptor, ?_, ?_⟩⟩
      · dsimp only
        rw [List.length_set, List.length_set, refines.loops]
      · exact refines.alike_set found same'

end Serving

end LiteWebServer
