import LiteWebServer.ConnLoop.Clients
import LiteWebServer.Process.Serving

namespace LiteWebServer

open Data

/-! What a client of the whole server gets, from `accept` on. -/

namespace Host

variable {pq : PriorityQueue TimerNode TimerNode.expire} {order : HashOrder Bytes Bytes}
  {server : Server} {host after : Host pq} {note : HostNote} {fd : Int}

/-- The sockets that were given to the loop and are not registered yet. -/
def queued (host : Host pq) : List Int := host.loop.newCliSocks ++ host.loop.pc.swapLeft

/-- The sockets that are registered, and the one that is about to be closed. -/
def placed (host : Host pq) : List Int := host.loop.epoll ++ host.loop.pc.closingLeft

theorem held_queued (member : fd ∈ host.queued) : fd ∈ host.loop.held := by
  unfold ConnLoop.held
  rw [← List.append_assoc]
  exact List.mem_append_left _ member

theorem held_placed (member : fd ∈ host.placed) : fd ∈ host.loop.held :=
  List.mem_append_right _ (List.mem_append_right _ member)

theorem queued_apart (tidy : host.loop.Tidy) (member : fd ∈ host.queued) : fd ∉ host.placed := by
  have once := tidy.held
  unfold ConnLoop.held at once
  rw [← List.append_assoc] at once
  exact fun placed => (List.disjoint_of_nodup_append once) member placed

/-- How the sockets of a loop move in a step. -/
structure Places (host after : Host pq) (note : HostNote) : Prop where
  queued : ∀ fd ∈ host.queued, note = .registered fd ∨ fd ∈ after.queued
  placed : ∀ fd ∈ host.placed, fd ∈ after.placed ∨ host.loop.pc.closes? = some fd
  registered : ∀ fd, note = .registered fd → fd ∈ host.queued ∧ fd ∈ after.placed
  told : ∀ fd event sent, note = .told fd event sent → fd ∈ host.placed

theorem Places.quiet (queued : ∀ fd ∈ host.queued, fd ∈ after.queued)
    (placed : ∀ fd ∈ host.placed, fd ∈ after.placed ∨ host.loop.pc.closes? = some fd) :
    Places host after .quiet where
  queued fd member := .inr (queued fd member)
  placed := placed
  registered _ said := by cases said
  told _ _ _ said := by cases said

theorem Places.tells {event : LinkEvent} {sent : Bytes} (mine : fd ∈ host.placed)
    (queued : ∀ other ∈ host.queued, other ∈ after.queued)
    (placed : ∀ other ∈ host.placed, other ∈ after.placed) :
    Places host after (.told fd event sent) where
  queued other member := .inr (queued other member)
  placed other member := .inl (placed other member)
  registered _ said := by cases said
  told _ _ _ said := by
    cases said
    exact mine

theorem inward_places {choice : LoopChoice} {loop : ConnLoop UserConn pq} {said : LoopNote UserConn}
    (here : Inward host.loop.pc)
    (step : ConnLoop.LoopStep (makeConn order) host.loop choice loop said) :
    Places host ⟨loop, host.armed⟩ .quiet := by
  cases step with
  | wait at_ | hangup at_ | serve at_ | drop at_ | ignore at_ | dropExpired at_ | register at_ =>
      rw [at_] at here
      cases here
  | command at_ | expire at_ | again at_ | drained at_ | read at_ | handled at_ | stop at_ | swap at_
  | skip at_ | registered at_ =>
      refine .quiet (fun fd member => ?_) fun fd member => .inl ?_
      · simpa [Host.queued, at_, LoopPc.swapLeft] using member
      · simpa [Host.placed, at_, LoopPc.closingLeft] using member
  | @close fd todo at_ =>
      refine .quiet (fun other member => ?_) fun other member => ?_
      · simpa [Host.queued, at_, LoopPc.swapLeft] using member
      · rw [Host.placed, at_] at member
        rcases List.mem_append.mp member with registered | this
        · exact .inl (List.mem_append_left _ registered)
        · rw [List.mem_singleton.mp this, at_]
          exact .inr rfl

theorem handleConnClose_placed {todo : Todo} {before : Todo} (here : host.loop.pc = .going before)
    {loop : ConnLoop UserConn pq} (epoll : loop.epoll = host.loop.epoll.erase fd)
    (pc : loop.pc = .closing fd todo) (armed : Int → Arming) :
    ∀ other ∈ host.placed, other ∈ Host.placed ⟨loop, armed⟩ := by
  intro other member
  rw [Host.placed, here] at member
  have registered : other ∈ host.loop.epoll := by simpa [LoopPc.closingLeft] using member
  rw [Host.placed, pc, epoll]
  by_cases same : other = fd
  · rw [same]
    exact List.mem_append_right _ List.mem_cons_self
  · exact List.mem_append_left _ ((List.mem_erase_of_ne same).mpr registered)

theorem places (tidy : host.loop.Tidy) (step : HostStep order server host after note) :
    Places host after note := by
  have pending {flags : ReadyFlags} {rest : List ReadyEvent} {fd : Int}
      (here : host.loop.pc = .going (.events (.sock fd flags :: rest))) : fd ∈ host.placed := by
    refine List.mem_append_left _ (tidy.live fd (mem_socksLeft.mpr ⟨flags, ?_⟩))
    rw [here]
    exact List.mem_cons_self
  cases step with
  | push new =>
      refine .quiet (fun fd member => ?_) fun fd member => .inl member
      rcases List.mem_append.mp member with queued | swapped
      · exact List.mem_append_left _ (List.mem_append_left _ queued)
      · exact List.mem_append_right _ swapped
  | write sent =>
      cases ConnLoop.cmdSendAddFd_step sent with
      | _ => exact .quiet (fun fd member => member) fun fd member => .inl member
  | send => exact .quiet (fun fd member => member) fun fd member => .inl member
  | wait here =>
      refine .quiet (fun fd member => ?_) fun fd member => .inl ?_
      · simpa [Host.queued, here, LoopPc.swapLeft] using member
      · simpa [Host.placed, here, LoopPc.closingLeft] using member
  | inward here stepped => exact inward_places here (ConnLoop.loopStep_step stepped)
  | ignore here =>
      refine .quiet (fun fd member => ?_) fun fd member => .inl ?_
      · simpa [Host.queued, here, LoopPc.swapLeft, ConnLoop.emplaceConn] using member
      · simpa [Host.placed, here, LoopPc.closingLeft, ConnLoop.emplaceConn] using member
  | serve here =>
      refine .tells (pending here) (fun other member => ?_) fun other member => ?_
      · simpa [Host.queued, here, LoopPc.swapLeft, keep, ConnLoop.addTimer, ConnLoop.emplaceConn]
          using member
      · simpa [Host.placed, here, LoopPc.closingLeft, keep, ConnLoop.addTimer, ConnLoop.emplaceConn]
          using member
  | drop here =>
      refine .tells (pending here) (fun other member => ?_) (handleConnClose_placed here rfl rfl _)
      simpa [Host.queued, here, LoopPc.swapLeft, keep, ConnLoop.addTimer, ConnLoop.emplaceConn,
        ConnLoop.handleConnClose] using member
  | @close fd before todo here head =>
      refine .tells ?_ (fun other member => ?_) (handleConnClose_placed here rfl rfl _)
      · rcases head with ⟨flags, rest, rfl, -⟩ | ⟨rest, rfl, -⟩
        · exact pending here
        · refine List.mem_append_left _ ((tidy.timed fd).mpr (.inr ?_))
          rw [here]
          exact List.mem_cons_self
      · simpa [Host.queued, here, LoopPc.swapLeft, ConnLoop.handleConnClose] using member
  | @register fd socks cmds rest now here =>
      refine ⟨fun other member => ?_, fun other member => .inl ?_, fun other said => ?_,
        fun _ _ _ said => by cases said⟩
      · rw [Host.queued, here] at member
        rcases List.mem_append.mp member with queued | swapped
        · exact .inr (List.mem_append_left _ queued)
        · rcases List.mem_cons.mp swapped with rfl | left
          · exact .inl rfl
          · exact .inr (List.mem_append_right _ left)
      · rw [Host.placed, here] at member
        have registered : other ∈ host.loop.epoll := by simpa [LoopPc.closingLeft] using member
        refine List.mem_append_left _ ?_
        change other ∈ host.loop.epollAdd fd
        unfold ConnLoop.epollAdd
        split
        · exact registered
        · exact List.mem_append_left _ registered
      · cases said
        refine ⟨?_, List.mem_append_left _ ?_⟩
        · rw [Host.queued, here]
          exact List.mem_append_right _ List.mem_cons_self
        · change fd ∈ host.loop.epollAdd fd
          unfold ConnLoop.epollAdd
          split
          · assumption
          · exact List.mem_append_right _ List.mem_cons_self

end Host

namespace ServingNote

def of? (index : Nat) : ServingNote → Option HostNote
  | .loop other note => if other = index then some note else none
  | .accepted _ => none

/-- A client is there from `accept` on, and is told what any loop tells its socket. -/
def mark (fd : Int) : ServingNote → Mark LinkEvent Bytes
  | .accepted other => if other = fd then .opened else .quiet
  | .loop _ (.told other event sent) => if other = fd then .told event sent else .quiet
  | .loop _ _ => .quiet

theorem of?_self (index : Nat) (note : HostNote) : (loop index note).of? index = some note := if_pos rfl

theorem of?_other {index other : Nat} (differs : other ≠ index) (note : HostNote) :
    (loop index note).of? other = none := if_neg (Ne.symm differs)

/-- But for the registration, which is no news to the client, a loop tells it what it was told. -/
theorem mark_loop (fd : Int) (index : Nat) (note : HostNote) :
    (note.mark fd = .opened ∧ note = .registered fd ∧ (loop index note).mark fd = .quiet) ∨
      (note.mark fd = .quiet ∧ note ≠ .registered fd ∧ (loop index note).mark fd = .quiet) ∨
      ∃ event sent, note.mark fd = .told event sent ∧ note = .told fd event sent ∧
        (loop index note).mark fd = .told event sent := by
  cases note with
  | quiet => exact .inr (.inl ⟨rfl, (fun this => by cases this), rfl⟩)
  | registered other =>
      by_cases same : other = fd
      · subst same
        exact .inl ⟨if_pos rfl, rfl, rfl⟩
      · exact .inr (.inl ⟨if_neg same, fun this => same (HostNote.registered.inj this), rfl⟩)
  | told other event sent =>
      by_cases same : other = fd
      · subst same
        exact .inr (.inr ⟨event, sent, if_pos rfl, rfl, if_pos rfl⟩)
      · exact .inr (.inl ⟨if_neg same, (fun this => by cases this), if_neg same⟩)

end ServingNote

namespace Serving

variable {order : HashOrder Bytes Bytes} {server : Server}
  {pq : PriorityQueue TimerNode TimerNode.expire} {serving after : Serving pq} {fd : Int}
  {notes : List ServingNote} {note : ServingNote} {index : Nat} {host : Host pq}

/-- Who has a socket. -/
structure Held (serving : Serving pq) : Prop where
  once : ∀ (index other : Nat) (host host' : Host pq), serving.hosts[index]? = some host →
    serving.hosts[other]? = some host' → ∀ fd ∈ host.loop.held, fd ∈ host'.loop.held → other = index
  fresh : ∀ fd, serving.acceptor = .accepted fd → ∀ (index : Nat) (host : Host pq),
    serving.hosts[index]? = some host → fd ∉ host.loop.held
  opened : ∀ (index : Nat) (host : Host pq), serving.hosts[index]? = some host →
    ∀ fd ∈ host.loop.held, fd ∈ serving.fds

theorem Refines.held {process : Process pq} (refines : serving.Refines process)
    (owned : process.Owned) : serving.Held where
  once index other host host' found found' fd member member' := by
    obtain ⟨conns, lookup⟩ := refines.alike index host found
    obtain ⟨conns', lookup'⟩ := refines.alike other host' found'
    exact owned.held_once lookup lookup' member member'
  fresh fd here index host found := by
    obtain ⟨conns, lookup⟩ := refines.alike index host found
    exact owned.not_held (refines.acceptor.trans here) lookup
  opened index host found fd member := by
    obtain ⟨conns, lookup⟩ := refines.alike index host found
    obtain ⟨conn, known, -⟩ := owned.owns index _ lookup fd member
    rw [← refines.fds]
    exact AList.lookup_isSome.mp (by rw [known]; rfl)

/-- A run of the whole is one of each loop, in which the acceptor is one of its callers. -/
structure Parts (order : HashOrder Bytes Bytes) (server : Server) (notes : List ServingNote)
    (serving : Serving pq) : Prop where
  process : ∃ process, serving.Refines process ∧ process.Owned
  runs : ∀ (index : Nat) (host : Host pq), serving.hosts[index]? = some host →
    (Host.system order server pq).Runs (notes.filterMap (ServingNote.of? index)) host

theorem Parts.held (parts : Parts order server notes serving) : serving.Held := by
  obtain ⟨process, refines, owned⟩ := parts.process
  exact refines.held owned

theorem Parts.runs_set (parts : Parts order server notes serving)
    (found : serving.hosts[index]? = some host) (turn : HostTurn) {moved : Host pq} {said : HostNote}
    (stepped : host.next order server turn = some (moved, said)) (other : Nat) (host' : Host pq)
    (lookup : (serving.hosts.set index moved)[other]? = some host') :
    (Host.system order server pq).Runs
      ((notes ++ [ServingNote.loop index said]).filterMap (ServingNote.of? other)) host' := by
  rw [List.filterMap_append]
  rcases found_set lookup with ⟨rfl, rfl⟩ | ⟨differs, here⟩
  · simp only [List.filterMap_cons, ServingNote.of?_self, List.filterMap_nil]
    exact .step (parts.runs other host found) ⟨turn, stepped⟩
  · simp only [List.filterMap_cons, ServingNote.of?_other differs, List.filterMap_nil, List.append_nil]
    exact parts.runs other host' here

theorem Parts.step (parts : Parts order server notes serving)
    (step : ServingStep order server serving after note) :
    Parts order server (notes ++ [note]) after := by
  have held := parts.held
  obtain ⟨process, refines, owned⟩ := parts.process
  obtain ⟨turn, image, said, stepped, refines'⟩ := refines.step step
  refine ⟨⟨image, refines', (owned.next stepped).1⟩, ?_⟩
  cases step with
  | @accept fd here new =>
      intro index host found
      have silent : [ServingNote.accepted fd].filterMap (ServingNote.of? index) = [] := rfl
      rw [List.filterMap_append, silent, List.append_nil]
      exact parts.runs index host found
  | @push cliSock host here found =>
      have new : cliSock ∉ host.loop.held := held.fresh cliSock here _ host found
      exact parts.runs_set found (.addClisockToQueue cliSock) (if_neg new)
  | @write host loop here found wrote =>
      refine parts.runs_set found .cmdSendAddFd ?_
      rw [Host.next, wrote]
      rfl
  | @loop index host choice moved said found stepped =>
      exact parts.runs_set found (.loop choice) stepped

theorem run_parts {nthread : Nat} (run : (system order server pq nthread).Runs notes serving) :
    Parts order server notes serving := by
  refine @System.Runs.invariant _ _ _ (fun notes serving => Parts order server notes serving) ?_ ?_ _ _
    run
  · intro serving same
    subst same
    refine ⟨⟨_, start_refines nthread, Process.start_owned nthread⟩, fun index host found => ?_⟩
    obtain ⟨inside, rfl⟩ := List.getElem?_eq_some_iff.mp found
    simp only [start, List.getElem_replicate]
    exact .start rfl
  · intro notes before note after parts stepped
    obtain ⟨turn, stepped⟩ := stepped
    exact parts.step (next_step stepped)

/-- Where the socket of a client is that was told `trace` since it was accepted. -/
inductive Whereabouts (notes : List ServingNote) (serving : Serving pq) (fd : Int)
    (trace : List (LinkEvent × Bytes)) : Prop where
  | waiting (untold : trace = [])
      (place : serving.acceptor = .accepted fd ∨
        ∃ (index : Nat) (host : _), serving.hosts[index]? = some host ∧ fd ∈ host.queued)
  | placed {index : Nat} {host : Host pq} (found : serving.hosts[index]? = some host)
      (told : session (HostNote.mark fd) (notes.filterMap (ServingNote.of? index)) = some trace)
      (place : fd ∈ host.placed)
  | gone {index : Nat} {host : Host pq} (found : serving.hosts[index]? = some host)
      (told : session (HostNote.mark fd) (notes.filterMap (ServingNote.of? index)) = some trace)
      (closed : fd ∉ serving.fds)

variable {trace : List (LinkEvent × Bytes)}

/-- A note of the loop at `index` is one of its run. -/
theorem filterMap_loop (notes : List ServingNote) (index : Nat) (said : HostNote) :
    (notes ++ [ServingNote.loop index said]).filterMap (ServingNote.of? index) =
      notes.filterMap (ServingNote.of? index) ++ [said] := by
  rw [List.filterMap_append]
  simp only [List.filterMap_cons, ServingNote.of?_self, List.filterMap_nil]

theorem filterMap_other (notes : List ServingNote) {index other : Nat} (differs : other ≠ index)
    (said : HostNote) :
    (notes ++ [ServingNote.loop index said]).filterMap (ServingNote.of? other) =
      notes.filterMap (ServingNote.of? other) := by
  rw [List.filterMap_append]
  simp only [List.filterMap_cons, ServingNote.of?_other differs, List.filterMap_nil, List.append_nil]

theorem fdsAfter_subset {other : Int} (member : other ∈ serving.fdsAfter host) : other ∈ serving.fds := by
  unfold fdsAfter at member
  split at member
  · exact (AList.mem_erase.mp member).2
  · exact member

theorem not_mem_fdsAfter (closes : host.loop.pc.closes? = some fd) : fd ∉ serving.fdsAfter host := by
  rw [fdsAfter, closes]
  exact fun member => (AList.mem_erase.mp member).1 rfl

theorem told_after {said : HostNote} (silent : said.mark fd = .quiet) {other : Nat}
    (told : session (HostNote.mark fd) (notes.filterMap (ServingNote.of? other)) = some trace) :
    session (HostNote.mark fd)
      ((notes ++ [ServingNote.loop index said]).filterMap (ServingNote.of? other)) = some trace := by
  by_cases differs : other = index
  · subst differs
    rw [filterMap_loop, session_quiet silent, told]
  · rw [filterMap_other notes differs, told]

/-- A step at a loop that does not mention the socket. -/
theorem Whereabouts.quiet (abouts : Whereabouts notes serving fd trace)
    (found : serving.hosts[index]? = some host) {moved : Host pq} {said : HostNote}
    (hosts : after.hosts = serving.hosts.set index moved)
    (fds : ∀ other ∈ after.fds, other ∈ serving.fds) (silent : said.mark fd = .quiet)
    (acceptor : serving.acceptor = .accepted fd → after.acceptor = .accepted fd ∨ fd ∈ moved.queued)
    (queued : fd ∈ host.queued → fd ∈ moved.queued)
    (placed : fd ∈ host.placed → fd ∈ moved.placed ∨ fd ∉ after.fds) :
    Whereabouts (notes ++ [.loop index said]) after fd trace := by
  have self : after.hosts[index]? = some moved := by
    rw [hosts]
    exact List.getElem?_set_self (List.getElem?_eq_some_iff.mp found).1
  have elsewhere {other : Nat} {host' : Host pq} (differs : other ≠ index)
      (found' : serving.hosts[other]? = some host') : after.hosts[other]? = some host' := by
    rw [hosts, List.getElem?_set_ne (Ne.symm differs), found']
  cases abouts with
  | waiting untold place =>
      refine .waiting untold ?_
      rcases place with here | ⟨other, host', found', member⟩
      · exact (acceptor here).imp_right fun given => ⟨index, moved, self, given⟩
      · by_cases differs : other = index
        · subst differs
          obtain rfl := Option.some.inj (found.symm.trans found')
          exact .inr ⟨other, moved, self, queued member⟩
        · exact .inr ⟨other, host', elsewhere differs found', member⟩
  | @placed other host' found' told place =>
      by_cases differs : other = index
      · subst differs
        obtain rfl := Option.some.inj (found.symm.trans found')
        rcases placed place with still | closed
        · exact .placed self (told_after silent told) still
        · exact .gone self (told_after silent told) closed
      · exact .placed (elsewhere differs found') (told_after silent told) place
  | @gone other host' found' told closed =>
      have still : fd ∉ after.fds := fun member => closed (fds fd member)
      by_cases differs : other = index
      · subst differs
        exact .gone self (told_after silent told) still
      · exact .gone (elsewhere differs found') (told_after silent told) still

/-- A loop that is told about a socket, or registers it, is the one that has it. -/
theorem Whereabouts.of_held (abouts : Whereabouts notes serving fd trace) (held : serving.Held)
    (tidy : host.loop.Tidy) (found : serving.hosts[index]? = some host) (member : fd ∈ host.loop.held) :
    trace = [] ∧ fd ∉ host.placed ∨ fd ∉ host.queued ∧
      session (HostNote.mark fd) (notes.filterMap (ServingNote.of? index)) = some trace := by
  cases abouts with
  | waiting untold place =>
      refine .inl ⟨untold, fun placed => ?_⟩
      rcases place with here | ⟨other, host', found', queued⟩
      · exact held.fresh fd here index host found member
      · obtain rfl := held.once index other host host' found found' fd member (Host.held_queued queued)
        obtain rfl := Option.some.inj (found.symm.trans found')
        exact Host.queued_apart tidy queued placed
  | @placed other host' found' told place =>
      obtain rfl := held.once index other host host' found found' fd member (Host.held_placed place)
      obtain rfl := Option.some.inj (found.symm.trans found')
      exact .inr ⟨fun queued => Host.queued_apart tidy queued place, told⟩
  | gone found' told closed => exact absurd (held.opened index host found fd member) closed

theorem Parts.follows (parts : Parts order server notes serving)
    (step : ServingStep order server serving after note)
    (abouts : ∀ trace, session (ServingNote.mark fd) notes = some trace →
      Whereabouts notes serving fd trace)
    (told : session (ServingNote.mark fd) (notes ++ [note]) = some trace) :
    Whereabouts (notes ++ [note]) after fd trace := by
  have held := parts.held
  cases step with
  | @accept other here new =>
      have silent (index : Nat) : (notes ++ [ServingNote.accepted other]).filterMap
          (ServingNote.of? index) = notes.filterMap (ServingNote.of? index) := by
        rw [List.filterMap_append]
        exact List.append_nil _
      by_cases same : other = fd
      · subst same
        have opened : (ServingNote.accepted other).mark other = .opened := if_pos rfl
        rw [session_opened opened, Option.some.injEq] at told
        exact .waiting told.symm (.inl rfl)
      · have unmarked : (ServingNote.accepted other).mark fd = .quiet := if_neg same
        rw [session_quiet unmarked] at told
        cases abouts trace told with
        | waiting untold place =>
            refine .waiting untold (place.imp_left fun this => ?_)
            rw [here] at this
            cases this
        | placed found told' place => exact .placed found (by rw [silent, told']) place
        | gone found told' closed =>
            refine .gone found (by rw [silent, told']) fun member => ?_
            rcases AList.mem_insert _ |>.mp member with this | before
            · exact same this.symm
            · exact closed before
  | @push cliSock host here found =>
      rw [session_quiet rfl] at told
      refine (abouts trace told).quiet found rfl (fun _ member => member) rfl (fun this => ?_)
        (fun member => ?_) .inl
      · rw [here, AcceptorPc.accepted.injEq] at this
        subst this
        exact .inr (List.mem_append_left _ (List.mem_append_right _ List.mem_cons_self))
      · rcases List.mem_append.mp member with queued | swapped
        · exact List.mem_append_left _ (List.mem_append_left _ queued)
        · exact List.mem_append_right _ swapped
  | @write host loop here found wrote =>
      rw [session_quiet rfl] at told
      have kept : loop.newCliSocks = host.loop.newCliSocks ∧ loop.pc = host.loop.pc ∧
          loop.epoll = host.loop.epoll := by
        cases ConnLoop.cmdSendAddFd_step wrote with
        | _ => exact ⟨rfl, rfl, rfl⟩
      refine (abouts trace told).quiet found rfl (fun _ member => member) rfl (fun this => ?_)
        (fun member => ?_) fun member => .inl ?_
      · rw [here] at this
        cases this
      · rwa [Host.queued, kept.1, kept.2.1]
      · rwa [Host.placed, kept.2.1, kept.2.2]
  | @loop index host choice moved said found stepped =>
      have tidy := Host.tidy (parts.runs index host found)
      have places := Host.places tidy (Host.loopStep_step stepped)
      have self : (serving.hosts.set index moved)[index]? = some moved :=
        List.getElem?_set_self (List.getElem?_eq_some_iff.mp found).1
      rcases ServingNote.mark_loop fd index said with
        ⟨mark, rfl, silent⟩ | ⟨mark, unregistered, silent⟩ | ⟨event, sent, mark, rfl, tells⟩
      · rw [session_quiet silent] at told
        obtain ⟨queued, placed⟩ := places.registered fd rfl
        refine .placed self ?_ placed
        rw [filterMap_loop, session_opened mark]
        rcases (abouts trace told).of_held held tidy found (Host.held_queued queued) with
          ⟨untold, -⟩ | ⟨apart, -⟩
        · rw [untold]
        · exact absurd queued apart
      · rw [session_quiet silent] at told
        exact (abouts trace told).quiet found rfl (fun _ => fdsAfter_subset) mark .inl
          (fun member => (places.queued fd member).resolve_left unregistered)
          fun member => (places.placed fd member).imp_right not_mem_fdsAfter
      · rw [session_told tells] at told
        obtain ⟨earlier, before, rfl⟩ := Option.map_eq_some_iff.mp told
        have place := places.told fd event sent rfl
        have known : session (HostNote.mark fd)
            ((notes ++ [ServingNote.loop index (.told fd event sent)]).filterMap
              (ServingNote.of? index)) = some (earlier ++ [(event, sent)]) := by
          rw [filterMap_loop, session_told mark]
          rcases (abouts earlier before).of_held held tidy found (Host.held_placed place) with
            ⟨-, apart⟩ | ⟨-, known⟩
          · exact absurd place apart
          · rw [known]
            rfl
        rcases places.placed fd place with still | closes
        · exact .placed self known still
        · exact .gone self known (not_mem_fdsAfter closes)

theorem run_whereabouts {nthread : Nat} (run : (system order server pq nthread).Runs notes serving)
    {trace : List (LinkEvent × Bytes)} (told : session (ServingNote.mark fd) notes = some trace) :
    Whereabouts notes serving fd trace := by
  induction run generalizing trace with
  | start _ => cases told
  | step run stepped ih =>
      obtain ⟨turn, stepped⟩ := stepped
      exact (run_parts run).follows (next_step stepped) (fun _ => ih) told

/-- The client has no answer to come, as far as the loops show. -/
def Rests (order : HashOrder Bytes Bytes) (serving : Serving pq) (fd : Int) : Prop :=
  ∀ (index : Nat) (host : Host pq), serving.hosts[index]? = some host → fd ∈ host.loop.epoll →
    (host.loop.connOf (Host.makeConn order) fd).req.parseComplete = false

/-- A client was told what a connection of its own says the same to, wherever its socket is.
A loop that has it has this connection. -/
structure Alone (order : HashOrder Bytes Bytes) (server : Server) (serving : Serving pq) (fd : Int)
    (trace : List (LinkEvent × Bytes)) (link : Link) : Prop where
  follows : Follows (Link.speak order server) (.fresh order) trace link
  shown : ∀ (index : Nat) (host : Host pq), serving.hosts[index]? = some host →
    fd ∈ host.loop.epoll → Host.Shown order host fd link
  rests : serving.Rests order fd → link.arming ≠ .write

theorem Whereabouts.alone (abouts : Whereabouts notes serving fd trace)
    (parts : Parts order server notes serving) : ∃ link, serving.Alone order server fd trace link := by
  have held := parts.held
  have registered_held {host : Host pq} (member : fd ∈ host.loop.epoll) : fd ∈ host.loop.held :=
    Host.held_placed (List.mem_append_left _ member)
  cases abouts with
  | waiting untold place =>
      refine ⟨.fresh order, by rw [untold]; rfl, fun index host found member => ?_,
        fun _ this => by cases this⟩
      rcases place with here | ⟨other, host', found', queued⟩
      · exact absurd (registered_held member) (held.fresh fd here index host found)
      · obtain rfl := held.once index other host host' found found' fd (registered_held member)
          (Host.held_queued queued)
        obtain rfl := Option.some.inj (found.symm.trans found')
        have tidy := Host.tidy (parts.runs other host found)
        exact absurd (List.mem_append_left _ member) (Host.queued_apart tidy queued)
  | @placed index host found told place =>
      obtain ⟨link, follows, shown⟩ := Host.hosts.alone (fun run => Host.tidy run)
        (parts.runs index host found) told
      refine ⟨link, follows, fun other host' found' member => ?_,
        fun rests => shown.rests (Link.fresh_inPhase.follow follows) (rests index host found)⟩
      obtain rfl := held.once other index host' host found' found fd (registered_held member)
        (Host.held_placed place)
      obtain rfl := Option.some.inj (found.symm.trans found')
      exact shown
  | @gone index host found told closed =>
      obtain ⟨link, follows, shown⟩ := Host.hosts.alone (fun run => Host.tidy run)
        (parts.runs index host found) told
      exact ⟨link, follows, fun other host' found' member =>
        absurd (held.opened other host' found' fd (registered_held member)) closed,
        fun rests => shown.rests (Link.fresh_inPhase.follow follows) (rests index host found)⟩

/-- In every run of the whole server, with any number of loops and any reuse of numbers: what
a client was sent since it was accepted is what a connection of its own would have sent. -/
theorem accepted_alone {nthread : Nat} (run : (system order server pq nthread).Runs notes serving)
    (told : session (ServingNote.mark fd) notes = some trace) :
    ∃ link, serving.Alone order server fd trace link :=
  (run_whereabouts run told).alone (run_parts run)

/-- A client that asks these requests gets the answers to them, each once and in their order,
whichever loop it was given to and whoever else is served. -/
theorem accepted_answered {nthread : Nat} (registers : server.Registers (UserConn.BuildsPlainly order))
    (run : (system order server pq nthread).Runs notes serving)
    (told : session (ServingNote.mark fd) notes = some trace) {talks : List Talk}
    (asked : trace.map Prod.fst = talks.flatMap Talk.events)
    (regular : ∀ talk ∈ talks, talk.Regular order server)
    (settled : (Session.start order).SettledTalks order server talks) :
    ∃ finished, Answered (talks.map (Talk.answer order server)) ⟨(trace.map Prod.snd).flatten, finished⟩ ∧
      (serving.Rests order fd → finished = true) := by
  obtain ⟨link, alone⟩ := accepted_alone run told
  obtain ⟨finished, answered, ends⟩ :=
    Link.follows_answered registers alone.follows asked regular settled
  exact ⟨finished, answered, fun rests => ends (alone.rests rests)⟩

theorem follow_told {turns : List ServingTurn}
    (followed : System.follow (next order server) serving turns = some (after, notes))
    {event : LinkEvent} {sent : Bytes} (member : .loop index (.told fd event sent) ∈ notes) :
    ∃ choice, .loop index choice ∈ turns ∧ (event = .processIn choice.errno choice.offer ∨
      event = .processOut choice.answers ∨ event = .handleConnClose) := by
  induction turns generalizing serving notes with
  | nil =>
      cases followed
      cases member
  | cons turn later ih =>
      obtain ⟨between, note, notes', stepped, further, rfl⟩ := System.follow_cons.mp followed
      rcases List.mem_cons.mp member with rfl | member
      · cases turn with
        | acceptor other =>
            rw [next, acceptorStep] at stepped
            split at stepped
            · unfold Serving.accept at stepped
              split at stepped <;> cases stepped
            · obtain ⟨host, found, same⟩ := Option.bind_eq_some_iff.mp stepped
              cases same
            · obtain ⟨host, found, rest⟩ := Option.bind_eq_some_iff.mp stepped
              obtain ⟨loop, wrote, same⟩ := Option.bind_eq_some_iff.mp rest
              cases same
        | loop index' choice =>
            obtain ⟨host, found, rest⟩ := Option.bind_eq_some_iff.mp stepped
            obtain ⟨⟨moved, said⟩, went, same⟩ := Option.bind_eq_some_iff.mp rest
            cases same
            have turned : host.next order server (.loop choice) = some (moved, .told fd event sent) := went
            obtain ⟨choice', this, told⟩ := Host.next_told turned
            cases this
            exact ⟨choice, List.mem_cons_self, told⟩
      · obtain ⟨choice, inside, told⟩ := ih further member
        exact ⟨choice, List.mem_cons_of_mem _ inside, told⟩

/-- A step of a loop when no file is there. -/
def missingTurn (index : Nat) (events : List ReadyEvent) (offer : Bytes) : ServingTurn :=
  .loop index ⟨events, 1, 0, 0, .clear, offer, Host.missing.answers⟩

/-- The first client hangs up, and its number goes to a client of the other loop, which asks
twice.  Meanwhile the first loop has a client that asks something malformed. -/
def numberReused : List ServingTurn :=
  let accepts (fd : Int) : List ServingTurn := List.replicate 3 (.acceptor fd)
  let idle (index steps : Nat) : List ServingTurn := List.replicate steps (missingTurn index [] [])
  let registers (index : Nat) : List ServingTurn := missingTurn index [.cmd] [] :: idle index 9
  let reads (fd : Int) : ReadyEvent := .sock fd ⟨false, true, false⟩
  let writes (fd : Int) : ReadyEvent := .sock fd ⟨false, false, true⟩
  accepts 7 ++ registers 0 ++ missingTurn 0 [.sock 7 ⟨true, false, false⟩] [] :: idle 0 4 ++
    accepts 7 ++ accepts 9 ++ registers 1 ++ registers 0 ++
    [missingTurn 1 [reads 7] [], missingTurn 0 [reads 9] [],
      missingTurn 1 [] UserConn.plainPage.serialise, missingTurn 0 [] (bytes "GET\r\n")] ++
    idle 1 2 ++ idle 0 2 ++ [missingTurn 0 [writes 9] [], missingTurn 1 [writes 7] []] ++ idle 1 3 ++
    idle 0 3 ++ [missingTurn 1 [reads 7] [], missingTurn 1 [] lastPage.serialise] ++ idle 1 2 ++
    missingTurn 1 [writes 7] [] :: idle 1 2

theorem numberReused_answers {choice : HostChoice} (member : .loop index choice ∈ numberReused) :
    choice.answers = Host.missing.answers := by
  have all : ∀ turn ∈ numberReused, ∀ index choice, turn = .loop index choice →
      choice.answers = Host.missing.answers := by
    unfold numberReused
    simp only [missingTurn, List.forall_mem_append, List.forall_mem_cons, List.forall_mem_replicate,
      ServingTurn.loop.injEq, reduceCtorEq, false_implies, and_imp]
    simp
  exact all _ member index choice rfl

theorem accepted_answered_reused :
    ∃ notes serving trace finished, System.follow (next (.front Bytes Bytes) askServer)
        (start (.sorted TimerNode.expire) 2) numberReused = some (serving, notes) ∧
      session (ServingNote.mark 7) notes = some trace ∧ trace.length = 4 ∧ finished = true ∧
      Answered (Host.twoAsks.map (Talk.answer (.front Bytes Bytes) askServer))
        ⟨(trace.map Prod.snd).flatten, finished⟩ := by
  have outcome : (System.follow (next (.front Bytes Bytes) askServer)
      (start (.sorted TimerNode.expire) 2) numberReused).map (fun reached =>
        (reached.1.hosts.map fun host => host.loop.epoll,
          (session (ServingNote.mark 7) reached.2).map (List.map fun entry => Host.kind entry.1))) =
      some ([[], []], some ((Host.twoAsks.flatMap Talk.events).map Host.kind)) := by decide +kernel
  obtain ⟨⟨serving, notes⟩, followed, read⟩ := Option.map_eq_some_iff.mp outcome
  obtain ⟨closed, kinds⟩ := Prod.mk.inj read
  obtain ⟨trace, told, kinds⟩ := Option.map_eq_some_iff.mp kinds
  have begun : (system (.front Bytes Bytes) askServer (.sorted TimerNode.expire) 2).Runs []
      (start (.sorted TimerNode.expire) 2) := .start rfl
  have asked : trace.map Prod.fst = Host.twoAsks.flatMap Talk.events := by
    refine Host.twoAsks_told (by rw [List.map_map]; exact kinds) fun answers member => ?_
    obtain ⟨⟨event, sent⟩, inside, same⟩ := List.mem_map.mp member
    obtain ⟨note, noted, mark⟩ := mem_of_session told _ inside
    obtain rfl : event = .processOut answers := same
    cases note with
    | accepted other =>
        rw [ServingNote.mark] at mark
        split at mark <;> cases mark
    | loop index said =>
        rcases ServingNote.mark_loop 7 index said with
          ⟨-, -, silent⟩ | ⟨-, -, silent⟩ | ⟨event, sent', -, rfl, tells⟩
        · cases silent.symm.trans mark
        · cases silent.symm.trans mark
        · cases tells.symm.trans mark
          obtain ⟨choice, chosen, shape⟩ := follow_told followed noted
          rcases shape with shape | shape | shape
          · cases shape
          · cases shape
            exact numberReused_answers chosen
          · cases shape
  obtain ⟨finished, answered, ends⟩ := accepted_answered askServer_plain (begun.follow followed) told
    asked Host.twoAsks_regular (by decide +kernel)
  refine ⟨notes, serving, trace, finished, followed, told, ?_, ends fun index host found member => ?_,
    answered⟩
  · have count := congrArg List.length asked
    rw [List.length_map] at count
    exact count
  · have none := congrArg (fun hosts => hosts[index]?) closed
    rw [List.getElem?_map, found] at none
    rcases index with _ | _ | index
    · simp_all
    · simp_all
    · simp at none

theorem next_session {turn : ServingTurn} (stepped : serving.next order server turn = some (after, note))
    (known : fd ∈ serving.fds → (session (ServingNote.mark fd) notes).isSome) (member : fd ∈ after.fds) :
    (session (ServingNote.mark fd) (notes ++ [note])).isSome := by
  cases next_step stepped with
  | @accept other here new =>
      by_cases same : other = fd
      · have opened : (ServingNote.accepted other).mark fd = .opened := if_pos same
        rw [session_opened opened]
        rfl
      · refine session_isSome _ (known ?_)
        exact ((AList.mem_insert _).mp member).resolve_left (Ne.symm same)
  | push here found => exact session_isSome _ (known member)
  | write here found wrote => exact session_isSome _ (known member)
  | loop found went => exact session_isSome _ (known (fdsAfter_subset member))

/-- An open descriptor was accepted. -/
theorem run_session {nthread : Nat} (run : (system order server pq nthread).Runs notes serving)
    (member : fd ∈ serving.fds) : (session (ServingNote.mark fd) notes).isSome := by
  induction run with
  | start started =>
      subst started
      exact absurd member (AList.notMem_empty fd)
  | step run stepped ih =>
      obtain ⟨turn, stepped⟩ := stepped
      exact next_session stepped ih member

/-- A loop tells only sockets that are open. -/
theorem told_open (parts : Parts order server notes serving) {turn : ServingTurn}
    (stepped : serving.next order server turn = some (after, note)) {event : LinkEvent} {sent : Bytes}
    (told : note.mark fd = .told event sent) : fd ∈ serving.fds := by
  cases next_step stepped with
  | accept here new =>
      rw [ServingNote.mark] at told
      split at told <;> cases told
  | push here found => cases told
  | write here found wrote => cases told
  | @loop index host choice moved said found went =>
      rcases ServingNote.mark_loop fd index said with
        ⟨-, -, silent⟩ | ⟨-, -, silent⟩ | ⟨event', sent', -, rfl, -⟩
      · cases silent.symm.trans told
      · cases silent.symm.trans told
      · have places := Host.places (Host.tidy (parts.runs index host found)) (Host.loopStep_step went)
        exact parts.held.opened index host found fd
          (Host.held_placed (places.told fd event' sent' rfl))

/-- The server as its clients see it: to each client a connection of its own, and nothing else. -/
def apart (order : HashOrder Bytes Bytes) (server : Server) : System (Int → Option Link) ServingNote :=
  Data.apart (Link.speak order server) (.fresh order) ServingNote.mark

/-- With its threads, its queues, its timers and its reuse of numbers, the server does nothing
that connections apart from each other do not, and every open descriptor has its connection. -/
theorem refines_apart {nthread : Nat} (run : (system order server pq nthread).Runs notes serving) :
    ∃ clients, (apart order server).Runs notes clients ∧ ∀ fd ∈ serving.fds, ∃ link,
      clients fd = some link ∧ ∀ (index : Nat) (host : Host pq), serving.hosts[index]? = some host →
        fd ∈ host.loop.epoll → Host.Shown order host fd link := by
  refine ⟨_, apart_runs (fun run key trace told => ?_) (fun run stepped key input output told => ?_) run,
    fun fd member => ?_⟩
  · obtain ⟨link, alone⟩ := accepted_alone run told
    exact ⟨link, alone.follows⟩
  · obtain ⟨turn, stepped⟩ := stepped
    exact run_session run (told_open (run_parts run) stepped told)
  · obtain ⟨trace, told⟩ := Option.isSome_iff_exists.mp (run_session run member)
    obtain ⟨link, alone⟩ := accepted_alone run told
    refine ⟨link, ?_, alone.shown⟩
    rw [told]
    exact alone.follows.machineOf

/-- The two clients of the second half, in the middle of what they ask. -/
theorem refines_apart_reused :
    ∃ notes serving clients link link', System.follow (next (.front Bytes Bytes) askServer)
        (start (.sorted TimerNode.expire) 2) (numberReused.take 47) = some (serving, notes) ∧
      serving.hosts.map (fun host => host.loop.epoll) = [[9], [7]] ∧
      (apart (.front Bytes Bytes) askServer).Runs notes clients ∧
      clients 9 = some link ∧ clients 7 = some link' := by
  have outcome : (System.follow (next (.front Bytes Bytes) askServer)
      (start (.sorted TimerNode.expire) 2) (numberReused.take 47)).map (fun reached =>
        (reached.1.hosts.map fun host => host.loop.epoll, reached.1.fds.keys)) =
      some ([[9], [7]], [9, 7]) := by decide +kernel
  obtain ⟨⟨serving, notes⟩, followed, read⟩ := Option.map_eq_some_iff.mp outcome
  obtain ⟨registered, opened⟩ := Prod.mk.inj read
  have begun : (system (.front Bytes Bytes) askServer (.sorted TimerNode.expire) 2).Runs []
      (start (.sorted TimerNode.expire) 2) := .start rfl
  obtain ⟨clients, run, shown⟩ := refines_apart (begun.follow followed)
  obtain ⟨link, first, -⟩ := shown 9 (AList.mem_keys.mpr (by rw [opened]; decide))
  obtain ⟨link', second, -⟩ := shown 7 (AList.mem_keys.mpr (by rw [opened]; decide))
  exact ⟨notes, serving, clients, link, link', followed, registered, run, first, second⟩

end Serving

end LiteWebServer
