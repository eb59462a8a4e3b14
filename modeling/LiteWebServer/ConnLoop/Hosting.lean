import LiteWebServer.ConnLoop.Host

namespace LiteWebServer

open Data

/-! Serving many clients from one loop is serving each of them alone. -/

namespace Link

variable {order : HashOrder Bytes Bytes} {server : Server} {link after : Link}

/-- A handler that returns has made one call, and the socket is armed for it. -/
theorem processIn_calls {errno : Errno} {offer : Bytes}
    (ran : link.fire.processIn errno offer = .ok after) :
    ∃ loopCall, after.calls = [loopCall] ∧ after.arming = loopCall.arming := by
  rw [processIn_eq] at ran
  cases result : link.fire.conn.processIn errno offer with
  | error fault =>
      rw [result] at ran
      cases ran
  | ok result' =>
      rw [result] at ran
      cases ran
      exact ⟨result'.2.1, rfl, fire_call_arming _ _⟩

theorem processOut_calls (answers : OutAnswers) :
    ∃ loopCall, (link.fire.processOut order server answers).calls = [loopCall] ∧
      (link.fire.processOut order server answers).arming = loopCall.arming := by
  exact ⟨_, rfl, fire_call_arming _ _⟩

theorem InPhase.follow (phase : link.InPhase) {events : List LinkEvent} {outputs : List Bytes}
    (followed : System.follow (speak order server) link events = some (after, outputs)) :
    after.InPhase := by
  induction events generalizing link outputs with
  | nil =>
      cases followed
      exact phase
  | cons event later ih =>
      obtain ⟨between, sent, outputs', spoke, further, -⟩ := System.follow_cons.mp followed
      obtain ⟨⟨between', shown⟩, moved, same⟩ := Option.map_eq_some_iff.mp spoke
      obtain rfl : between' = between := congrArg Prod.fst same
      exact ih (phase.next moved).1 further

end Link

namespace Host

variable {pq : PriorityQueue TimerNode TimerNode.expire}

/-- A method of the connection ran for an event. -/
inductive Ran (order : HashOrder Bytes Bytes) (server : Server) (link : Link) (flags : ReadyFlags) :
    LinkEvent → Link → Prop where
  | processIn {errno offer after} (reads : flags.pollIn = true)
      (ran : link.processIn errno offer = .ok after) :
      Ran order server link flags (.processIn errno offer) after
  | processOut {answers} (silent : flags.pollIn = false) (writes : flags.pollOut = true) :
      Ran order server link flags (.processOut answers) (link.processOut order server answers)

/-- Where the loop is about its own business. -/
def Inward : LoopPc → Prop
  | .waiting | .going (.events (.sock _ _ :: _)) | .going (.expired (_ :: _)) |
    .adding (_ :: _) _ _ => False
  | _ => True

/-- The loop with the connection of `fd` as a method left it. -/
def keep (loop : ConnLoop UserConn pq) (fd : Int) (conn : UserConn) : ConnLoop UserConn pq :=
  { loop with conns := loop.conns.replace fd conn }

inductive HostStep (order : HashOrder Bytes Bytes) (server : Server) (host : Host pq) :
    Host pq → HostNote → Prop where
  | push {fd} (new : fd ∉ host.loop.held) :
      HostStep order server host ⟨host.loop.addClisockToQueue fd, host.armed⟩ .quiet
  | write {loop} (sent : host.loop.cmdSendAddFd = some loop) :
      HostStep order server host ⟨loop, host.armed⟩ .quiet
  | send {cmd} : HostStep order server host ⟨host.loop.cmdSend cmd, host.armed⟩ .quiet
  | wait {events} (here : host.loop.pc = .waiting) (fits : host.FitsAll events)
      (reportable : host.loop.Reportable events) :
      HostStep order server host
        ⟨{ host.loop with
            edge := host.loop.edge && !(ReadyEvent.cmd ∈ events : Bool),
            pc := .going (.events events) }, report host.armed events⟩ .quiet
  | inward {choice loop note} (here : Inward host.loop.pc)
      (stepped : host.loop.loopStep (makeConn order) choice = some (loop, note)) :
      HostStep order server host ⟨loop, host.armed⟩ .quiet
  | ignore {fd flags rest} (here : host.loop.pc = .going (.events (.sock fd flags :: rest)))
      (silent : flags = ⟨false, false, false⟩) :
      HostStep order server host
        ⟨{ host.loop.emplaceConn (makeConn order) fd with pc := .going (.events rest) },
          host.armed⟩ .quiet
  | serve {fd flags rest now later event conn arming loopCall}
      (here : host.loop.pc = .going (.events (.sock fd flags :: rest)))
      (calm : flags.hangup = false)
      (ran : Ran order server (host.link order fd) flags event ⟨conn, arming, [loopCall]⟩)
      (goes : loopCall ≠ .connClose) :
      HostStep order server host
        ⟨keep { ((host.loop.emplaceConn (makeConn order) fd).addTimer fd now).addTimer fd later with
            pc := .going (.events rest) } fd conn, arm host.armed fd arming⟩
        (.told fd event ((host.link order fd).output order server event))
  | drop {fd flags rest now event conn arming}
      (here : host.loop.pc = .going (.events (.sock fd flags :: rest)))
      (calm : flags.hangup = false)
      (ran : Ran order server (host.link order fd) flags event ⟨conn, arming, [.connClose]⟩) :
      HostStep order server host
        ⟨keep (((host.loop.emplaceConn (makeConn order) fd).addTimer fd now).handleConnClose fd
            (.events rest)) fd conn, arm host.armed fd arming⟩
        (.told fd event ((host.link order fd).output order server event))
  | close {fd before todo} (here : host.loop.pc = .going before)
      (head : (∃ flags rest, before = .events (.sock fd flags :: rest) ∧ todo = .events rest) ∨
        ∃ rest, before = .expired (fd :: rest) ∧ todo = .expired rest) :
      HostStep order server host
        ⟨host.loop.handleConnClose fd todo, arm host.armed fd .closed⟩ (.told fd .handleConnClose [])
  | register {fd socks cmds rest now} (here : host.loop.pc = .adding (fd :: socks) cmds rest) :
      HostStep order server host
        ⟨{ host.loop.addTimer fd now with
            epoll := host.loop.epollAdd fd, pc := .adding socks cmds rest },
          arm host.armed fd .read⟩ (.registered fd)

variable {order : HashOrder Bytes Bytes} {server : Server} {host after : Host pq} {note : HostNote}
  {fd : Int}

theorem handled_step {flags : ReadyFlags} {rest : List ReadyEvent} {choice : HostChoice}
    {event : LinkEvent} {link : Link}
    (here : host.loop.pc = .going (.events (.sock fd flags :: rest))) (calm : flags.hangup = false)
    (ran : Ran order server (host.link order fd) flags event link)
    (stepped : host.handled order server fd flags rest choice event (.ok link) = some (after, note)) :
    HostStep order server host after note := by
  have flagged : flags.pollIn = true ∨ flags.pollOut = true := by
    cases ran with
    | processIn reads => exact .inl reads
    | processOut silent writes => exact .inr writes
  have served (loopCall : LoopCall) :
      (host.loop.handleEvent (makeConn order) fd flags rest (choice.loopChoice loopCall)).1 =
        (host.loop.emplaceConn (makeConn order) fd).handleConn fd rest (choice.loopChoice loopCall) := by
    unfold ConnLoop.handleEvent ConnLoop.emplaceConn
    rcases flagged with reads | writes
    · simp [calm, reads]
    · simp only [calm, writes, Bool.false_eq_true, if_false, if_true]
      split <;> rfl
  obtain ⟨conn, arming, calls⟩ := link
  unfold handled at stepped
  split at stepped
  · rename_i conn' arming' loopCall same
    cases same
    dsimp only at stepped
    rw [served] at stepped
    cases stepped
    cases loopCall with
    | modConnEventRead => exact .serve here calm ran (by simp)
    | modConnEventWrite => exact .serve here calm ran (by simp)
    | connClose => exact .drop here calm ran
  · cases stepped

theorem handleEvent_step {flags : ReadyFlags} {rest : List ReadyEvent} {choice : HostChoice}
    (here : host.loop.pc = .going (.events (.sock fd flags :: rest)))
    (stepped : host.handleEvent order server fd flags rest choice = some (after, note)) :
    HostStep order server host after note := by
  unfold handleEvent at stepped
  split at stepped
  · cases stepped
    exact .close here (.inl ⟨flags, rest, rfl, rfl⟩)
  · rename_i calm
    replace calm := Bool.eq_false_iff.mpr calm
    split at stepped
    · rename_i reads
      cases ran : (host.link order fd).processIn choice.errno choice.offer with
      | error fault =>
          rw [ran] at stepped
          cases stepped
      | ok link =>
          rw [ran] at stepped
          exact handled_step here calm (.processIn reads ran) stepped
    · rename_i silent
      replace silent := Bool.eq_false_iff.mpr silent
      split at stepped
      · rename_i writes
        exact handled_step here calm (.processOut silent writes) stepped
      · rename_i idle
        cases stepped
        refine .ignore here ?_
        obtain ⟨hangup, pollIn, pollOut⟩ := flags
        simp_all

theorem loopStep_step {choice : HostChoice}
    (stepped : host.loopStep order server choice = some (after, note)) :
    HostStep order server host after note := by
  unfold loopStep at stepped
  split at stepped
  · rename_i here
    obtain ⟨next, waited, same⟩ := Option.map_eq_some_iff.mp stepped
    cases same
    unfold epollWait at waited
    split at waited
    · rename_i fits
      obtain ⟨loop, waited, same⟩ := Option.map_eq_some_iff.mp waited
      subst same
      unfold ConnLoop.epollWait at waited
      split at waited
      · rename_i reportable
        cases waited
        exact .wait here fits reportable
      · cases waited
    · cases waited
  · rename_i fd flags rest here
    exact handleEvent_step here stepped
  · rename_i fd rest here
    cases stepped
    exact .close here (.inr ⟨rest, rfl, rfl⟩)
  · rename_i fd socks cmds rest here
    cases stepped
    exact .register here
  · rename_i awake notSock notExpired notAdding
    obtain ⟨⟨loop, note'⟩, turned, same⟩ := Option.map_eq_some_iff.mp stepped
    cases same
    refine .inward ?_ turned
    unfold Inward
    split
    · exact awake ‹_›
    · exact notSock _ _ _ ‹_›
    · exact notExpired _ _ ‹_›
    · exact notAdding _ _ _ _ ‹_›
    · trivial

theorem next_step {turn : HostTurn} (stepped : host.next order server turn = some (after, note)) :
    HostStep order server host after note := by
  cases turn with
  | addClisockToQueue fd =>
      rw [Host.next] at stepped
      split at stepped
      · cases stepped
      · rename_i new
        cases stepped
        exact .push new
  | cmdSendAddFd =>
      obtain ⟨loop, sent, same⟩ := Option.map_eq_some_iff.mp stepped
      cases same
      exact .write sent
  | cmdSend cmd =>
      rw [Host.next] at stepped
      split at stepped
      · cases stepped
      · cases stepped
        exact .send
  | loop choice => exact loopStep_step stepped

/-! ## What a step leaves alone -/

theorem keep_lookup (loop : ConnLoop UserConn pq) (conn : UserConn) {other : Int}
    (differs : other ≠ fd) : (keep loop fd conn).conns.lookup other = loop.conns.lookup other := by
  rw [keep, UnorderedMap.lookup_replace, if_neg fun both => differs both.1]

theorem keep_tidy {loop : ConnLoop UserConn pq} (tidy : loop.Tidy) (conn : UserConn) :
    (keep loop fd conn).Tidy :=
  { tidy with known := fun other member => tidy.known other (AList.mem_replace.mp member) }

theorem step_tidy (tidy : host.loop.Tidy) (step : HostStep order server host after note) :
    after.loop.Tidy := by
  cases step with
  | push new => exact (@ConnLoop.Tidy.addClisockToQueue _ _ (makeConn order) _ _ tidy new).1
  | write sent => exact (@ConnLoop.Tidy.cmdSendAddFd _ _ (makeConn order) _ _ tidy sent).1
  | send => exact tidy.turn rfl rfl rfl rfl rfl rfl rfl (.refl _)
  | wait here fits reportable => exact (@ConnLoop.Tidy.wait _ _ (makeConn order) _ tidy here _ reportable _).1
  | inward here stepped => exact (tidy.loopStep stepped).1
  | ignore here silent =>
      have registered := tidy.live _ (by rw [here]; exact List.mem_cons_self)
      exact ((tidy.emplaceConn registered).advance here).1
  | serve here calm ran goes => exact keep_tidy (tidy.serve here _ _).1 _
  | drop here calm ran => exact keep_tidy (tidy.drop here _).1 _
  | @close fd before todo here head =>
      have registered : fd ∈ host.loop.epoll := by
        rcases head with ⟨flags, rest, rfl, -⟩ | ⟨rest, rfl, -⟩
        · exact tidy.live fd (by rw [here]; exact List.mem_cons_self)
        · exact (tidy.timed fd).mpr (.inr (by rw [here]; exact List.mem_cons_self))
      exact tidy.handleConnClose registered here head
  | register here => exact (tidy.register here _).1

theorem tidy {notes : List HostNote} (run : (system order server pq).Runs notes host) :
    host.loop.Tidy := by
  refine @System.Runs.invariant _ _ _ (fun _ host => host.loop.Tidy) ?_ ?_ _ _ run
  · intro host same
    subst same
    exact ConnLoop.fresh_tidy
  · intro notes before note after held stepped
    obtain ⟨turn, stepped⟩ := stepped
    exact step_tidy held (next_step stepped)

theorem mem_socksLeft {pc : LoopPc} :
    fd ∈ pc.socksLeft ↔ ∃ flags, .sock fd flags ∈ pc.eventsLeft := by
  rw [LoopPc.socksLeft, List.mem_filterMap]
  constructor
  · intro found
    obtain ⟨event, member, named⟩ := found
    cases event with
    | cmd => cases named
    | sock other flags =>
        cases named
        exact ⟨flags, member⟩
  · intro found
    obtain ⟨flags, member⟩ := found
    exact ⟨_, member, rfl⟩

theorem Inward.still {loop next : ConnLoop UserConn pq} {choice : LoopChoice}
    {shown : LoopNote UserConn} {newConn : Int → UserConn} (here : Inward loop.pc)
    (step : ConnLoop.LoopStep newConn loop choice next shown) :
    next.epoll = loop.epoll ∧ next.conns = loop.conns ∧
      (next.pc = .stopped ∨ loop.pc ≠ .stopped ∧ ∀ fd flags,
        .sock fd flags ∈ next.pc.eventsLeft ↔ .sock fd flags ∈ loop.pc.eventsLeft) := by
  cases step with
  | wait at_ | hangup at_ | serve at_ | drop at_ | ignore at_ | dropExpired at_ | register at_ =>
      rw [at_] at here
      exact here.elim
  | stop at_ => exact ⟨rfl, rfl, .inl rfl⟩
  | command at_ | expire at_ | again at_ | drained at_ | read at_ | handled at_ | swap at_
  | skip at_ | registered at_ =>
      refine ⟨rfl, rfl, .inr ?_⟩
      rw [at_]
      simp [LoopPc.eventsLeft]
  | @close fd todo at_ =>
      refine ⟨rfl, rfl, .inr ?_⟩
      rw [at_]
      cases todo <;> simp [LoopPc.eventsLeft]

/-! ## The connection of a socket -/

/-- What a host shows of the connection of a socket.  While an event of it is due, the socket
is silent, and it waited for that event before. -/
structure Shown (order : HashOrder Bytes Bytes) (host : Host pq) (fd : Int) (link : Link) : Prop where
  registered : fd ∈ host.loop.epoll ↔ link.arming ≠ .closed
  conn : fd ∈ host.loop.epoll → (host.loop.conns.lookup fd).getD (.fresh order) = link.conn
  armed : fd ∈ host.loop.epoll → fd ∉ host.loop.pc.socksLeft → host.loop.pc ≠ .stopped →
    host.armed fd = link.arming
  due : ∀ flags, .sock fd flags ∈ host.loop.pc.eventsLeft →
    host.armed fd = .fired ∧ flags.Fits link.arming

variable {link : Link}

theorem connOf_eq (loop : ConnLoop UserConn pq) :
    loop.connOf (makeConn order) fd = (loop.conns.lookup fd).getD (.fresh order) := by
  rw [ConnLoop.connOf, ConnLoop.emplaceConn, UnorderedMap.lookup_emplace, if_pos rfl]
  cases loop.conns.lookup fd <;> rfl

theorem emplaceConn_shows (loop : ConnLoop UserConn pq) (other : Int) :
    ((loop.emplaceConn (makeConn order) other).conns.lookup fd).getD (.fresh order) =
      (loop.conns.lookup fd).getD (.fresh order) := by
  rw [ConnLoop.emplaceConn, UnorderedMap.lookup_emplace]
  cases loop.conns.lookup fd with
  | some conn => rfl
  | none =>
      rw [Option.none_or]
      split <;> rfl

/-- A step that leaves the socket and its events alone. -/
theorem Shown.still (shown : Shown order host fd link)
    (epoll : fd ∈ after.loop.epoll ↔ fd ∈ host.loop.epoll)
    (conns : (after.loop.conns.lookup fd).getD (.fresh order) =
      (host.loop.conns.lookup fd).getD (.fresh order))
    (armed : after.armed fd = host.armed fd)
    (events : after.loop.pc = .stopped ∨ host.loop.pc ≠ .stopped ∧ ∀ flags,
      .sock fd flags ∈ after.loop.pc.eventsLeft ↔ .sock fd flags ∈ host.loop.pc.eventsLeft) :
    Shown order after fd link := by
  refine ⟨epoll.trans shown.registered, fun member => ?_, fun member left runs => ?_,
    fun flags member => ?_⟩
  · exact conns.trans (shown.conn (epoll.mp member))
  · obtain ⟨ran, same⟩ := events.resolve_left runs
    refine armed.trans (shown.armed (epoll.mp member) (fun reported => left ?_) ran)
    obtain ⟨flags, member⟩ := mem_socksLeft.mp reported
    exact mem_socksLeft.mpr ⟨flags, (same flags).mpr member⟩
  · rcases events with stopped | ⟨-, same⟩
    · rw [stopped] at member
      cases member
    · rw [armed]
      exact shown.due flags ((same flags).mp member)

theorem same_events {pc pc' : LoopPc} (same : pc' = pc) :
    pc' = .stopped ∨ pc ≠ .stopped ∧
      ∀ flags, .sock fd flags ∈ pc'.eventsLeft ↔ .sock fd flags ∈ pc.eventsLeft := by
  subst same
  by_cases stopped : pc' = .stopped
  · exact .inl stopped
  · exact .inr ⟨stopped, fun _ => .rfl⟩

/-- The event of another socket is taken. -/
theorem other_event {other : Int} {flags : ReadyFlags} {rest : List ReadyEvent} {pc pc' : LoopPc}
    (differs : fd ≠ other) (here : pc = .going (.events (.sock other flags :: rest)))
    (left : pc'.eventsLeft = rest) :
    pc' = .stopped ∨ pc ≠ .stopped ∧
      ∀ flags, .sock fd flags ∈ pc'.eventsLeft ↔ .sock fd flags ∈ pc.eventsLeft := by
  subst here
  refine .inr ⟨by simp, fun flags' => ?_⟩
  rw [left]
  simp [LoopPc.eventsLeft, differs]

theorem handleConnClose_shows (tidy : host.loop.Tidy) {other : Int} (differs : fd ≠ other)
    (todo : Todo) (armed : Int → Arming) :
    (fd ∈ (host.loop.handleConnClose other todo).epoll ↔ fd ∈ host.loop.epoll) ∧
      (host.loop.handleConnClose other todo).conns.lookup fd = host.loop.conns.lookup fd ∧
      arm armed other .closed fd = armed fd :=
  ⟨(tidy.registered_once.mem_erase_iff).trans (and_iff_right differs),
    AList.lookup_erase_ne differs, Function.update_of_ne differs _ _⟩

theorem Shown.wait (shown : Shown order host fd link)
    {events : List ReadyEvent} (here : host.loop.pc = .waiting) (fits : host.FitsAll events)
    (reportable : host.loop.Reportable events) (edge : Bool) :
    Shown order ⟨{ host.loop with edge, pc := .going (.events events) },
      report host.armed events⟩ fd link := by
  have silent : fd ∉ host.loop.pc.socksLeft := by rw [here]; exact List.not_mem_nil
  have runs : host.loop.pc ≠ .stopped := by rw [here]; simp
  refine ⟨shown.registered, shown.conn, fun member left _ => ?_, fun flags member => ?_⟩
  · have quiet : report host.armed events fd = host.armed fd := if_neg left
    exact quiet.trans (shown.armed member silent runs)
  · have listed : fd ∈ events.filterMap ReadyEvent.sock? := mem_socksLeft.mpr ⟨flags, member⟩
    have registered := reportable.2 _ member
    have armed := shown.armed registered silent runs
    refine ⟨if_pos listed, ?_⟩
    rw [← armed]
    exact fits _ member

/-- The handler that the loop ran is the step of a connection on its own. -/
theorem Ran.alone {flags : ReadyFlags} {event : LinkEvent} {link' : Link}
    (calm : flags.hangup = false) (fits : flags.Fits link.arming)
    (ran : Ran order server link.fire flags event link') :
    ∃ shown, Link.next order server link event = some (link', shown) := by
  cases ran with
  | processIn reads ran =>
      have reading : link.arming = .read := by
        cases arming : link.arming <;> simp [arming, ReadyFlags.Fits, reads] at fits ⊢
      exact ⟨_, by rw [Link.next, if_pos reading, ran]⟩
  | processOut silent writes =>
      have writing : link.arming = .write := by
        cases arming : link.arming <;> simp [arming, ReadyFlags.Fits, calm, silent, writes] at fits ⊢
      exact ⟨_, by rw [Link.next, if_pos writing]⟩

/-- What it sent is what the connection on its own sends. -/
theorem Ran.speaks {flags : ReadyFlags} {event : LinkEvent} {link' : Link}
    (calm : flags.hangup = false) (fits : flags.Fits link.arming)
    (ran : Ran order server link.fire flags event link') :
    link.speak order server event = some (link', link.fire.output order server event) := by
  obtain ⟨shown, moved⟩ := ran.alone calm fits
  rw [Link.speak, moved]
  cases event <;> rfl

theorem Ran.arming {flags : ReadyFlags} {event : LinkEvent} {conn : UserConn} {arming : Arming}
    {loopCall : LoopCall}
    (ran : Ran order server link.fire flags event ⟨conn, arming, [loopCall]⟩) :
    arming = loopCall.arming := by
  generalize shape : (⟨conn, arming, [loopCall]⟩ : Link) = after at ran
  obtain ⟨made, calls, armed⟩ : ∃ made, after.calls = [made] ∧ after.arming = made.arming := by
    cases ran with
    | processIn reads ran => exact Link.processIn_calls ran
    | processOut silent writes => exact Link.processOut_calls _
  subst shape
  cases calls
  exact armed

/-- The event at the head of the batch finds the connection as it was left, and fired. -/
theorem Shown.link_eq (shown : Shown order host fd link) {flags : ReadyFlags}
    (registered : fd ∈ host.loop.epoll) (due : .sock fd flags ∈ host.loop.pc.eventsLeft) :
    host.link order fd = link.fire ∧ flags.Fits link.arming := by
  obtain ⟨fired, fits⟩ := shown.due flags due
  refine ⟨?_, fits⟩
  rw [Host.link, connOf_eq, shown.conn registered, fired]
  rfl

/-- No second event of the socket is in the batch. -/
theorem not_due_again (tidy : host.loop.Tidy) {flags : ReadyFlags} {rest : List ReadyEvent}
    (here : host.loop.pc = .going (.events (.sock fd flags :: rest))) (flags' : ReadyFlags) :
    .sock fd flags' ∉ rest := by
  have batch := tidy.batch
  rw [here] at batch
  intro member
  have again : fd ∈ rest.filterMap ReadyEvent.sock? := List.mem_filterMap.mpr ⟨_, member, rfl⟩
  exact (List.nodup_cons.mp batch).1 again

theorem Shown.served (tidy : host.loop.Tidy) {flags : ReadyFlags} {rest : List ReadyEvent}
    (here : host.loop.pc = .going (.events (.sock fd flags :: rest))) (now later : TimePoint)
    (conn : UserConn) {arming : Arming} (goes : arming ≠ .closed) (calls : List LoopCall) :
    Shown order ⟨keep { ((host.loop.emplaceConn (makeConn order) fd).addTimer fd now).addTimer fd
      later with pc := .going (.events rest) } fd conn, arm host.armed fd arming⟩ fd
      ⟨conn, arming, calls⟩ := by
  have registered : fd ∈ host.loop.epoll := tidy.live fd (by rw [here]; exact List.mem_cons_self)
  have made : fd ∈ (host.loop.emplaceConn (makeConn order) fd).conns := by
    rw [← AList.lookup_isSome, ConnLoop.emplaceConn, UnorderedMap.lookup_emplace, if_pos rfl]
    cases host.loop.conns.lookup fd <;> rfl
  have kept : ((host.loop.emplaceConn (makeConn order) fd).conns.replace fd conn).lookup fd =
      some conn := by
    rw [UnorderedMap.lookup_replace, if_pos ⟨rfl, made⟩]
  refine ⟨iff_of_true registered goes, fun _ => ?_, fun _ _ _ => Function.update_self _ _ _,
    fun flags' member => absurd member (not_due_again tidy here flags')⟩
  exact congrArg (Option.getD · _) kept

theorem Shown.gone (tidy : host.loop.Tidy) {before todo : Todo} (here : host.loop.pc = .going before)
    (head : (∃ flags rest, before = .events (.sock fd flags :: rest) ∧ todo = .events rest) ∨
      ∃ rest, before = .expired (fd :: rest) ∧ todo = .expired rest)
    {loop : ConnLoop UserConn pq} (epoll : loop.epoll = host.loop.epoll.erase fd)
    (pc : loop.pc = .closing fd todo) (armed : Int → Arming) (conn : UserConn)
    (calls : List LoopCall) : Shown order ⟨loop, armed⟩ fd ⟨conn, .closed, calls⟩ := by
  have absent : fd ∉ loop.epoll := by
    rw [epoll]
    exact tidy.registered_once.not_mem_erase
  refine ⟨iff_of_false absent (by simp), fun member => absurd member absent,
    fun member => absurd member absent, fun flags member => ?_⟩
  dsimp only at member
  rw [pc] at member
  rcases head with ⟨flags', rest, rfl, rfl⟩ | ⟨rest, rfl, rfl⟩
  · exact absurd member (not_due_again tidy here flags)
  · cases member

theorem Shown.fresh (tidy : host.loop.Tidy) {socks : List Int} {cmds : List ConnLoopCmd}
    {rest : List ReadyEvent} (here : host.loop.pc = .adding (fd :: socks) cmds rest)
    (now : TimePoint) :
    Shown order ⟨{ host.loop.addTimer fd now with
      epoll := host.loop.epollAdd fd, pc := .adding socks cmds rest }, arm host.armed fd .read⟩ fd
      (.fresh order) := by
  have held := tidy.held
  rw [ConnLoop.held, here] at held
  have new : fd ∉ host.loop.epoll := fun member =>
    List.disjoint_of_nodup_append (held.sublist (List.sublist_append_right _ _)) List.mem_cons_self
      (List.mem_append_left _ member)
  have registered : fd ∈ host.loop.epollAdd fd := by
    rw [ConnLoop.epollAdd, if_neg new]
    exact List.mem_append_right _ (List.mem_singleton_self fd)
  have unknown : host.loop.conns.lookup fd = none :=
    AList.lookup_eq_none.mpr fun member => new (tidy.known fd member)
  refine ⟨iff_of_true registered (by simp [Link.fresh]), fun _ => congrArg (Option.getD · _) unknown,
    fun _ _ _ => Function.update_self _ _ _, fun flags member => ?_⟩
  have due : .sock fd flags ∈ host.loop.pc.eventsLeft := by rw [here]; exact member
  exact absurd (tidy.live fd (mem_socksLeft.mpr ⟨flags, due⟩)) new

theorem hosts : Hosts (system order server pq) (Link.speak order server) (.fresh order) HostNote.mark
    (fun host => host.loop.Tidy) (Shown order) where
  quiet := by
    intro host note after fd link tidy stepped quiet shown
    obtain ⟨turn, stepped⟩ := stepped
    cases next_step stepped with
    | push new => exact shown.still .rfl rfl rfl (same_events rfl)
    | write sent =>
        cases ConnLoop.cmdSendAddFd_step sent with
        | _ => exact shown.still .rfl rfl rfl (same_events rfl)
    | send => exact shown.still .rfl rfl rfl (same_events rfl)
    | wait here fits reportable => exact shown.wait here fits reportable _
    | inward here turned =>
        obtain ⟨epoll, conns, events⟩ := Inward.still here (ConnLoop.loopStep_step turned)
        refine shown.still (by rw [epoll]) (by rw [conns]) rfl ?_
        exact events.imp_right fun both => ⟨both.1, both.2 fd⟩
    | @ignore other flags rest here silent =>
        by_cases same : fd = other
        · subst same
          obtain ⟨-, fits⟩ := shown.due flags (by rw [here]; exact List.mem_cons_self)
          cases arming : link.arming <;> simp [arming, ReadyFlags.Fits, silent] at fits
        · exact shown.still .rfl (emplaceConn_shows _ _) rfl (other_event same here rfl)
    | @serve other flags rest now later event conn arming loopCall here calm ran goes =>
        have differs : fd ≠ other := by
          intro same
          simp [HostNote.mark, same] at quiet
        refine shown.still .rfl ?_ (Function.update_of_ne differs _ _) (other_event differs here rfl)
        rw [keep_lookup _ _ differs]
        exact emplaceConn_shows _ _
    | @drop other flags rest now event conn arming here calm ran =>
        have differs : fd ≠ other := by
          intro same
          simp [HostNote.mark, same] at quiet
        refine shown.still (tidy.registered_once.mem_erase_iff.trans (and_iff_right differs)) ?_
          (Function.update_of_ne differs _ _) (other_event differs here rfl)
        rw [keep_lookup _ _ differs]
        refine (congrArg (Option.getD · _) (AList.lookup_erase_ne differs)).trans ?_
        exact emplaceConn_shows _ _
    | @close other before todo here head =>
        have differs : fd ≠ other := by
          intro same
          simp [HostNote.mark, same] at quiet
        obtain ⟨epoll, conns, armed⟩ := handleConnClose_shows tidy differs todo host.armed
        refine shown.still epoll (by rw [conns]) armed ?_
        rcases head with ⟨flags, rest, rfl, rfl⟩ | ⟨rest, rfl, rfl⟩
        · exact other_event differs here rfl
        · refine .inr ⟨by rw [here]; simp, fun flags => ?_⟩
          rw [here]
          rfl
    | @register other socks cmds rest now here =>
        have differs : fd ≠ other := by
          intro same
          simp [HostNote.mark, same] at quiet
        refine shown.still ?_ rfl (Function.update_of_ne differs _ _) (.inr ⟨by rw [here]; simp, ?_⟩)
        · change fd ∈ host.loop.epollAdd other ↔ _
          unfold ConnLoop.epollAdd
          split
          · exact .rfl
          · simp [differs]
        · intro flags
          rw [here]
          rfl
  opens := by
    intro host note after fd tidy stepped opened
    obtain ⟨turn, stepped⟩ := stepped
    cases next_step stepped with
    | push | write | send | wait | inward | ignore => cases opened
    | serve | drop | close =>
        rw [HostNote.mark] at opened
        split at opened <;> cases opened
    | @register other socks cmds rest now here =>
        rw [HostNote.mark] at opened
        split at opened
        · rename_i same
          subst same
          exact .fresh tidy here now
        · cases opened
  tells := by
    intro host note after fd link input output trace tidy stepped told follows shown
    obtain ⟨turn, stepped⟩ := stepped
    cases next_step stepped with
    | push | write | send | wait | inward | ignore => cases told
    | register =>
        rw [HostNote.mark] at told
        split at told <;> cases told
    | @serve other flags rest now later event conn arming loopCall here calm ran goes =>
        rw [HostNote.mark] at told
        split at told
        · rename_i same
          cases told
          subst same
          have due : .sock other flags ∈ host.loop.pc.eventsLeft := by rw [here]; exact List.mem_cons_self
          obtain ⟨found, fits⟩ := shown.link_eq (tidy.live other (mem_socksLeft.mpr ⟨flags, due⟩)) due
          rw [found] at ran
          refine ⟨_, by rw [found]; exact ran.speaks calm fits, .served tidy here now later conn ?_ _⟩
          rw [ran.arming]
          cases loopCall with
          | connClose => exact absurd rfl goes
          | modConnEventRead => simp [LoopCall.arming]
          | modConnEventWrite => simp [LoopCall.arming]
        · cases told
    | @drop other flags rest now event conn arming here calm ran =>
        rw [HostNote.mark] at told
        split at told
        · rename_i same
          cases told
          subst same
          have due : .sock other flags ∈ host.loop.pc.eventsLeft := by rw [here]; exact List.mem_cons_self
          obtain ⟨found, fits⟩ := shown.link_eq (tidy.live other (mem_socksLeft.mpr ⟨flags, due⟩)) due
          rw [found] at ran
          have spoke := ran.speaks calm fits
          rw [← found] at spoke
          obtain rfl := ran.arming
          exact ⟨_, spoke,
            .gone tidy here (.inl ⟨flags, rest, rfl, rfl⟩) rfl rfl _ conn [.connClose]⟩
        · cases told
    | @close other before todo here head =>
        rw [HostNote.mark] at told
        split at told
        · rename_i same
          cases told
          subst same
          have registered : other ∈ host.loop.epoll := by
            rcases head with ⟨flags, rest, rfl, -⟩ | ⟨rest, rfl, -⟩
            · exact tidy.live other (by rw [here]; exact List.mem_cons_self)
            · exact (tidy.timed other).mpr (.inr (by rw [here]; exact List.mem_cons_self))
          have spoke : link.speak order server .handleConnClose =
              some ({ link with arming := .closed, calls := [] }, []) := by
            rw [Link.speak, Link.next, if_neg (shown.registered.mp registered)]
            rfl
          exact ⟨_, spoke, .gone tidy here head rfl rfl _ _ _⟩
        · cases told

/-! ## Runs -/

/-- Each client is served as if it were the only one. -/
structure ServesApart (order : HashOrder Bytes Bytes) (server : Server) (notes : List HostNote)
    (host : Host pq) : Prop where
  registered : ∀ fd ∈ host.loop.epoll, ∃ trace, session (HostNote.mark fd) notes = some trace
  /-- Since a socket was registered last, its connection has sent what it sends on its own when
  it is told what it was told here, and is where that leads, whatever the others were told. -/
  alone : ∀ fd trace, session (HostNote.mark fd) notes = some trace →
    ∃ link, Follows (Link.speak order server) (.fresh order) trace link ∧ Shown order host fd link

theorem registered_session {notes : List HostNote} (run : (system order server pq).Runs notes host)
    (registered : fd ∈ host.loop.epoll) :
    ∃ trace, session (HostNote.mark fd) notes = some trace := by
  induction run with
  | start same =>
      cases same
      cases registered
  | @step notes before note after run stepped ih =>
      cases mark : note.mark fd with
      | opened => exact ⟨[], session_opened mark⟩
      | quiet =>
          -- Only a registration makes a socket registered that was not.
          have earlier : fd ∈ before.loop.epoll := by
            obtain ⟨turn, stepped⟩ := stepped
            cases next_step stepped with
            | push | send | wait | ignore | serve => exact registered
            | write sent =>
                cases ConnLoop.cmdSendAddFd_step sent with
                | _ => exact registered
            | inward here turned =>
                rwa [(Inward.still here (ConnLoop.loopStep_step turned)).1] at registered
            | drop | close => exact List.mem_of_mem_erase registered
            | @register other =>
                change fd ∈ before.loop.epollAdd other at registered
                unfold ConnLoop.epollAdd at registered
                split at registered
                · exact registered
                · rcases List.mem_append.mp registered with held | this
                  · exact held
                  · simp [HostNote.mark, List.mem_singleton.mp this] at mark
          exact (session_quiet mark).symm ▸ ih earlier
      | told event sent =>
          have earlier : fd ∈ before.loop.epoll := by
            obtain ⟨turn, stepped⟩ := stepped
            cases next_step stepped with
            | push | write | send | wait | inward | ignore => cases mark
            | serve => exact registered
            | drop | close => exact List.mem_of_mem_erase registered
            | register =>
                rw [HostNote.mark] at mark
                split at mark <;> cases mark
          obtain ⟨trace, told⟩ := ih earlier
          exact ⟨trace ++ [(event, sent)], by rw [session_told mark, told]; rfl⟩

/-- Every run of a loop with its callers, its sockets and its connections. -/
theorem serves_apart {notes : List HostNote} (run : (system order server pq).Runs notes host) :
    ServesApart order server notes host where
  registered _ member := registered_session run member
  alone _ _ told := hosts.alone (fun run => tidy run) run told

/-- The socket 7 asks in two pieces and is answered, while 9 asks something malformed. -/
def twoClients : List HostTurn :=
  let choice (events : List ReadyEvent) (offer : Bytes) : HostChoice :=
    ⟨events, 2, 0, 0, .clear, offer, ⟨fun _ => .error .enoent, [1000, 1000], fun _ _ => 0⟩⟩
  let turn (events : List ReadyEvent) : HostTurn := .loop (choice events [])
  let reads (fd : Int) : ReadyEvent := .sock fd ⟨false, true, false⟩
  [.addClisockToQueue 7, .cmdSendAddFd, .addClisockToQueue 9, .cmdSendAddFd, turn [.cmd], turn [],
    turn [], turn [], turn [], turn [], turn [], turn [], turn [], turn [], turn [], turn [],
    turn [reads 9, reads 7], .loop (choice [] (bytes "GET\r\n")),
    .loop (choice [] (bytes "GET / HTTP/1.1\r\n")), turn [], turn [],
    turn [.sock 9 ⟨false, false, true⟩, reads 7], turn [], turn [], .loop (choice [] (bytes "\r\n"))]

theorem serves_apart_two :
    ∃ notes host, System.follow (next (.front Bytes Bytes)
        (.builtin (.front Bytes Bytes) (bytes "/www") fun _ => none))
        (fresh (.sorted TimerNode.expire)) twoClients = some (host, notes) ∧
      host.loop.epoll = [7] ∧
      (session (HostNote.mark 7) notes).map List.length = some 2 ∧
      (session (HostNote.mark 9) notes).map List.length = some 2 ∧
      ServesApart (.front Bytes Bytes)
        (.builtin (.front Bytes Bytes) (bytes "/www") fun _ => none) notes host := by
  have outcome : (System.follow (next (.front Bytes Bytes)
      (.builtin (.front Bytes Bytes) (bytes "/www") fun _ => none))
      (fresh (.sorted TimerNode.expire)) twoClients).map (fun reached =>
        (reached.1.loop.epoll, (session (HostNote.mark 7) reached.2).map List.length,
          (session (HostNote.mark 9) reached.2).map List.length)) =
      some ([7], some 2, some 2) := by decide +kernel
  obtain ⟨⟨host, notes⟩, followed, read⟩ := Option.map_eq_some_iff.mp outcome
  obtain ⟨epoll, seven, nine⟩ := Prod.mk.inj (Option.some.inj (congrArg some read)) |>.imp_right
    Prod.mk.inj
  have begun : (system (.front Bytes Bytes)
      (.builtin (.front Bytes Bytes) (bytes "/www") fun _ => none)
      (.sorted TimerNode.expire)).Runs [] (fresh (.sorted TimerNode.expire)) := .start rfl
  exact ⟨notes, host, followed, epoll, seven, nine, serves_apart (begun.follow followed)⟩

/-- No socket is forgotten, and no client makes the loop fail. -/
structure Attended (order : HashOrder Bytes Bytes) (server : Server) (host : Host pq) : Prop where
  /-- A socket without an event in the batch waits for what its request needs next. -/
  armed : ∀ fd ∈ host.loop.epoll, fd ∉ host.loop.pc.socksLeft → host.loop.pc ≠ .stopped →
    host.armed fd = if (host.loop.connOf (makeConn order) fd).req.parseComplete then .write else .read
  /-- What an event calls for is what the request needs. -/
  suits : ∀ fd flags, .sock fd flags ∈ host.loop.pc.eventsLeft → flags.hangup = false →
    (flags.pollOut = true ↔ (host.loop.connOf (makeConn order) fd).req.parseComplete = true) ∧
      (flags.pollIn = true ↔ (host.loop.connOf (makeConn order) fd).req.parseComplete = false)
  /-- The handler of an event returns, after one call to the loop. -/
  returns : ∀ fd flags rest choice,
    host.loop.pc = .going (.events (.sock fd flags :: rest)) →
      (host.next order server (.loop choice)).isSome

theorem handled_isSome {flags : ReadyFlags} {rest : List ReadyEvent} {choice : HostChoice}
    {event : LinkEvent} {after : Link} {loopCall : LoopCall} (made : after.calls = [loopCall]) :
    (host.handled order server fd flags rest choice event (.ok after)).isSome := by
  obtain ⟨conn, arming, calls⟩ := after
  cases made
  rfl

theorem armed_for_need {notes : List HostNote} (run : (system order server pq).Runs notes host) :
    Attended order server host := by
  have tidy := tidy run
  have phases (fd : Int) (member : fd ∈ host.loop.epoll) :
      ∃ link : Link, link.InPhase ∧ Shown order host fd link ∧
        host.loop.connOf (makeConn order) fd = link.conn := by
    obtain ⟨trace, told⟩ := registered_session run member
    obtain ⟨link, follows, shown⟩ := hosts.alone (fun run => Host.tidy run) run told
    exact ⟨link, Link.fresh_inPhase.follow follows, shown,
      (connOf_eq host.loop).trans (shown.conn member)⟩
  have pending {fd : Int} {flags : ReadyFlags} (due : .sock fd flags ∈ host.loop.pc.eventsLeft) :
      fd ∈ host.loop.epoll := tidy.live fd (mem_socksLeft.mpr ⟨flags, due⟩)
  refine ⟨fun fd member silent runs => ?_, fun fd flags due calm => ?_,
    fun fd flags rest choice here => ?_⟩
  · obtain ⟨link, phase, shown, same⟩ := phases fd member
    rw [shown.armed member silent runs, same]
    exact phase.armed.resolve_left (shown.registered.mp member)
  · obtain ⟨link, phase, shown, same⟩ := phases fd (pending due)
    obtain ⟨-, fits⟩ := shown.due flags due
    rw [phase.armed.resolve_left (shown.registered.mp (pending due))] at fits
    rw [same]
    cases complete : link.conn.req.parseComplete <;>
      simp [complete, ReadyFlags.Fits, calm] at fits ⊢ <;> simp [fits]
  · have due : .sock fd flags ∈ host.loop.pc.eventsLeft := by rw [here]; exact List.mem_cons_self
    obtain ⟨link, phase, shown, -⟩ := phases fd (pending due)
    obtain ⟨found, fits⟩ := shown.link_eq (pending due) due
    rw [Host.next, Host.loopStep, here]
    dsimp only
    rw [Host.handleEvent, found]
    split
    · rfl
    · split
      · rename_i reads
        have reading : link.arming = .read := by
          cases arming : link.arming <;> simp [arming, ReadyFlags.Fits, reads] at fits ⊢
        obtain ⟨after, loopCall, ran, -, made⟩ := phase.processIn reading choice.errno choice.offer
        rw [ran]
        exact handled_isSome made
      · split
        · obtain ⟨loopCall, made, -⟩ :=
            @Link.processOut_calls order server link choice.answers
          exact handled_isSome made
        · rfl

theorem armed_for_need_two :
    ∃ notes host, System.follow (next (.front Bytes Bytes)
        (.builtin (.front Bytes Bytes) (bytes "/www") fun _ => none))
        (fresh (.sorted TimerNode.expire)) twoClients = some (host, notes) ∧
      host.armed 7 = .write ∧
      Attended (.front Bytes Bytes) (.builtin (.front Bytes Bytes) (bytes "/www") fun _ => none)
        host := by
  have outcome : (System.follow (next (.front Bytes Bytes)
      (.builtin (.front Bytes Bytes) (bytes "/www") fun _ => none))
      (fresh (.sorted TimerNode.expire)) twoClients).map (fun reached => reached.1.armed 7) =
      some .write := by decide +kernel
  obtain ⟨⟨host, notes⟩, followed, read⟩ := Option.map_eq_some_iff.mp outcome
  have begun : (system (.front Bytes Bytes)
      (.builtin (.front Bytes Bytes) (bytes "/www") fun _ => none)
      (.sorted TimerNode.expire)).Runs [] (fresh (.sorted TimerNode.expire)) := .start rfl
  exact ⟨notes, host, followed, read, armed_for_need (begun.follow followed)⟩

end Host

end LiteWebServer
