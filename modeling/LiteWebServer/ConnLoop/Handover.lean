import LiteWebServer.ConnLoop.Steps

namespace LiteWebServer

open Data

/-! Sockets are handed to a loop once each, and the loop never misses that there are some. -/

namespace LoopNote

def pushed? : LoopNote κ → Option Int
  | .pushed fd => some fd
  | _ => none

def registered? : LoopNote κ → Option Int
  | .registered fd => some fd
  | _ => none

end LoopNote

namespace LoopPc

/-- The sockets taken from the queue and not yet registered. -/
def swapLeft : LoopPc → List Int
  | .adding socks _ _ => socks
  | _ => []

/-- The events of the batch that are still to come. -/
def eventsLeft : LoopPc → List ReadyEvent
  | .going (.events rest) | .closing _ (.events rest) => rest
  | .reading rest | .handling _ _ rest | .adding _ _ rest => rest
  | _ => []

/-- The first `CMD_ADD_FD` of the batch of commands is still to come. -/
def SwapDue : LoopPc → Prop
  | .handling cmds false _ => .addFd ∈ cmds
  | _ => False

/-- The loop is in `cmd_recv`, or comes there in this batch, or has stopped. -/
def WillRead (pc : LoopPc) : Prop :=
  match pc with
  | .reading _ | .handling _ _ _ | .adding _ _ _ | .stopped => True
  | pc => .cmd ∈ pc.eventsLeft

end LoopPc

namespace ConnLoop

variable {κ : Type} {pq : PriorityQueue TimerNode TimerNode.expire} {newConn : Int → κ}

structure Handover (notes : List (LoopNote κ)) (loop : ConnLoop κ pq) : Prop where
  /-- The sockets pushed are those registered, those on their way and those queued. -/
  order : notes.filterMap LoopNote.pushed? =
    notes.filterMap LoopNote.registered? ++ (loop.pc.swapLeft ++ loop.newCliSocks)
  noticed : loop.pc ≠ .stopped → loop.newCliSocks ≠ [] →
    loop.owed ≠ 0 ∨ .addFd ∈ loop.cmdSockpair ∨ loop.pc.SwapDue
  pending : loop.cmdSockpair ≠ [] → loop.edge = true ∨ loop.pc.WillRead

variable {notes : List (LoopNote κ)} {loop after : ConnLoop κ pq} {note : LoopNote κ}

theorem filterMap_append_silent (read : LoopNote κ → Option α) (silent : read note = none) :
    (notes ++ [note]).filterMap read = notes.filterMap read := by
  rw [List.filterMap_append, List.filterMap_cons_none silent, List.filterMap_nil, List.append_nil]

theorem filterMap_append_said (read : LoopNote κ → Option α) {value : α}
    (said : read note = some value) :
    (notes ++ [note]).filterMap read = notes.filterMap read ++ [value] := by
  rw [List.filterMap_append, List.filterMap_cons_some said, List.filterMap_nil]

/-- A step that leaves the queue, the command socket and its event alone. -/
theorem Handover.keep (handover : Handover notes loop) {old : LoopPc} (here : loop.pc = old)
    (silent : note.pushed? = none ∧ note.registered? = none)
    (socks : after.newCliSocks = loop.newCliSocks) (owed : after.owed = loop.owed)
    (pair : after.cmdSockpair = loop.cmdSockpair) (edge : after.edge = loop.edge)
    (runs : old ≠ .stopped) (swap : after.pc.swapLeft = old.swapLeft)
    (due : old.SwapDue → after.pc.SwapDue) (reads : old.WillRead → after.pc.WillRead) :
    Handover (notes ++ [note]) after where
  order := by
    rw [filterMap_append_silent _ silent.1, filterMap_append_silent _ silent.2, handover.order, socks,
      swap, here]
  noticed _ waiting := by
    subst old
    rw [socks] at waiting
    rw [owed, pair]
    exact (handover.noticed runs waiting).imp_right (Or.imp_right due)
  pending some := by
    subst old
    rw [pair] at some
    rw [edge]
    exact (handover.pending some).imp_right reads

/-- A client event is handled, or its connection is about to be closed. -/
theorem Handover.event (handover : Handover notes loop) {fd : Int} {flags : ReadyFlags}
    {rest : List ReadyEvent} (here : loop.pc = .going (.events (.sock fd flags :: rest)))
    (silent : note.pushed? = none ∧ note.registered? = none)
    (socks : after.newCliSocks = loop.newCliSocks) (owed : after.owed = loop.owed)
    (pair : after.cmdSockpair = loop.cmdSockpair) (edge : after.edge = loop.edge)
    (pc : after.pc = .going (.events rest) ∨ after.pc = .closing fd (.events rest)) :
    Handover (notes ++ [note]) after := by
  refine handover.keep here silent socks owed pair edge nofun ?_ False.elim fun reads => ?_
  · rcases pc with pc | pc <;> rw [pc] <;> rfl
  · have later : ReadyEvent.cmd ∈ rest := (List.mem_cons.mp reads).resolve_left nofun
    rcases pc with pc | pc <;> rw [pc] <;> exact later

theorem Handover.wait (handover : Handover notes loop) (here : loop.pc = .waiting)
    (events : List ReadyEvent) :
    Handover (notes ++ [.quiet]) { loop with
      edge := loop.edge && !(ReadyEvent.cmd ∈ events : Bool), pc := .going (.events events) } where
  order := by
    rw [filterMap_append_silent _ rfl, filterMap_append_silent _ rfl, handover.order, here]
    rfl
  noticed _ waiting := by
    have due := handover.noticed (by rw [here]; nofun) waiting
    rw [here] at due
    exact due.imp_right (Or.imp_right False.elim)
  pending some := by
    have edge := handover.pending some
    rw [here] at edge
    have set : loop.edge = true := edge.resolve_right List.not_mem_nil
    by_cases reported : ReadyEvent.cmd ∈ events
    · exact .inr reported
    · left
      simp [set, reported]

theorem Handover.drained (handover : Handover notes loop) {rest : List ReadyEvent}
    (here : loop.pc = .reading rest) (empty : loop.cmdSockpair = []) :
    Handover (notes ++ [.quiet]) { loop with pc := .going (.events rest) } where
  order := by
    rw [filterMap_append_silent _ rfl, filterMap_append_silent _ rfl, handover.order, here]
    rfl
  noticed _ waiting := by
    have due := handover.noticed (by rw [here]; nofun) waiting
    rw [here] at due
    exact due.imp_right (Or.imp_right False.elim)
  pending some := absurd empty some

theorem Handover.read (handover : Handover notes loop) {rest : List ReadyEvent}
    (here : loop.pc = .reading rest) (count : Nat) :
    Handover (notes ++ [.quiet]) { loop with
      cmdSockpair := loop.cmdSockpair.drop count,
      pc := .handling (loop.cmdSockpair.take count) false rest } where
  order := by
    rw [filterMap_append_silent _ rfl, filterMap_append_silent _ rfl, handover.order, here]
    rfl
  noticed _ waiting := by
    rcases handover.noticed (by rw [here]; nofun) waiting with owed | byte | due
    · exact .inl owed
    · rw [← List.take_append_drop count loop.cmdSockpair, List.mem_append] at byte
      exact .inr byte.symm
    · rw [here] at due
      exact due.elim
  pending _ := .inr trivial

/-- A command that takes nothing from the queue. -/
theorem Handover.handle (handover : Handover notes loop) {cmds : List ConnLoopCmd}
    {cmdRecvAddFd : Bool} {rest : List ReadyEvent} {pc : LoopPc}
    (here : loop.pc = .handling cmds cmdRecvAddFd rest) (swap : pc.swapLeft = [])
    (due : (LoopPc.handling cmds cmdRecvAddFd rest).SwapDue → pc.SwapDue) (reads : pc.WillRead) :
    Handover (notes ++ [.quiet]) { loop with pc } :=
  handover.keep here ⟨rfl, rfl⟩ rfl rfl rfl rfl nofun swap due fun _ => reads

theorem Handover.register (handover : Handover notes loop) {fd : Int} {socks : List Int}
    {cmds : List ConnLoopCmd} {rest : List ReadyEvent}
    (here : loop.pc = .adding (fd :: socks) cmds rest) (now : TimePoint) :
    Handover (notes ++ [.registered fd]) { loop.addTimer fd now with
      epoll := loop.epollAdd fd, pc := .adding socks cmds rest } := by
  have order := handover.order
  have noticed := handover.noticed (by rw [here]; nofun)
  rw [here] at order noticed
  refine ⟨?_, fun _ waiting => (noticed waiting).imp_right (Or.imp_right False.elim),
    fun _ => .inr trivial⟩
  have said : (LoopNote.registered fd : LoopNote κ).registered? = some fd := rfl
  have silent : (LoopNote.registered fd : LoopNote κ).pushed? = none := rfl
  rw [filterMap_append_silent _ silent, filterMap_append_said _ said, order, List.append_assoc]
  rfl

theorem Handover.loopStep (handover : Handover notes loop) {choice : LoopChoice}
    (step : LoopStep newConn loop choice after note) : Handover (notes ++ [note]) after := by
  cases step with
  | wait here reportable => exact handover.wait here choice.events
  | command here => exact handover.keep here ⟨rfl, rfl⟩ rfl rfl rfl rfl (by simp) rfl id fun _ => trivial
  | hangup here gone => exact handover.event here ⟨rfl, rfl⟩ rfl rfl rfl rfl (.inr rfl)
  | serve here goes => exact handover.event here ⟨rfl, rfl⟩ rfl rfl rfl rfl (.inl rfl)
  | drop here closes => exact handover.event here ⟨rfl, rfl⟩ rfl rfl rfl rfl (.inr rfl)
  | ignore here calm => exact handover.event here ⟨rfl, rfl⟩ rfl rfl rfl rfl (.inl rfl)
  | expire here => exact handover.keep here ⟨rfl, rfl⟩ rfl rfl rfl rfl (by simp) rfl id id
  | dropExpired here => exact handover.keep here ⟨rfl, rfl⟩ rfl rfl rfl rfl (by simp) rfl id id
  | again here => exact handover.keep here ⟨rfl, rfl⟩ rfl rfl rfl rfl (by simp) rfl id id
  | drained here empty => exact handover.drained here empty
  | read here => exact handover.read here choice.count
  | @handled cmdRecvAddFd rest here =>
      refine handover.handle here rfl (fun due => ?_) trivial
      cases cmdRecvAddFd
      · exact absurd due List.not_mem_nil
      · exact due
  | stop here =>
      refine ⟨?_, fun run => absurd rfl run, fun _ => .inr trivial⟩
      rw [filterMap_append_silent _ rfl, filterMap_append_silent _ rfl, handover.order, here]
      rfl
  | swap here =>
      -- The first `CMD_ADD_FD` of a batch takes the whole queue.
      refine ⟨?_, fun _ waiting => absurd rfl waiting, fun _ => .inr trivial⟩
      rw [filterMap_append_silent _ rfl, filterMap_append_silent _ rfl, handover.order, here]
      exact congrArg _ (List.append_nil _).symm
  | @skip cmd cmds cmdRecvAddFd rest here idle =>
      refine handover.handle here rfl (fun due => ?_) trivial
      cases cmdRecvAddFd with
      | true => exact due
      | false =>
          obtain rfl := idle.resolve_right Bool.false_ne_true
          exact (List.mem_cons.mp due).resolve_left (by simp)
  | register here => exact handover.register here choice.now
  | registered here =>
      exact handover.keep here ⟨rfl, rfl⟩ rfl rfl rfl rfl (by simp) rfl False.elim fun _ => trivial
  | @close fd todo here =>
      refine handover.keep here ⟨rfl, rfl⟩ rfl rfl rfl rfl (by simp) rfl id ?_
      cases todo <;> exact id

theorem Handover.cmdSend (handover : Handover notes loop) (cmd : ConnLoopCmd) :
    Handover (notes ++ [.quiet]) (loop.cmdSend cmd) where
  order := by
    rw [filterMap_append_silent _ rfl, filterMap_append_silent _ rfl]
    exact handover.order
  noticed runs waiting := by
    refine (handover.noticed runs waiting).imp_right (Or.imp_left fun byte => ?_)
    exact List.mem_append_left _ byte
  pending _ := .inl rfl

theorem Handover.next (handover : Handover notes loop) {turn : LoopTurn}
    (stepped : next newConn loop turn = some (after, note)) : Handover (notes ++ [note]) after := by
  rcases next_step stepped with step | ⟨choice, -, step⟩
  · cases step with
    | @push fd =>
        refine ⟨?_, fun _ _ => .inl (Nat.succ_ne_zero _), handover.pending⟩
        have said : (LoopNote.pushed fd : LoopNote κ).pushed? = some fd := rfl
        rw [filterMap_append_said _ said, filterMap_append_silent _ rfl, handover.order,
          List.append_assoc, List.append_assoc]
        rfl
    | write owes =>
        have more := handover.cmdSend .addFd
        exact ⟨more.order, fun _ _ => .inr (.inl (List.mem_append_right _ List.mem_cons_self)),
          more.pending⟩
    | send => exact handover.cmdSend _
  · exact handover.loopStep step

theorem Handover.fresh : Handover [] (fresh κ pq) :=
  ⟨rfl, fun _ waiting => absurd rfl waiting, fun some => absurd rfl some⟩

/-- A round of the loop in `add_clisock_to_epoll`: its two calls, for the socket `fd`. -/
structure Registers (loop : ConnLoop κ pq) (fd : Int) (now : TimePoint) (after : ConnLoop κ pq) :
    Prop where
  first : loop.pc.swapLeft = fd :: after.pc.swapLeft
  queued : after.newCliSocks = loop.newCliSocks
  polled : after.epoll = loop.epollAdd fd ∧ fd ∈ after.epoll
  timed : after.timerMgr = loop.timerMgr.addTimer fd (defExpire now) ∧
    after.timerMgr.timerMap.lookup fd = some (defExpire now)

theorem mem_epollAdd (fd : Int) : fd ∈ loop.epollAdd fd := by
  unfold epollAdd
  split
  · assumption
  · exact List.mem_append_right _ List.mem_cons_self

theorem registers_of_next {turn : LoopTurn} {fd : Int}
    (stepped : next newConn loop turn = some (after, .registered fd)) :
    ∃ choice, turn = .loop choice ∧ Registers loop fd choice.now after := by
  rcases next_step stepped with step | ⟨choice, rfl, step⟩
  · cases step
  · cases step with
    | register here =>
        refine ⟨choice, rfl, ?_, rfl, ⟨rfl, mem_epollAdd fd⟩, rfl, ?_⟩
        · rw [here]
          rfl
        · exact (TimerManager.lookup_addTimer fd fd (defExpire choice.now)).trans (if_pos rfl)

/-- Only a registration adds a socket to what is polled. -/
theorem polled_of_next {turn : LoopTurn} {fd : Int}
    (stepped : next newConn loop turn = some (after, note)) (polled : fd ∈ after.epoll)
    (new : fd ∉ loop.epoll) : note = .registered fd := by
  rcases next_step stepped with step | ⟨choice, -, step⟩
  · cases step <;> exact absurd polled new
  · cases step with
    | @register sock socks cmds rest here =>
        dsimp only [epollAdd] at polled
        split at polled
        · exact absurd polled new
        · rcases List.mem_append.mp polled with old | same
          · exact absurd old new
          · rw [List.mem_singleton.mp same]
    | hangup | drop | dropExpired => exact absurd (List.mem_of_mem_erase polled) new
    | _ => exact absurd polled new

/-- What holds after any run whose notes are `notes`. -/
structure HandedOnce (newConn : Int → κ) (notes : List (LoopNote κ)) (loop : ConnLoop κ pq) : Prop
    extends Handover notes loop where
  woken : loop.pc = .waiting → loop.cmdSockpair ≠ [] → loop.edge = true
  /-- A socket taken from the queue is registered by the next step of the loop, whatever the clock. -/
  takes : ∀ fd socks cmds rest, loop.pc = .adding (fd :: socks) cmds rest → ∀ choice, ∃ after,
    loop.loopStep newConn choice = some (after, .registered fd)
  /-- Each registration is one `epoll_add_fd_oneshot` and one `add_timer`. -/
  registers : ∀ turn after fd, next newConn loop turn = some (after, .registered fd) →
    ∃ choice, turn = .loop choice ∧ Registers loop fd choice.now after
  /-- No other step adds a socket to what is polled. -/
  polled : ∀ turn after note fd, next newConn loop turn = some (after, note) →
    fd ∈ after.epoll → fd ∉ loop.epoll → note = .registered fd
  /-- Once the loop is blocked with nothing on its way, every socket is registered. -/
  settled : loop.pc = .waiting → loop.owed = 0 → loop.cmdSockpair = [] →
    notes.filterMap LoopNote.registered? = notes.filterMap LoopNote.pushed?

theorem handed_once (run : (system newConn pq).Runs notes loop) : HandedOnce newConn notes loop := by
  have handover : Handover notes loop := by
    refine @System.Runs.invariant _ _ _ (fun notes loop => Handover notes loop) ?_ ?_ _ _ run
    · intro loop same
      subst same
      exact .fresh
    · intro notes before note after handover held
      obtain ⟨turn, stepped⟩ := held
      exact handover.next stepped
  refine { handover with
    woken := fun here some => ?_
    takes := fun fd socks cmds rest here choice => ?_
    registers := fun _ _ _ => registers_of_next
    polled := fun _ _ _ _ => polled_of_next
    settled := fun here owed none => ?_ }
  · have edge := handover.pending some
    rw [here] at edge
    exact edge.resolve_right List.not_mem_nil
  · unfold loopStep
    rw [here]
    exact ⟨_, rfl⟩
  · have queue : loop.newCliSocks = [] := by
      by_contra waiting
      rcases handover.noticed (by rw [here]; nofun) waiting with due | byte | due
      · exact due owed
      · rw [none] at byte
        cases byte
      · rw [here] at due
        exact due.elim
    rw [handover.order, here, queue]
    exact (List.append_nil _).symm

/-- Two callers push before either writes; the first byte hands over both sockets and
the second finds the queue empty. -/
def twoCallers : List LoopTurn :=
  let turn (events : List ReadyEvent) (count : Nat) : LoopTurn :=
    .loop ⟨events, count, 0, 0, .modConnEventRead⟩
  [.addClisockToQueue 7, .addClisockToQueue 9, .cmdSendAddFd, turn [.cmd] 0, turn [] 0, turn [] 1,
    .cmdSendAddFd, turn [] 0, turn [] 0, turn [] 0, turn [] 0, turn [] 0, turn [] 1, turn [] 0,
    turn [] 0, turn [] 0, turn [] 0, turn [] 0, turn [] 0]

theorem handed_once_two :
    ∃ notes loop, System.follow (next fun _ => ()) (fresh Unit (.sorted TimerNode.expire)) twoCallers =
        some (loop, notes) ∧
      loop.pc = .waiting ∧ notes.filterMap LoopNote.registered? = [7, 9] ∧
      HandedOnce (fun _ => ()) notes loop := by
  have outcome : (System.follow (next fun _ => ()) (fresh Unit (.sorted TimerNode.expire))
      twoCallers).map (fun reached => (reached.1.pc, reached.2.filterMap LoopNote.registered?)) =
      some (.waiting, [7, 9]) := by decide +kernel
  obtain ⟨⟨loop, notes⟩, followed, read⟩ := Option.map_eq_some_iff.mp outcome
  have start : (system (fun _ => ()) (.sorted TimerNode.expire)).Runs [] (fresh Unit _) := .start rfl
  exact ⟨notes, loop, followed, (Prod.mk.inj read).1, (Prod.mk.inj read).2,
    handed_once (start.follow followed)⟩

end ConnLoop

end LiteWebServer
