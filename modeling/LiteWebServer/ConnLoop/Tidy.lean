import LiteWebServer.ConnLoop.Handover

namespace LiteWebServer

open Data

/-! The four stores of a loop agree about its sockets. -/

namespace LoopPc

/-- The expired sockets that are still to be closed. -/
def expiredLeft : LoopPc → List Int
  | .going (.expired rest) | .closing _ (.expired rest) => rest
  | _ => []

/-- The socket that is no longer registered and not yet closed. -/
def closingLeft : LoopPc → List Int
  | .closing fd _ => [fd]
  | _ => []

def socksLeft (pc : LoopPc) : List Int := pc.eventsLeft.filterMap ReadyEvent.sock?

end LoopPc

namespace ConnLoop

variable {κ : Type} {pq : PriorityQueue TimerNode TimerNode.expire} {newConn : Int → κ}

/-- The sockets that are in the hands of the loop: queued, on their way to `epoll`,
registered, or about to be closed. -/
def held (loop : ConnLoop κ pq) : List Int :=
  loop.newCliSocks ++ (loop.pc.swapLeft ++ (loop.epoll ++ loop.pc.closingLeft))

structure Tidy (loop : ConnLoop κ pq) : Prop where
  covered : loop.timerMgr.Covered
  held : loop.held.Nodup
  timed : ∀ fd, fd ∈ loop.epoll ↔ fd ∈ loop.timerMgr.timerMap ∨ fd ∈ loop.pc.expiredLeft
  due : loop.pc.expiredLeft.Nodup
  apart : ∀ fd ∈ loop.pc.expiredLeft, fd ∉ loop.timerMgr.timerMap
  known : ∀ fd ∈ loop.conns, fd ∈ loop.epoll
  batch : loop.pc.socksLeft.Nodup
  live : ∀ fd ∈ loop.pc.socksLeft, fd ∈ loop.epoll

variable {loop after : ConnLoop κ pq} {note : LoopNote κ} {fd : Int}

theorem fresh_tidy : (fresh κ pq).Tidy where
  covered := TimerManager.fresh_covered
  held := List.nodup_nil
  timed fd := by simp [fresh, TimerManager.fresh, LoopPc.expiredLeft]
  due := List.nodup_nil
  apart fd member := by cases member
  known fd member := by cases member
  batch := List.nodup_nil
  live fd member := by cases member

/-- A step that leaves the four stores alone. -/
theorem Tidy.turn (tidy : loop.Tidy) (socks : after.newCliSocks = loop.newCliSocks)
    (epoll : after.epoll = loop.epoll) (conns : after.conns = loop.conns)
    (timers : after.timerMgr = loop.timerMgr) (swap : after.pc.swapLeft = loop.pc.swapLeft)
    (closing : after.pc.closingLeft = loop.pc.closingLeft)
    (expired : after.pc.expiredLeft = loop.pc.expiredLeft)
    (events : after.pc.socksLeft.Sublist loop.pc.socksLeft) : after.Tidy where
  covered := by rw [timers]; exact tidy.covered
  held := by
    rw [ConnLoop.held, socks, swap, epoll, closing]
    exact tidy.held
  timed fd := by rw [epoll, timers, expired]; exact tidy.timed fd
  due := by rw [expired]; exact tidy.due
  apart fd := by rw [expired, timers]; exact tidy.apart fd
  known fd := by rw [conns, epoll]; exact tidy.known fd
  batch := tidy.batch.sublist events
  live fd member := by rw [epoll]; exact tidy.live fd (events.subset member)

theorem Tidy.registered_once (tidy : loop.Tidy) : loop.epoll.Nodup :=
  (tidy.held.sublist (List.sublist_append_right _ _)).sublist
    ((List.sublist_append_left _ _).trans (List.sublist_append_right _ _))

theorem Tidy.addTimer (tidy : loop.Tidy) (registered : fd ∈ loop.epoll)
    (early : loop.pc.expiredLeft = []) (now : TimePoint) : (loop.addTimer fd now).Tidy :=
  { tidy with
    covered := TimerManager.addTimer_covered tidy.covered fd (defExpire now)
    timed := fun other => by
      rw [ConnLoop.addTimer, TimerManager.addTimer]
      dsimp only
      rw [AList.mem_insert, or_assoc, ← tidy.timed]
      exact (or_iff_right_of_imp fun same => same ▸ registered).symm
    apart := fun other member => by
      change other ∈ loop.pc.expiredLeft at member
      rw [early] at member
      cases member }

theorem Tidy.emplaceConn (tidy : loop.Tidy) (registered : fd ∈ loop.epoll) :
    (loop.emplaceConn newConn fd).Tidy :=
  { tidy with
    known := fun other member => by
      unfold ConnLoop.emplaceConn UnorderedMap.emplace at member
      dsimp only at member
      split at member
      · exact tidy.known other member
      · rcases (AList.mem_insert _).mp member with same | before
        · exact same ▸ registered
        · exact tidy.known other before }

theorem handleConnClose_held (registered : fd ∈ loop.epoll) {before : Todo}
    (here : loop.pc = .going before) (todo : Todo) :
    (loop.handleConnClose fd todo).held.Perm loop.held := by
  have perm : (loop.epoll.erase fd ++ [fd]).Perm loop.epoll :=
    (List.perm_append_singleton fd _).trans (List.perm_cons_erase registered).symm
  rw [ConnLoop.held, ConnLoop.held, here]
  change (loop.newCliSocks ++ ([] ++ (loop.epoll.erase fd ++ [fd]))).Perm
    (loop.newCliSocks ++ ([] ++ (loop.epoll ++ [])))
  rw [List.append_nil]
  exact (perm.append_left _).append_left _

/-- Closing a registered socket, which is the head of what is left of the batch or of
the expired sockets. -/
theorem Tidy.handleConnClose (tidy : loop.Tidy) (registered : fd ∈ loop.epoll) {before todo : Todo}
    (here : loop.pc = .going before)
    (head : (∃ flags rest, before = .events (.sock fd flags :: rest) ∧ todo = .events rest) ∨
      ∃ rest, before = .expired (fd :: rest) ∧ todo = .expired rest) :
    (loop.handleConnClose fd todo).Tidy := by
  have gone (other : Int) : other ∈ loop.epoll.erase fd ↔ other ≠ fd ∧ other ∈ loop.epoll :=
    tidy.registered_once.mem_erase_iff
  have timed := tidy.timed
  have due := tidy.due
  have apart := tidy.apart
  have batch := tidy.batch
  have live := tidy.live
  rw [here] at timed due apart batch live
  have stores : (loop.handleConnClose fd todo).timerMgr.Covered ∧
      (loop.handleConnClose fd todo).held.Nodup ∧
      ∀ other ∈ (loop.handleConnClose fd todo).conns,
        other ∈ (loop.handleConnClose fd todo).epoll := by
    refine ⟨TimerManager.rmTimer_covered tidy.covered fd, ?_, fun other member => ?_⟩
    · exact (handleConnClose_held registered here todo).nodup_iff.mpr tidy.held
    · obtain ⟨differs, member⟩ := AList.mem_erase.mp member
      exact (gone other).mpr ⟨differs, tidy.known other member⟩
  rcases head with ⟨flags, rest, rfl, rfl⟩ | ⟨rest, rfl, rfl⟩
  · obtain ⟨notLater, batch⟩ := List.nodup_cons.mp batch
    refine ⟨stores.1, stores.2.1, fun other => ?_, List.nodup_nil, nofun, stores.2.2, batch,
      fun other member => ?_⟩
    · refine (gone other).trans ?_
      rw [timed]
      exact ((AList.mem_erase.trans (and_congr_right fun _ => (or_iff_left List.not_mem_nil).symm)).symm).trans
        (or_iff_left List.not_mem_nil).symm
    · refine (gone other).mpr ⟨?_, live other (List.mem_cons_of_mem _ member)⟩
      intro same
      subst same
      exact notLater member
  · obtain ⟨notLater, due⟩ := List.nodup_cons.mp due
    refine ⟨stores.1, stores.2.1, fun other => ?_, due, fun other member set => ?_, stores.2.2,
      List.nodup_nil, nofun⟩
    · refine (gone other).trans ?_
      rw [timed]
      change _ ↔ other ∈ loop.timerMgr.timerMap.erase fd ∨ other ∈ rest
      rw [AList.mem_erase]
      by_cases same : other = fd
      · subst other
        simp [notLater]
      · simp [same, LoopPc.expiredLeft]
    · exact apart other (List.mem_cons_of_mem _ member) (AList.mem_erase.mp set).2

/-- The expiry pass takes the expired sockets out of the timer map and keeps them apart. -/
theorem Tidy.expire (tidy : loop.Tidy) (here : loop.pc = .going (.events [])) (now : TimePoint) :
    Tidy { loop with
      timerMgr := (loop.timerMgr.handleExpiredTimers now []).1,
      pc := .going (.expired (loop.timerMgr.handleExpiredTimers now []).2) } := by
  obtain ⟨due, expires, listed, covered, kept⟩ :=
    TimerManager.handleExpiredTimers_spec tidy.covered now []
  rw [List.nil_append] at listed
  have timed := tidy.timed
  have held := tidy.held
  rw [ConnLoop.held, here] at held
  rw [here] at timed
  have set_iff (other : Int) :
      other ∈ (loop.timerMgr.handleExpiredTimers now []).1.timerMap ↔
        ∃ expire, loop.timerMgr.timerMap.lookup other = some expire ∧ now < expire := by
    rw [← AList.lookup_isSome, kept]
    cases loop.timerMgr.timerMap.lookup other with
    | none => simp
    | some expire =>
        rw [Option.filter_some]
        by_cases later : now < expire <;> simp [later]
  refine ⟨covered, held, fun other => ?_, ?_, fun other member set => ?_, tidy.known, List.nodup_nil,
    nofun⟩
  · change _ ↔ other ∈ _ ∨ other ∈ (loop.timerMgr.handleExpiredTimers now []).2
    rw [listed, set_iff, expires.mem_ids]
    refine (timed other).trans ((or_iff_left List.not_mem_nil).trans ?_)
    rw [← AList.lookup_isSome, Option.isSome_iff_exists]
    constructor
    · intro held
      obtain ⟨expire, found⟩ := held
      rcases lt_or_ge now expire with later | early
      · exact .inl ⟨expire, found, later⟩
      · exact .inr ⟨expire, found, early⟩
    · intro either
      rcases either with ⟨expire, found, -⟩ | ⟨expire, found, -⟩ <;> exact ⟨expire, found⟩
  · change (loop.timerMgr.handleExpiredTimers now []).2.Nodup
    rw [listed]
    exact expires.once
  · change other ∈ (loop.timerMgr.handleExpiredTimers now []).2 at member
    rw [listed, expires.mem_ids] at member
    obtain ⟨expire, found, early⟩ := member
    obtain ⟨expire', found', later⟩ := (set_iff other).mp set
    rw [found, Option.some.injEq] at found'
    exact absurd (found' ▸ later) (not_lt.mpr early)

theorem Tidy.register (tidy : loop.Tidy) {socks : List Int} {cmds : List ConnLoopCmd}
    {rest : List ReadyEvent} (here : loop.pc = .adding (fd :: socks) cmds rest) (now : TimePoint) :
    Tidy { loop.addTimer fd now with epoll := loop.epollAdd fd, pc := .adding socks cmds rest } ∧
      (ConnLoop.held { loop.addTimer fd now with
        epoll := loop.epollAdd fd, pc := .adding socks cmds rest }).Perm loop.held := by
  have held := tidy.held
  have timed := tidy.timed
  have batch := tidy.batch
  have live := tidy.live
  rw [ConnLoop.held, here] at held
  rw [here] at timed batch live
  have new : fd ∉ loop.epoll := by
    intro member
    have inner := held.sublist (List.sublist_append_right _ _)
    exact List.disjoint_of_nodup_append inner List.mem_cons_self (List.mem_append_left _ member)
  have shape : loop.epollAdd fd = loop.epoll ++ [fd] := if_neg new
  have grows {other : Int} (member : other ∈ loop.epoll) : other ∈ loop.epoll ++ [fd] :=
    List.mem_append_left _ member
  have perm : (ConnLoop.held { loop.addTimer fd now with
      epoll := loop.epollAdd fd, pc := .adding socks cmds rest }).Perm loop.held := by
    rw [ConnLoop.held, ConnLoop.held, here]
    refine List.Perm.append_left _ ?_
    change (socks ++ (loop.epollAdd fd ++ [])).Perm (fd :: socks ++ (loop.epoll ++ []))
    rw [shape, List.append_nil, List.append_nil, ← List.append_assoc]
    exact List.perm_append_singleton fd _
  refine ⟨?_, perm⟩
  refine ⟨TimerManager.addTimer_covered tidy.covered fd (defExpire now), perm.nodup_iff.mpr tidy.held,
    fun other => ?_, List.nodup_nil, nofun, fun other member => ?_, batch, fun other member => ?_⟩
  · change other ∈ loop.epollAdd fd ↔ other ∈ loop.timerMgr.timerMap.insert fd _ ∨ other ∈ []
    rw [shape, AList.mem_insert, List.mem_append, List.mem_singleton, timed]
    simp only [LoopPc.expiredLeft, List.not_mem_nil, or_false]
    exact or_comm
  · change other ∈ loop.epollAdd fd
    rw [shape]
    exact grows (tidy.known other member)
  · change other ∈ loop.epollAdd fd
    rw [shape]
    exact grows (live other member)

theorem lookup_of_erase {conns : UnorderedMap Int κ} {other : Int} {conn : κ}
    (found : (conns.erase fd).lookup other = some conn) : conns.lookup other = some conn := by
  by_cases same : other = fd
  · subst other
    rw [AList.lookup_erase] at found
    cases found
  · rwa [AList.lookup_erase_ne same] at found

/-- How the sockets in the hands of the loop change with a step that shows `note`. -/
def Moves : LoopNote κ → List Int → List Int → Prop
  | .pushed fd, before, after => after.Perm (fd :: before)
  | .closed fd, before, after => before.Perm (fd :: after)
  | _, before, after => after.Perm before

/-- What others can rely on in a step of a loop. -/
structure Effect (newConn : Int → κ) (loop : ConnLoop κ pq) (note : LoopNote κ)
    (after : ConnLoop κ pq) : Prop where
  held : Moves note loop.held after.held
  conns : ∀ fd conn, after.conns.lookup fd = some conn →
    loop.conns.lookup fd = some conn ∨ conn = newConn fd
  dispatched : ∀ fd conn, note = .dispatched fd conn → fd ∈ loop.epoll ∧
    (loop.conns.lookup fd = some conn ∨ conn = newConn fd)
  closed : ∀ fd, note = .closed fd → fd ∉ after.conns

theorem Effect.still (held : after.held.Perm loop.held)
    (conns : ∀ fd conn, after.conns.lookup fd = some conn → loop.conns.lookup fd = some conn)
    (plain : note = .quiet ∨ ∃ fd, note = .registered fd) : Effect newConn loop note after := by
  rcases plain with rfl | ⟨fd, rfl⟩
  · exact ⟨held, fun fd conn found => .inl (conns fd conn found), nofun, nofun⟩
  · exact ⟨held, fun fd conn found => .inl (conns fd conn found), nofun, nofun⟩

theorem emplaceConn_lookup {other : Int} {conn : κ}
    (found : (loop.emplaceConn newConn fd).conns.lookup other = some conn) :
    loop.conns.lookup other = some conn ∨ conn = newConn other := by
  rw [ConnLoop.emplaceConn, UnorderedMap.lookup_emplace] at found
  cases old : loop.conns.lookup other with
  | some before =>
      rw [old, Option.some_or] at found
      exact .inl found
  | none =>
      rw [old, Option.none_or] at found
      split at found
      · rename_i same
        rw [same]
        exact .inr (Option.some.inj found).symm
      · cases found

/-- A method of the connection of `fd` is called, the one that was there or a new one. -/
theorem Effect.dispatch (registered : fd ∈ loop.epoll) (held : after.held.Perm loop.held)
    (conns : ∀ other conn, after.conns.lookup other = some conn →
      (loop.emplaceConn newConn fd).conns.lookup other = some conn) :
    Effect newConn loop (.dispatched fd (loop.connOf newConn fd)) after := by
  refine ⟨held, fun other conn found => emplaceConn_lookup (conns other conn found), ?_, nofun⟩
  intro other conn same
  cases same
  refine ⟨registered, ?_⟩
  rw [ConnLoop.connOf]
  cases found : (loop.emplaceConn newConn fd).conns.lookup fd with
  | none => exact .inr rfl
  | some old => exact emplaceConn_lookup found

/-- The loop goes on to the next event. -/
theorem Tidy.advance (tidy : loop.Tidy) {flags : ReadyFlags} {rest : List ReadyEvent}
    (here : loop.pc = .going (.events (.sock fd flags :: rest))) :
    Tidy { loop with pc := .going (.events rest) } ∧
      ConnLoop.held { loop with pc := .going (.events rest) } = loop.held := by
  refine ⟨tidy.turn rfl rfl rfl rfl (by rw [here]; rfl) (by rw [here]; rfl) (by rw [here]; rfl) ?_, ?_⟩
  · rw [here]
    exact List.sublist_cons_self _ _
  · rw [ConnLoop.held, ConnLoop.held, here]
    rfl

theorem Tidy.serve (tidy : loop.Tidy) {flags : ReadyFlags} {rest : List ReadyEvent}
    (here : loop.pc = .going (.events (.sock fd flags :: rest))) (now later : TimePoint) :
    Tidy { ((loop.emplaceConn newConn fd).addTimer fd now).addTimer fd later with
        pc := .going (.events rest) } ∧
      Effect newConn loop (.dispatched fd (loop.connOf newConn fd))
        { ((loop.emplaceConn newConn fd).addTimer fd now).addTimer fd later with
          pc := .going (.events rest) } := by
  have registered : fd ∈ loop.epoll := tidy.live fd (by rw [here]; exact List.mem_cons_self)
  have early : loop.pc.expiredLeft = [] := by rw [here]; rfl
  have made : (loop.emplaceConn newConn fd).Tidy := tidy.emplaceConn registered
  have first := made.addTimer registered early now
  have second := first.addTimer registered early later
  obtain ⟨goes, same⟩ := second.advance here
  exact ⟨goes, .dispatch registered (.of_eq same) fun _ _ found => found⟩

theorem Tidy.drop (tidy : loop.Tidy) {flags : ReadyFlags} {rest : List ReadyEvent}
    (here : loop.pc = .going (.events (.sock fd flags :: rest))) (now : TimePoint) :
    (((loop.emplaceConn newConn fd).addTimer fd now).handleConnClose fd (.events rest)).Tidy ∧
      Effect newConn loop (.dispatched fd (loop.connOf newConn fd))
        (((loop.emplaceConn newConn fd).addTimer fd now).handleConnClose fd (.events rest)) := by
  have registered : fd ∈ loop.epoll := tidy.live fd (by rw [here]; exact List.mem_cons_self)
  have early : loop.pc.expiredLeft = [] := by rw [here]; rfl
  have made : (loop.emplaceConn newConn fd).Tidy := tidy.emplaceConn registered
  have first := made.addTimer registered early now
  refine ⟨first.handleConnClose registered here (.inl ⟨flags, rest, rfl, rfl⟩),
    .dispatch registered ?_ fun _ _ found => lookup_of_erase found⟩
  exact @handleConnClose_held _ _ ((loop.emplaceConn newConn fd).addTimer fd now) fd registered _ here _

/-- A step that leaves the four stores alone and goes from one place to another. -/
theorem Tidy.move (tidy : loop.Tidy) {old pc : LoopPc} {cmdSockpair : List ConnLoopCmd}
    (here : loop.pc = old) (swap : pc.swapLeft = old.swapLeft)
    (closing : pc.closingLeft = old.closingLeft) (expired : pc.expiredLeft = old.expiredLeft)
    (events : pc.socksLeft.Sublist old.socksLeft) :
    Tidy { loop with pc, cmdSockpair } ∧ Effect newConn loop .quiet { loop with pc, cmdSockpair } := by
  subst old
  refine ⟨tidy.turn rfl rfl rfl rfl swap closing expired events,
    .still (.of_eq ?_) (fun _ _ found => found) (.inl rfl)⟩
  rw [ConnLoop.held, ConnLoop.held]
  dsimp only
  rw [swap, closing]

theorem Tidy.wait (tidy : loop.Tidy) (here : loop.pc = .waiting) {events : List ReadyEvent}
    (reportable : loop.Reportable events) (edge : Bool) :
    Tidy { loop with edge, pc := .going (.events events) } ∧
      Effect newConn loop .quiet { loop with edge, pc := .going (.events events) } := by
  obtain ⟨once, live⟩ := reportable
  have held : ConnLoop.held { loop with edge, pc := .going (.events events) } = loop.held := by
    rw [ConnLoop.held, ConnLoop.held, here]
    rfl
  have timed := tidy.timed
  rw [here] at timed
  refine ⟨⟨tidy.covered, held ▸ tidy.held, timed, List.nodup_nil, nofun, tidy.known, ?_, ?_⟩,
    .still (.of_eq held) (fun _ _ found => found) (.inl rfl)⟩
  · change (events.filterMap ReadyEvent.sock?).Nodup
    have sources : ((events.map ReadyEvent.sock?).filterMap id).Nodup :=
      once.filterMap fun _ _ _ first second => first.trans second.symm
    rwa [List.filterMap_map] at sources
  · intro fd member
    obtain ⟨event, member, sock⟩ := List.mem_filterMap.mp member
    have reported := live event member
    cases event with
    | cmd => cases sock
    | sock fd' flags =>
        cases sock
        exact reported

theorem Tidy.swap (tidy : loop.Tidy) {cmds : List ConnLoopCmd} {rest : List ReadyEvent}
    (here : loop.pc = .handling (.addFd :: cmds) false rest) :
    Tidy { loop with newCliSocks := [], pc := .adding loop.newCliSocks cmds rest } ∧
      Effect newConn loop .quiet
        { loop with newCliSocks := [], pc := .adding loop.newCliSocks cmds rest } := by
  have held : ConnLoop.held { loop with
      newCliSocks := [], pc := .adding loop.newCliSocks cmds rest } = loop.held := by
    rw [ConnLoop.held, ConnLoop.held, here]
    rfl
  have timed := tidy.timed
  have batch := tidy.batch
  have live := tidy.live
  rw [here] at timed batch live
  exact ⟨⟨tidy.covered, held ▸ tidy.held, timed, List.nodup_nil, nofun, tidy.known, batch, live⟩,
    .still (.of_eq held) (fun _ _ found => found) (.inl rfl)⟩

theorem Tidy.close (tidy : loop.Tidy) {todo : Todo} (here : loop.pc = .closing fd todo) :
    Tidy { loop with pc := .going todo } ∧
      Effect newConn loop (.closed fd) { loop with pc := .going todo } := by
  have held := tidy.held
  have timed := tidy.timed
  have due := tidy.due
  have apart := tidy.apart
  have batch := tidy.batch
  have live := tidy.live
  rw [here] at timed due apart batch live
  have perm : loop.held.Perm (fd :: ConnLoop.held { loop with pc := .going todo }) := by
    rw [ConnLoop.held, ConnLoop.held, here]
    change (loop.newCliSocks ++ ([] ++ (loop.epoll ++ [fd]))).Perm
      (fd :: (loop.newCliSocks ++ ([] ++ (loop.epoll ++ []))))
    rw [List.append_nil, List.nil_append, List.nil_append, ← List.append_assoc]
    exact List.perm_append_singleton fd _
  obtain ⟨notHeld, once⟩ := List.nodup_cons.mp (perm.nodup_iff.mp held)
  refine ⟨?_, perm, fun _ _ found => .inl found, nofun, fun other same member => ?_⟩
  · cases todo with
    | events rest => exact ⟨tidy.covered, once, timed, due, apart, tidy.known, batch, live⟩
    | expired rest => exact ⟨tidy.covered, once, timed, due, apart, tidy.known, batch, live⟩
  · cases same
    exact notHeld (List.mem_append_right _ (List.mem_append_right _
      (List.mem_append_left _ (tidy.known fd member))))

theorem Tidy.loopStep (tidy : loop.Tidy) {choice : LoopChoice}
    (stepped : loop.loopStep newConn choice = some (after, note)) :
    after.Tidy ∧ Effect newConn loop note after := by
  cases loopStep_step stepped with
  | wait here reportable => exact tidy.wait here reportable _
  | command here => exact tidy.move here rfl rfl rfl (.refl _)
  | @hangup fd flags rest here gone =>
      have registered : fd ∈ loop.epoll := tidy.live fd (by rw [here]; exact List.mem_cons_self)
      exact ⟨tidy.handleConnClose registered here (.inl ⟨flags, rest, rfl, rfl⟩),
        .still (handleConnClose_held registered here _) (fun _ _ found => lookup_of_erase found)
          (.inl rfl)⟩
  | serve here goes => exact tidy.serve here choice.now choice.later
  | drop here closes => exact tidy.drop here choice.now
  | @ignore fd flags rest here calm =>
      have registered : fd ∈ loop.epoll := tidy.live fd (by rw [here]; exact List.mem_cons_self)
      have made : (loop.emplaceConn newConn fd).Tidy := tidy.emplaceConn registered
      obtain ⟨goes, same⟩ := made.advance here
      exact ⟨goes, .of_eq same, fun _ _ => emplaceConn_lookup, nofun, nofun⟩
  | expire here =>
      refine ⟨tidy.expire here choice.now, .still (.of_eq ?_) (fun _ _ found => found) (.inl rfl)⟩
      rw [ConnLoop.held, ConnLoop.held, here]
      rfl
  | @dropExpired fd rest here =>
      have registered : fd ∈ loop.epoll :=
        (tidy.timed fd).mpr (.inr (by rw [here]; exact List.mem_cons_self))
      exact ⟨tidy.handleConnClose registered here (.inr ⟨rest, rfl, rfl⟩),
        .still (handleConnClose_held registered here _) (fun _ _ found => lookup_of_erase found)
          (.inl rfl)⟩
  | again here => exact tidy.move here rfl rfl rfl (.refl _)
  | drained here empty => exact tidy.move here rfl rfl rfl (.refl _)
  | read here => exact tidy.move here rfl rfl rfl (.refl _)
  | handled here => exact tidy.move here rfl rfl rfl (.refl _)
  | stop here => exact tidy.move here rfl rfl rfl (List.nil_sublist _)
  | swap here => exact tidy.swap here
  | skip here idle => exact tidy.move here rfl rfl rfl (.refl _)
  | @register fd socks cmds rest here =>
      obtain ⟨tidy', perm⟩ := tidy.register here choice.now
      exact ⟨tidy', .still perm (fun _ _ found => found) (.inr ⟨fd, rfl⟩)⟩
  | registered here => exact tidy.move here rfl rfl rfl (.refl _)
  | close here => exact tidy.close here

theorem LoopStep.not_pushed {choice : LoopChoice} (step : LoopStep newConn loop choice after note) :
    note.pushed? = none := by
  cases step <;> rfl

theorem Tidy.addClisockToQueue (tidy : loop.Tidy) (new : fd ∉ loop.held) :
    (loop.addClisockToQueue fd).Tidy ∧
      Effect newConn loop (.pushed fd) (loop.addClisockToQueue fd) := by
  have perm : (loop.addClisockToQueue fd).held.Perm (fd :: loop.held) := by
    rw [ConnLoop.held, ConnLoop.held]
    change (loop.newCliSocks ++ [fd] ++ _).Perm (fd :: (loop.newCliSocks ++ _))
    rw [List.append_assoc]
    exact List.perm_middle
  exact ⟨⟨tidy.covered, perm.nodup_iff.mpr (List.nodup_cons.mpr ⟨new, tidy.held⟩), tidy.timed, tidy.due,
    tidy.apart, tidy.known, tidy.batch, tidy.live⟩, perm, fun _ _ found => .inl found, nofun, nofun⟩

theorem Tidy.cmdSendAddFd (tidy : loop.Tidy) (sent : loop.cmdSendAddFd = some after) :
    after.Tidy ∧ Effect newConn loop .quiet after := by
  cases cmdSendAddFd_step sent with
  | _ =>
      exact ⟨tidy.turn rfl rfl rfl rfl rfl rfl rfl (.refl _),
        .still (.refl _) (fun _ _ found => found) (.inl rfl)⟩

end ConnLoop

end LiteWebServer
