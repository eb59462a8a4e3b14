import LiteWebServer.ConnLoop.Tidy
import LiteWebServer.Data.IdleWatch

namespace LiteWebServer

open Data

/-! The timers of a loop find its idle connections, those and no others. -/

namespace ConnLoop

variable {κ : Type} {pq : PriorityQueue TimerNode TimerNode.expire}

/-- What a step of the loop means for idle sockets.  A socket is touched when it is
registered and when an event of it is handled, at the last reading of the step. -/
def watchNote (loop : ConnLoop κ pq) (choice : LoopChoice) : LoopNote κ → WatchNote Int TimePoint
  | .registered fd => .touched fd choice.now true
  | .dispatched fd _ =>
      if choice.call = .connClose then .touched fd choice.now false
      else .touched fd choice.later true
  | .pushed _ | .closed _ => .quiet
  | .quiet =>
      match loop.pc with
      | .going (.events []) => .passed choice.now
      | .going (.events (.sock fd flags :: _)) => if flags.hangup then .dropped fd else .quiet
      | .going (.expired (fd :: _)) => .expired fd
      | _ => .quiet

end ConnLoop

/-- A loop and the time up to which its clock was read. -/
structure TimedLoop (κ : Type) (pq : PriorityQueue TimerNode TimerNode.expire) where
  loop : ConnLoop κ pq
  clock : TimePoint

namespace TimedLoop

variable {κ : Type} {pq : PriorityQueue TimerNode TimerNode.expire} {newConn : Int → κ}

/-- The clock never goes back.  For a step with fewer readings, the choice repeats one. -/
def next (newConn : Int → κ) (timed : TimedLoop κ pq) :
    LoopTurn → Option (TimedLoop κ pq × WatchNote Int TimePoint)
  | .loop choice =>
      if timed.clock ≤ choice.now ∧ choice.now ≤ choice.later then
        (timed.loop.loopStep newConn choice).map fun stepped =>
          (⟨stepped.1, choice.later⟩, timed.loop.watchNote choice stepped.2)
      else none
  | turn => (timed.loop.next newConn turn).map fun stepped => (⟨stepped.1, timed.clock⟩, .quiet)

/-- A loop under any callers, any events and any clock that does not go back. -/
def system (newConn : Int → κ) (pq : PriorityQueue TimerNode TimerNode.expire) :
    System (TimedLoop κ pq) (WatchNote Int TimePoint) :=
  .ofNext (fun timed => timed.loop = .fresh κ pq) (next newConn)

/-- The timers that are set are the deadlines of what is watched. -/
structure Watched (timed : TimedLoop κ pq) (watch : Watch Int TimePoint) : Prop where
  clock : watch.clock ≤ timed.clock
  covered : timed.loop.timerMgr.Covered
  once : timed.loop.epoll.Nodup
  timers : ∀ fd, timed.loop.timerMgr.timerMap.lookup fd = (watch.last fd).map ConnLoop.defExpire
  registered : ∀ fd ∈ timed.loop.epoll, (watch.last fd).isSome ∨ fd ∈ timed.loop.pc.expiredLeft
  due : watch.due = timed.loop.pc.expiredLeft

variable {timed : TimedLoop κ pq} {watch : Watch Int TimePoint} {after : ConnLoop κ pq}
  {clock : TimePoint} {fd : Int}

/-- A step that leaves the timers and the registered sockets alone. -/
theorem Watched.still (watched : Watched timed watch) (order : timed.clock ≤ clock)
    (timers : after.timerMgr = timed.loop.timerMgr) (epoll : after.epoll = timed.loop.epoll)
    (due : after.pc.expiredLeft = timed.loop.pc.expiredLeft) : Watched ⟨after, clock⟩ watch where
  clock := watched.clock.trans order
  covered := by rw [timers]; exact watched.covered
  once := by rw [epoll]; exact watched.once
  timers := by rw [timers]; exact watched.timers
  registered := by rw [epoll, due]; exact watched.registered
  due := by rw [due]; exact watched.due

/-- A step after which `fd` has the timer of `touch`, or none, and the rest is as it was. -/
theorem Watched.update (watched : Watched timed watch) {touch : Option TimePoint}
    {now : TimePoint} {due : List Int} (order : now ≤ clock) (covered : after.timerMgr.Covered)
    (once : after.epoll.Nodup)
    (timers : ∀ other, after.timerMgr.timerMap.lookup other =
      if other = fd then touch.map ConnLoop.defExpire
      else timed.loop.timerMgr.timerMap.lookup other)
    (epoll : ∀ other ∈ after.epoll,
      if other = fd then touch.isSome else other ∈ timed.loop.epoll)
    (left : due = after.pc.expiredLeft) (keeps : ∀ other ∈ watch.due, other ≠ fd → other ∈ due) :
    Watched ⟨after, clock⟩ ⟨now, Function.update watch.last fd touch, due⟩ where
  clock := order
  covered := covered
  once := once
  timers other := by
    dsimp only
    rw [timers, Function.update_apply]
    split
    · rfl
    · exact watched.timers other
  registered other member := by
    have known := epoll other member
    dsimp only
    rw [Function.update_apply, ← left]
    split at known
    · rename_i same
      rw [if_pos same]
      exact .inl known
    · rename_i differs
      rw [if_neg differs]
      refine (watched.registered other known).imp_right fun listed => keeps other ?_ differs
      rwa [watched.due]
  due := left

theorem Watched.handleConnClose (watched : Watched timed watch) {todo : Todo} {due : List Int}
    (order : timed.clock ≤ clock) (left : due = (LoopPc.closing fd todo).expiredLeft)
    (keeps : ∀ other ∈ watch.due, other ≠ fd → other ∈ due) :
    Watched ⟨timed.loop.handleConnClose fd todo, clock⟩
      ⟨watch.clock, Function.update watch.last fd none, due⟩ := by
  refine watched.update (watched.clock.trans order) (TimerManager.rmTimer_covered watched.covered fd)
    (watched.once.erase fd) (TimerManager.lookup_rmTimer fd) (fun other member => ?_) left keeps
  obtain ⟨differs, member⟩ := watched.once.mem_erase_iff.mp member
  rwa [if_neg differs]

theorem Watched.addTimer (watched : Watched timed watch) {now : TimePoint} (order : now ≤ clock) :
    Watched ⟨timed.loop.addTimer fd now, clock⟩
      { watch with clock := now, last := Function.update watch.last fd (some now) } := by
  refine watched.update order (TimerManager.addTimer_covered watched.covered fd _) watched.once
    (TimerManager.lookup_addTimer fd · _) (fun other member => ?_) watched.due fun _ member _ => member
  split
  · rfl
  · exact member

theorem Watched.emplaceConn (watched : Watched timed watch) (newConn : Int → κ) (fd : Int) :
    Watched ⟨timed.loop.emplaceConn newConn fd, timed.clock⟩ watch :=
  watched.still (le_refl _) rfl rfl rfl

/-- An event is handled at the second reading, unless the connection is closed. -/
theorem Watched.serve (watched : Watched timed watch) {flags : ReadyFlags} {rest : List ReadyEvent}
    (here : timed.loop.pc = .going (.events (.sock fd flags :: rest))) {now later : TimePoint}
    (order : now ≤ later) :
    Watched ⟨{ ((timed.loop.emplaceConn newConn fd).addTimer fd now).addTimer fd later with
        pc := .going (.events rest) }, later⟩
      { watch with clock := later, last := Function.update watch.last fd (some later) } := by
  have first := @Watched.addTimer _ _ _ _ _ fd (watched.emplaceConn newConn fd) _ order
  have second := @Watched.addTimer _ _ _ _ _ fd first _ (le_refl later)
  rw [Function.update_idem] at second
  refine second.still (le_refl _) rfl rfl ?_
  change _ = timed.loop.pc.expiredLeft
  rw [here]
  rfl

theorem Watched.drop (watched : Watched timed watch) {flags : ReadyFlags} {rest : List ReadyEvent}
    (here : timed.loop.pc = .going (.events (.sock fd flags :: rest))) {now later : TimePoint}
    (order : now ≤ later) :
    Watched ⟨((timed.loop.emplaceConn newConn fd).addTimer fd now).handleConnClose fd (.events rest),
        later⟩
      { watch with clock := now, last := Function.update watch.last fd none } := by
  have first := @Watched.addTimer _ _ _ _ _ fd (watched.emplaceConn newConn fd) _ order
  have none_due : watch.due = (LoopPc.closing fd (.events rest)).expiredLeft := by
    rw [watched.due, here]
    rfl
  have closed := @Watched.handleConnClose _ _ _ _ _ fd first (.events rest) _ (le_refl later) none_due
    fun _ member _ => member
  rwa [Function.update_idem] at closed

theorem Watched.register (watched : Watched timed watch) {socks : List Int}
    {cmds : List ConnLoopCmd} {rest : List ReadyEvent}
    (here : timed.loop.pc = .adding (fd :: socks) cmds rest) {now : TimePoint}
    (order : now ≤ clock) :
    Watched ⟨{ timed.loop.addTimer fd now with
        epoll := timed.loop.epollAdd fd, pc := .adding socks cmds rest }, clock⟩
      { watch with clock := now, last := Function.update watch.last fd (some now) } := by
  refine watched.update order (TimerManager.addTimer_covered watched.covered fd _) ?_
    (TimerManager.lookup_addTimer fd · _) (fun other member => ?_)
    (watched.due.trans (by rw [here]; rfl)) fun _ member _ => member
  · dsimp only
    unfold ConnLoop.epollAdd
    split
    · exact watched.once
    · rename_i new
      exact (List.perm_append_singleton fd _).nodup_iff.mpr (List.nodup_cons.mpr ⟨new, watched.once⟩)
  · split
    · rfl
    · rename_i differs
      dsimp only at member
      unfold ConnLoop.epollAdd at member
      split at member
      · exact member
      · exact (List.mem_append.mp member).resolve_right fun this => differs (List.mem_singleton.mp this)

/-- The expiry pass takes the timers whose deadlines are over, and those only. -/
theorem Watched.pass (watched : Watched timed watch) (here : timed.loop.pc = .going (.events []))
    {now : TimePoint} (early : timed.clock ≤ now) (order : now ≤ clock) :
    ∃ next, Watch.Step ConnLoop.defExpire watch (.passed now) next ∧
      Watched ⟨{ timed.loop with
        timerMgr := (timed.loop.timerMgr.handleExpiredTimers now []).1,
        pc := .going (.expired (timed.loop.timerMgr.handleExpiredTimers now []).2) }, clock⟩ next := by
  obtain ⟨due, expires, listed, covered, kept⟩ :=
    TimerManager.handleExpiredTimers_spec watched.covered now []
  rw [List.nil_append] at listed
  have none_due : watch.due = [] := by
    rw [watched.due, here]
    rfl
  have due_iff (fd : Int) : fd ∈ due.map TimerNode.id ↔
      ∃ touch, watch.last fd = some touch ∧ ConnLoop.defExpire touch ≤ now := by
    rw [expires.mem_ids, watched.timers]
    cases watch.last fd <;> simp
  refine ⟨⟨now, fun fd => (watch.last fd).filter (now < ConnLoop.defExpire ·), due.map TimerNode.id⟩,
    ⟨watched.clock.trans early, none_due, rfl, expires.once, due_iff, fun _ => rfl⟩,
    order, covered, watched.once, fun fd => ?_, fun fd member => ?_, listed.symm⟩
  · dsimp only
    rw [kept, watched.timers]
    cases watch.last fd with
    | none => rfl
    | some touch =>
        rw [Option.map_some, Option.filter_some, Option.filter_some]
        split <;> rfl
  · change _ ∨ fd ∈ (timed.loop.timerMgr.handleExpiredTimers now []).2
    rw [listed, due_iff]
    have known := watched.registered fd member
    rw [← watched.due, none_due, or_iff_left List.not_mem_nil, Option.isSome_iff_exists] at known
    obtain ⟨touch, found⟩ := known
    rcases lt_or_ge now (ConnLoop.defExpire touch) with later | overdue
    · left
      simp [found, later]
    · exact .inr ⟨touch, found, overdue⟩

theorem Watched.loopStep (watched : Watched timed watch) {choice : LoopChoice} {note : LoopNote κ}
    (early : timed.clock ≤ choice.now) (order : choice.now ≤ choice.later)
    (step : ConnLoop.LoopStep newConn timed.loop choice after note) :
    ∃ next, Watch.Step ConnLoop.defExpire watch (timed.loop.watchNote choice note) next ∧
      Watched ⟨after, choice.later⟩ next := by
  have on := early.trans order
  have started := watched.clock.trans early
  have due := watched.due
  -- The steps that show nothing leave the timers and the registered sockets alone.
  have quiet {after : ConnLoop κ pq} {old : LoopPc} (here : timed.loop.pc = old)
      (said : timed.loop.watchNote choice .quiet = .quiet)
      (timers : after.timerMgr = timed.loop.timerMgr) (epoll : after.epoll = timed.loop.epoll)
      (left : after.pc.expiredLeft = old.expiredLeft) :
      ∃ next, Watch.Step ConnLoop.defExpire watch (timed.loop.watchNote choice .quiet) next ∧
        Watched ⟨after, choice.later⟩ next := by
    rw [said]
    exact ⟨watch, rfl, watched.still on timers epoll (by rw [left, here])⟩
  cases step with
  | wait here reportable => exact quiet here (by rw [ConnLoop.watchNote, here]) rfl rfl rfl
  | command here => exact quiet here (by rw [ConnLoop.watchNote, here]) rfl rfl rfl
  | hangup here gone =>
      rw [ConnLoop.watchNote, here]
      dsimp only
      rw [if_pos gone]
      rw [here] at due
      exact ⟨_, rfl, watched.handleConnClose on due fun _ member _ => member⟩
  | serve here goes =>
      rw [ConnLoop.watchNote, if_neg goes]
      rw [here] at due
      exact ⟨_, ⟨started.trans order, due, rfl⟩, watched.serve here order⟩
  | drop here closes =>
      rw [ConnLoop.watchNote, if_pos closes]
      rw [here] at due
      exact ⟨_, ⟨started, due, rfl⟩, watched.drop here order⟩
  | ignore here calm =>
      refine quiet here ?_ rfl rfl rfl
      rw [ConnLoop.watchNote, here]
      exact if_neg (Bool.eq_false_iff.mp calm)
  | expire here =>
      rw [ConnLoop.watchNote, here]
      exact watched.pass here early order
  | @dropExpired fd rest here =>
      rw [ConnLoop.watchNote, here]
      rw [here] at due
      refine ⟨⟨_, _, rest⟩, ⟨due, rfl, rfl⟩, watched.handleConnClose on rfl fun other member differs => ?_⟩
      rw [due] at member
      exact List.mem_of_ne_of_mem differs member
  | again here => exact quiet here (by rw [ConnLoop.watchNote, here]) rfl rfl rfl
  | drained here empty => exact quiet here (by rw [ConnLoop.watchNote, here]) rfl rfl rfl
  | read here => exact quiet here (by rw [ConnLoop.watchNote, here]) rfl rfl rfl
  | handled here => exact quiet here (by rw [ConnLoop.watchNote, here]) rfl rfl rfl
  | stop here => exact quiet here (by rw [ConnLoop.watchNote, here]) rfl rfl rfl
  | swap here => exact quiet here (by rw [ConnLoop.watchNote, here]) rfl rfl rfl
  | skip here idle => exact quiet here (by rw [ConnLoop.watchNote, here]) rfl rfl rfl
  | register here =>
      rw [here] at due
      exact ⟨_, ⟨started, due, rfl⟩, watched.register here order⟩
  | registered here => exact quiet here (by rw [ConnLoop.watchNote, here]) rfl rfl rfl
  | @close fd todo here =>
      refine ⟨watch, rfl, watched.still on rfl rfl ?_⟩
      rw [here]
      cases todo <;> rfl

theorem Watched.caller (watched : Watched timed watch) {note : LoopNote κ}
    (step : ConnLoop.CallerStep timed.loop after note) : Watched ⟨after, timed.clock⟩ watch := by
  cases step <;> exact watched.still (le_refl _) rfl rfl rfl

theorem Watched.next (watched : Watched timed watch) {turn : LoopTurn} {moved : TimedLoop κ pq}
    {note : WatchNote Int TimePoint} (stepped : next newConn timed turn = some (moved, note)) :
    ∃ image, Watch.Step ConnLoop.defExpire watch note image ∧ Watched moved image := by
  cases turn with
  | loop choice =>
      rw [TimedLoop.next] at stepped
      split at stepped
      · rename_i order
        obtain ⟨⟨after, shown⟩, went, same⟩ := Option.map_eq_some_iff.mp stepped
        cases same
        exact watched.loopStep order.1 order.2 (ConnLoop.loopStep_step went)
      · cases stepped
  | addClisockToQueue _ | cmdSendAddFd | cmdSend _ =>
      simp only [TimedLoop.next, Option.map_eq_some_iff] at stepped
      obtain ⟨⟨after, shown⟩, went, same⟩ := stepped
      cases same
      rcases ConnLoop.next_step went with step | ⟨choice, same, -⟩
      · exact ⟨watch, rfl, watched.caller step⟩
      · cases same

theorem simulation (newConn : Int → κ) :
    System.Simulation (system newConn pq) (Watch.system ConnLoop.defExpire) Watched where
  start {timed} started := by
    obtain ⟨loop, clock⟩ := timed
    change loop = .fresh κ pq at started
    subst loop
    exact ⟨⟨clock, fun _ => none, []⟩, ⟨rfl, rfl⟩, le_refl _, TimerManager.fresh_covered,
      List.nodup_nil, fun _ => rfl, fun _ member => (List.not_mem_nil member).elim, rfl⟩
  step watched stepped := by
    obtain ⟨turn, stepped⟩ := stepped
    exact watched.next stepped

/-- What holds after any run whose notes are `notes`. -/
structure ExpiresIdle (notes : List (WatchNote Int TimePoint)) (loop : ConnLoop κ pq) : Prop where
  /-- When the pass closes a socket, all that touched its number, for whichever connection,
  is `DEF_TIMER_EXPIRE_MS` or more before the reading of the pass. -/
  idle : ∀ before fd rest, notes = before ++ .expired fd :: rest →
    Watch.touches before fd ≠ [] ∧ ∃ now, (Watch.passes before).getLast? = some now ∧
      ∀ touch ∈ Watch.touches before fd, ConnLoop.defExpire touch ≤ now
  /-- A registered socket, unless the pass is about to close it, has a timer from its last
  touch on, which no pass has found over. -/
  current : ∀ fd ∈ loop.epoll, fd ∉ loop.pc.expiredLeft →
    ∃ touch, (Watch.touches notes fd).getLast? = some touch ∧
      loop.timerMgr.timerMap.lookup fd = some (ConnLoop.defExpire touch) ∧
      ∀ now ∈ Watch.passes notes, now < ConnLoop.defExpire touch

/-- Every run, with any events, any closes and any reuse of numbers.  Nothing is asked of
the callers. -/
theorem expires_idle {notes : List (WatchNote Int TimePoint)}
    (run : (system newConn pq).Runs notes timed) : ExpiresIdle notes timed.loop := by
  have mono : Monotone ConnLoop.defExpire := fun _ _ order => Int.add_le_add_right order _
  have later (now : TimePoint) : now < ConnLoop.defExpire now :=
    Int.lt_add_of_pos_right now (by decide)
  obtain ⟨watch, watching, watched⟩ := (simulation newConn).runs run
  refine ⟨fun before fd rest shape => ?_, fun fd registered stays => ?_⟩
  · rw [shape] at watching
    exact Watch.expired_idle mono later watching
  · obtain ⟨touch, found⟩ := Option.isSome_iff_exists.mp
      ((watched.registered fd registered).resolve_right stays)
    obtain ⟨recent, -, ahead⟩ := (Watch.runs_kept mono later watching).last fd touch found
    exact ⟨touch, recent, by rw [watched.timers, found, Option.map_some], ahead⟩

/-- A client hangs up after one second, and its number goes to a client that comes four
seconds later and sends nothing.  The pass at twelve seconds meets the timer of the first. -/
def reusedNumber : List LoopTurn :=
  let turn (second : Int) (events : List ReadyEvent) : LoopTurn :=
    .loop ⟨events, 1, second * 1000000000, second * 1000000000, .modConnEventRead⟩
  let register (second : Int) : List LoopTurn :=
    [.addClisockToQueue 7, .cmdSendAddFd, turn second [.cmd]] ++ List.replicate 7 (turn second [])
  register 0 ++ [turn 0 [], turn 0 [], turn 1 [.sock 7 ⟨true, false, false⟩], turn 1 [], turn 1 [],
    turn 1 [], turn 1 []] ++ register 5 ++ [turn 12 [], turn 12 [], turn 15 [], turn 15 [], turn 15 []]

theorem expires_idle_reused :
    ∃ notes timed, System.follow (next fun _ => ()) ⟨.fresh Unit (.sorted TimerNode.expire), 0⟩
        reusedNumber = some (timed, notes) ∧
      Watch.touches notes 7 = [0, 5000000000] ∧
      Watch.passes notes = [0, 1000000000, 12000000000, 15000000000] ∧ .expired 7 ∈ notes ∧
      ExpiresIdle notes timed.loop := by
  have outcome : (System.follow (next fun _ => ()) ⟨.fresh Unit (.sorted TimerNode.expire), 0⟩
      reusedNumber).map (fun reached => (Watch.touches reached.2 7, Watch.passes reached.2,
        decide (.expired 7 ∈ reached.2))) =
      some ([0, 5000000000], [0, 1000000000, 12000000000, 15000000000], true) := by decide +kernel
  obtain ⟨⟨timed, notes⟩, followed, read⟩ := Option.map_eq_some_iff.mp outcome
  obtain ⟨touches, rest⟩ := Prod.mk.inj read
  obtain ⟨passes, expired⟩ := Prod.mk.inj rest
  have begun : (system (fun _ => ()) (.sorted TimerNode.expire)).Runs [] ⟨.fresh Unit _, 0⟩ :=
    .start rfl
  exact ⟨notes, timed, followed, touches, passes, of_decide_eq_true expired,
    expires_idle (begun.follow followed)⟩

end TimedLoop

end LiteWebServer
