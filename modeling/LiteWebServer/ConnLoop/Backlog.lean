import LiteWebServer.ConnLoop.Expiry
import Mathlib.Data.Multiset.Count
import Mathlib.Data.Multiset.Filter

namespace LiteWebServer

open Data

/-! What the lazy deletion of timers leaves in the heap of a loop.  A timer that is set again
or removed keeps its old nodes there, until a pass finds them over. -/

namespace TimerManager

variable {pq : PriorityQueue TimerNode TimerNode.expire} {timers : TimerManager pq} {now : TimePoint}

/-- Whichever timers are set, a pass takes from the heap what is over and nothing else. -/
theorem expireRounds_contents {rounds : Nat} {expired : List Int}
    (enough : pq.size timers.timerQueue ≤ rounds) :
    pq.contents (expireRounds now rounds timers expired).1.timerQueue =
      (pq.contents timers.timerQueue).filter fun node => now < node.expire := by
  induction rounds generalizing timers expired with
  | zero =>
      have bare := pq.contents_none (pq.top?_of_size_zero (Nat.le_zero.mp enough))
      simp [expireRounds, bare]
  | succ rounds ih =>
      rw [expireRounds]
      cases found : pq.top? timers.timerQueue with
      | none => simp [pq.contents_none found]
      | some top =>
          have fewer := pq.size_pop found
          by_cases early : now < top.expire
          · simp only [if_pos early]
            refine (Multiset.filter_eq_self.mpr fun node member => ?_).symm
            exact lt_of_lt_of_le early (pq.top?_least found node member)
          · simp only [if_neg early]
            have drop : (pq.contents timers.timerQueue).filter (fun node => now < node.expire) =
                (pq.contents (pq.pop timers.timerQueue)).filter fun node => now < node.expire := by
              rw [pq.contents_pop found]
              exact Multiset.filter_cons_of_neg _ early
            rw [drop]
            split <;> exact ih (by dsimp only; omega)

theorem handleExpiredTimers_contents (now : TimePoint) (expired : List Int) :
    pq.contents (timers.handleExpiredTimers now expired).1.timerQueue =
      (pq.contents timers.timerQueue).filter fun node => now < node.expire :=
  expireRounds_contents le_rfl

/-- Every timer that is set has a node of its own in the heap. -/
theorem Covered.queueSize_le (covered : timers.Covered) :
    timers.queueSize ≤ pq.size timers.timerQueue := by
  let nodes : List TimerNode := timers.timerMap.entries.map fun entry => ⟨entry.1, entry.2⟩
  have apart : nodes.Nodup := by
    refine List.Nodup.map (fun entry other same => ?_) (List.NodupKeys.nodup timers.timerMap.nodupKeys)
    obtain ⟨id, expire⟩ := entry
    obtain ⟨id', expire'⟩ := other
    obtain ⟨rfl, rfl⟩ := TimerNode.mk.inj same
    rfl
  have held : (nodes : Multiset TimerNode) ≤ pq.contents timers.timerQueue := by
    refine (Multiset.le_iff_subset (Multiset.coe_nodup.mpr apart)).mpr fun node member => ?_
    obtain ⟨⟨id, expire⟩, inside, rfl⟩ := List.mem_map.mp (Multiset.mem_coe.mp member)
    exact covered (AList.mem_lookup_iff.mpr inside)
  have fewer := Multiset.card_le_card held
  rwa [Multiset.coe_card, List.length_map, ← pq.size_eq] at fewer

end TimerManager

namespace TimedLoop

variable {κ : Type} {pq : PriorityQueue TimerNode TimerNode.expire} {newConn : Int → κ}

/-- The nodes in the heap. -/
def heap (timed : TimedLoop κ pq) : Multiset TimerNode := pq.contents timed.loop.timerMgr.timerQueue

/-- What a step does to the heap.  For a touch it pushes a node, behind at most one for the first
reading of the step.  A pass takes out what is over.  Any other step leaves the heap alone. -/
inductive HeapStep (timed : TimedLoop κ pq) : TimedLoop κ pq → WatchNote Int TimePoint → Prop where
  | still {after note} (heap : after.heap = timed.heap) (clock : timed.clock ≤ after.clock)
      (touch : note.touchedAt? = none) (pass : note.pass? = none) : HeapStep timed after note
  | push {after fd now stays} {first : Multiset TimerNode}
      (heap : after.heap = ⟨fd, ConnLoop.defExpire now⟩ ::ₘ (first + timed.heap))
      (few : first.card ≤ 1)
      (sooner : ∀ node ∈ first, ConnLoop.defExpire timed.clock ≤ node.expire ∧
        node.expire ≤ ConnLoop.defExpire now)
      (early : timed.clock ≤ now) (clock : now ≤ after.clock) :
      HeapStep timed after (.touched fd now stays)
  | pass {after now} (heap : after.heap = timed.heap.filter fun node => now < node.expire)
      (early : timed.clock ≤ now) (clock : now ≤ after.clock) : HeapStep timed after (.passed now)

variable {timed after : TimedLoop κ pq} {note : WatchNote Int TimePoint}

theorem loopStep_heap {loop : ConnLoop κ pq} {choice : LoopChoice} {said : LoopNote κ}
    (early : timed.clock ≤ choice.now) (order : choice.now ≤ choice.later)
    (step : ConnLoop.LoopStep newConn timed.loop choice loop said) :
    HeapStep timed ⟨loop, choice.later⟩ (timed.loop.watchNote choice said) := by
  have on := early.trans order
  cases step with
  | @serve fd _ _ here goes =>
      rw [ConnLoop.watchNote, if_neg goes]
      refine @HeapStep.push _ _ _ _ _ _ _ {⟨fd, ConnLoop.defExpire choice.now⟩} ?_ le_rfl
        (fun node member => ?_) on le_rfl
      · simp [heap, ConnLoop.addTimer, ConnLoop.emplaceConn, TimerManager.addTimer, pq.contents_push]
      · rw [Multiset.mem_singleton.mp member]
        exact ⟨Int.add_le_add_right early _, Int.add_le_add_right order _⟩
  | drop here closes =>
      rw [ConnLoop.watchNote, if_pos closes]
      refine @HeapStep.push _ _ _ _ _ _ _ 0 ?_ (Nat.zero_le _) (by simp) early order
      simp [heap, ConnLoop.handleConnClose, ConnLoop.addTimer, ConnLoop.emplaceConn,
        TimerManager.rmTimer, TimerManager.addTimer, pq.contents_push]
  | register here =>
      refine @HeapStep.push _ _ _ _ _ _ _ 0 ?_ (Nat.zero_le _) (by simp) early order
      simp [heap, ConnLoop.addTimer, TimerManager.addTimer, pq.contents_push]
  | expire here =>
      rw [ConnLoop.watchNote, here]
      exact .pass (TimerManager.handleExpiredTimers_contents _ _) early order
  | hangup here gone =>
      rw [ConnLoop.watchNote, here]
      dsimp only
      rw [if_pos gone]
      exact .still rfl on rfl rfl
  | ignore here calm =>
      rw [ConnLoop.watchNote, here]
      dsimp only
      rw [if_neg (Bool.eq_false_iff.mp calm)]
      exact .still rfl on rfl rfl
  | wait here | command here | dropExpired here | again here | drained here | read here
  | handled here | stop here | swap here | skip here | registered here =>
      rw [ConnLoop.watchNote, here]
      exact .still rfl on rfl rfl
  | close here => exact .still rfl on rfl rfl

theorem next_heap {turn : LoopTurn} (stepped : next newConn timed turn = some (after, note)) :
    HeapStep timed after note := by
  cases turn with
  | loop choice =>
      rw [TimedLoop.next] at stepped
      split at stepped
      · rename_i order
        obtain ⟨⟨loop, said⟩, went, same⟩ := Option.map_eq_some_iff.mp stepped
        cases same
        exact loopStep_heap order.1 order.2 (ConnLoop.loopStep_step went)
      · cases stepped
  | addClisockToQueue _ | cmdSendAddFd | cmdSend _ =>
      simp only [TimedLoop.next, Option.map_eq_some_iff] at stepped
      obtain ⟨⟨loop, said⟩, went, same⟩ := stepped
      cases same
      rcases ConnLoop.next_step went with step | ⟨choice, same, -⟩
      · cases step <;> exact .still rfl le_rfl rfl rfl
      · cases same

/-- What holds of a deadline holds of every later one. -/
def Upward (ahead : TimePoint → Prop) : Prop :=
  ∀ first later, first ≤ later → ahead first → ahead later

/-- How the heap follows the touches, counted among the deadlines that are ahead of any bound. -/
structure HeapFollows (notes : List (WatchNote Int TimePoint)) (timed : TimedLoop κ pq) : Prop where
  passed : ∀ now ∈ Watch.passes notes, now ≤ timed.clock
  later : ∀ node ∈ timed.heap, ∀ now ∈ Watch.passes notes, now < node.expire
  atLeast : ∀ (ahead : TimePoint → Prop) [DecidablePred ahead], Upward ahead →
    (Watch.recent ConnLoop.defExpire notes).countP (fun touch => ahead (ConnLoop.defExpire touch)) ≤
      timed.heap.countP fun node => ahead node.expire
  atMost : ∀ (ahead : TimePoint → Prop) [DecidablePred ahead], Upward ahead →
    timed.heap.countP (fun node => ahead node.expire) ≤
      2 * (Watch.recent ConnLoop.defExpire notes).countP
        fun touch => ahead (ConnLoop.defExpire touch)

variable {notes : List (WatchNote Int TimePoint)}

theorem HeapFollows.ahead (follows : HeapFollows notes timed) {now : TimePoint}
    (early : timed.clock ≤ now) : ∀ pass ∈ Watch.passes notes, pass < ConnLoop.defExpire now :=
  fun pass member => lt_of_le_of_lt ((follows.passed pass member).trans early)
    (Int.lt_add_of_pos_right _ (by decide))

theorem HeapFollows.recent_touched (follows : HeapFollows notes timed) {fd : Int} {now : TimePoint}
    (early : timed.clock ≤ now) (stays : Bool) :
    Watch.recent ConnLoop.defExpire (notes ++ [.touched fd now stays]) =
      Watch.recent ConnLoop.defExpire notes ++ [now] :=
  Watch.recent_touched stays (follows.ahead early)

theorem HeapFollows.still (follows : HeapFollows notes timed) (heap : after.heap = timed.heap)
    (clock : timed.clock ≤ after.clock) (touch : note.touchedAt? = none) (pass : note.pass? = none) :
    HeapFollows (notes ++ [note]) after := by
  have same : Watch.passes (notes ++ [note]) = Watch.passes notes := by simp [pass]
  constructor
  · rw [same]
    exact fun now member => (follows.passed now member).trans clock
  · rw [same, heap]
    exact follows.later
  · rw [heap, Watch.recent_silent touch pass]
    exact follows.atLeast
  · rw [heap, Watch.recent_silent touch pass]
    exact follows.atMost

theorem HeapFollows.push (follows : HeapFollows notes timed) {fd : Int} {now : TimePoint}
    {first : Multiset TimerNode}
    (heap : after.heap = ⟨fd, ConnLoop.defExpire now⟩ ::ₘ (first + timed.heap))
    (few : first.card ≤ 1)
    (sooner : ∀ node ∈ first, ConnLoop.defExpire timed.clock ≤ node.expire ∧
      node.expire ≤ ConnLoop.defExpire now)
    (early : timed.clock ≤ now) (clock : now ≤ after.clock) (stays : Bool) :
    HeapFollows (notes ++ [.touched fd now stays]) after := by
  have counted (ahead : TimePoint → Prop) [DecidablePred ahead] :
      after.heap.countP (fun node => ahead node.expire) =
        first.countP (fun node => ahead node.expire) +
          timed.heap.countP (fun node => ahead node.expire) +
            if ahead (ConnLoop.defExpire now) then 1 else 0 := by
    rw [heap, Multiset.countP_cons, Multiset.countP_add]
  have counted' (ahead : TimePoint → Prop) [DecidablePred ahead] :
      (Watch.recent ConnLoop.defExpire (notes ++ [.touched fd now stays])).countP
          (fun touch => ahead (ConnLoop.defExpire touch)) =
        (Watch.recent ConnLoop.defExpire notes).countP
            (fun touch => ahead (ConnLoop.defExpire touch)) +
          if ahead (ConnLoop.defExpire now) then 1 else 0 := by
    rw [follows.recent_touched early, List.countP_append, List.countP_singleton]
    simp
  constructor
  · rw [Watch.passes_touched]
    exact fun pass member => (follows.passed pass member).trans (early.trans clock)
  · rw [Watch.passes_touched, heap]
    intro node member pass listed
    rcases Multiset.mem_cons.mp member with rfl | member
    · exact follows.ahead early pass listed
    · rcases Multiset.mem_add.mp member with this | held
      · exact lt_of_lt_of_le (follows.ahead le_rfl pass listed) (sooner node this).1
      · exact follows.later node held pass listed
  · intro ahead _ upward
    have before := follows.atLeast ahead upward
    rw [counted, counted']
    omega
  · intro ahead _ upward
    have before := follows.atMost ahead upward
    -- A node for the first reading is ahead only where that for the last one is.
    have once : first.countP (fun node => ahead node.expire) ≤
        if ahead (ConnLoop.defExpire now) then 1 else 0 := by
      split
      · exact (Multiset.countP_le_card _ _).trans few
      · rename_i past
        refine (Multiset.countP_eq_zero.mpr fun node member held => past ?_).le
        exact upward _ _ (sooner node member).2 held
    rw [counted, counted']
    omega

theorem HeapFollows.pass (follows : HeapFollows notes timed) {now : TimePoint}
    (heap : after.heap = timed.heap.filter fun node => now < node.expire)
    (early : timed.clock ≤ now) (clock : now ≤ after.clock) :
    HeapFollows (notes ++ [.passed now]) after := by
  -- Counting behind the pass is counting before it, with the reading as a further bound.
  have counted (ahead : TimePoint → Prop) [DecidablePred ahead] :
      timed.heap.countP (fun node => ahead node.expire ∧ now < node.expire) =
        after.heap.countP fun node => ahead node.expire := by
    rw [heap, Multiset.countP_filter]
  have counted' (ahead : TimePoint → Prop) [DecidablePred ahead] :
      (Watch.recent ConnLoop.defExpire notes).countP
          (fun touch => ahead (ConnLoop.defExpire touch) ∧ now < ConnLoop.defExpire touch) =
        (Watch.recent ConnLoop.defExpire (notes ++ [.passed now])).countP
          fun touch => ahead (ConnLoop.defExpire touch) := by
    rw [Watch.recent_passed, List.countP_filter]
    simp
  have upward' {ahead : TimePoint → Prop} (upward : Upward ahead) :
      Upward fun expire => ahead expire ∧ now < expire :=
    fun _ _ order held => ⟨upward _ _ order held.1, lt_of_lt_of_le held.2 order⟩
  constructor
  · intro pass member
    rw [Watch.passes_concat, List.mem_append] at member
    rcases member with earlier | this
    · exact (follows.passed pass earlier).trans (early.trans clock)
    · exact (List.mem_singleton.mp this).le.trans clock
  · rw [heap]
    intro node member pass listed
    obtain ⟨held, ahead⟩ := Multiset.mem_filter.mp member
    rw [Watch.passes_concat, List.mem_append] at listed
    rcases listed with earlier | this
    · exact follows.later node held pass earlier
    · rwa [List.mem_singleton.mp this]
  · intro ahead _ upward
    rw [← counted, ← counted']
    exact follows.atLeast _ (upward' upward)
  · intro ahead _ upward
    rw [← counted, ← counted']
    exact follows.atMost _ (upward' upward)

theorem HeapFollows.step (follows : HeapFollows notes timed) (step : HeapStep timed after note) :
    HeapFollows (notes ++ [note]) after := by
  cases step with
  | still heap clock touch pass => exact follows.still heap clock touch pass
  | push heap few sooner early clock => exact follows.push heap few sooner early clock _
  | pass heap early clock => exact follows.pass heap early clock

/-- The heap after a run whose notes are `notes`. -/
structure HeapBounded (notes : List (WatchNote Int TimePoint)) (loop : ConnLoop κ pq) : Prop where
  /-- No pass has found a node of it over. -/
  ahead : ∀ node ∈ pq.contents loop.timerMgr.timerQueue, ∀ now ∈ Watch.passes notes, now < node.expire
  set : loop.timerMgr.queueSize ≤ pq.size loop.timerMgr.timerQueue
  /-- It has one node or two for each touch whose deadline no pass has found over. -/
  atLeast : (Watch.recent ConnLoop.defExpire notes).length ≤ pq.size loop.timerMgr.timerQueue
  atMost : pq.size loop.timerMgr.timerQueue ≤ 2 * (Watch.recent ConnLoop.defExpire notes).length

/-- However many timers were ever set: the heap is as large as the last `DEF_TIMER_EXPIRE_MS`
were busy. -/
theorem heap_bounded (run : (system newConn pq).Runs notes timed) : HeapBounded notes timed.loop := by
  have follows : HeapFollows notes timed := by
    refine @System.Runs.invariant _ _ _ (fun notes timed => HeapFollows notes timed) ?_ ?_ _ _ run
    · intro timed started
      obtain ⟨loop, clock⟩ := timed
      change loop = .fresh κ pq at started
      subst loop
      have bare : heap ⟨.fresh κ pq, clock⟩ = 0 := pq.contents_empty
      exact ⟨by simp [Watch.passes], by simp [bare], fun ahead _ _ => by simp [Watch.recent],
        fun ahead _ _ => by simp [bare]⟩
    · intro notes before note after follows stepped
      obtain ⟨turn, stepped⟩ := stepped
      exact follows.step (next_heap stepped)
  obtain ⟨watch, -, watched⟩ := (simulation newConn).runs run
  have atLeast := follows.atLeast (fun _ => True) fun _ _ _ _ => trivial
  have atMost := follows.atMost (fun _ => True) fun _ _ _ _ => trivial
  simp only [decide_true, List.countP_true, Multiset.countP_True, heap, ← pq.size_eq] at atLeast atMost
  exact ⟨follows.later, TimerManager.Covered.queueSize_le watched.covered, atLeast, atMost⟩

/-- A client comes and sends something after one second and after two.  The passes behind it
find the node of its coming over, and no other one. -/
def twoPieces : List LoopTurn :=
  let turn (ms : Int) (events : List ReadyEvent) : LoopTurn :=
    .loop ⟨events, 1, ms * 1000000, ms * 1000000, .modConnEventRead⟩
  let piece (second : Int) : List LoopTurn :=
    turn (1000 * second) [.sock 7 ⟨false, true, false⟩] ::
      List.replicate 3 (turn (1000 * second) [])
  [.addClisockToQueue 7, .cmdSendAddFd, turn 0 [.cmd]] ++ List.replicate 9 (turn 0 []) ++
    piece 1 ++ piece 2 ++ [turn 10500 [], turn 10500 []]

theorem heap_bounded_pieces :
    ∃ notes timed, System.follow (next fun _ => ()) ⟨.fresh Unit (.sorted TimerNode.expire), 0⟩
        twoPieces = some (timed, notes) ∧
      Watch.recent ConnLoop.defExpire notes = [1000000000, 2000000000] ∧
      (timed.loop.timerMgr.timerQueue.1.map fun node => node.expire) =
        [11000000000, 11000000000, 12000000000, 12000000000] ∧
      HeapBounded notes timed.loop := by
  have outcome : (System.follow (next fun _ => ()) ⟨.fresh Unit (.sorted TimerNode.expire), 0⟩
      twoPieces).map (fun reached => (Watch.recent ConnLoop.defExpire reached.2,
        reached.1.loop.timerMgr.timerQueue.1.map fun node => node.expire)) =
      some ([1000000000, 2000000000], [11000000000, 11000000000, 12000000000, 12000000000]) := by
    decide +kernel
  obtain ⟨⟨timed, notes⟩, followed, read⟩ := Option.map_eq_some_iff.mp outcome
  obtain ⟨recent, nodes⟩ := Prod.mk.inj read
  have begun : (system (fun _ => ()) (.sorted TimerNode.expire)).Runs [] ⟨.fresh Unit _, 0⟩ :=
    .start rfl
  exact ⟨notes, timed, followed, recent, nodes, heap_bounded (begun.follow followed)⟩

end TimedLoop

end LiteWebServer
