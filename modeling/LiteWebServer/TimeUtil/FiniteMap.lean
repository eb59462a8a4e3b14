import LiteWebServer.Data.Transition
import LiteWebServer.TimeUtil
import Mathlib.Data.Finmap

namespace LiteWebServer

open Data

/-! `TimerManager` as a finite map from ids to expiry times.  The heap does not show. -/

/-- The calls of a `TimerManager`, with the clock reading of those that take one. -/
inductive TimerCall where
  | addTimer (id : Int) (expireTime : TimePoint)
  | addTimerNode (node : TimerNode)
  | updateTimer (id : Int) (expireTime : TimePoint)
  | rmTimer (id : Int)
  | handleExpiredTimers (now : TimePoint) (expired : List Int)
  | getTop (now : TimePoint)
  | queueSize
deriving DecidableEq, Repr

inductive TimerReply where
  | done
  | expired (ids : List Int)
  | top (node : TimerNode)
  | size (count : Nat)
deriving DecidableEq, Repr

abbrev Timers := Finmap fun _ : Int => TimePoint

namespace Timers

/-- `due` goes, earliest first, and `after` is what stays. -/
structure Expire (timers : Timers) (now : TimePoint) (due : List TimerNode) (after : Timers) :
    Prop where
  due_iff : ∀ node, node ∈ due ↔ timers.lookup node.id = some node.expire ∧ node.expire ≤ now
  once : (due.map TimerNode.id).Nodup
  sorted : due.Pairwise fun first later => first.expire ≤ later.expire
  stays : ∀ id, after.lookup id = (timers.lookup id).filter (now < ·)

def Least (timers : Timers) (node : TimerNode) : Prop :=
  timers.lookup node.id = some node.expire ∧
    ∀ id expire, timers.lookup id = some expire → node.expire ≤ expire

def Allows (timers : Timers) : TimerCall → TimerReply → Timers → Prop
  | .addTimer id expireTime, reply, after => reply = .done ∧ after = timers.insert id expireTime
  | .addTimerNode node, reply, after => reply = .done ∧ after = timers.insert node.id node.expire
  | .updateTimer id expireTime, reply, after => reply = .done ∧ after = timers.insert id expireTime
  | .rmTimer id, reply, after => reply = .done ∧ after = timers.erase id
  | .handleExpiredTimers now expired, reply, after =>
      ∃ due, reply = .expired (expired ++ due.map TimerNode.id) ∧ timers.Expire now due after
  | .getTop now, reply, after =>
      after = timers ∧ ∃ node, reply = .top node ∧
        (timers = ∅ → node = ⟨-1, now⟩) ∧ (timers ≠ ∅ → timers.Least node)
  | .queueSize, reply, after => after = timers ∧ reply = .size timers.keys.card

def system : System Timers (TimerCall × TimerReply) where
  start timers := timers = ∅
  step timers label after := timers.Allows label.1 label.2 after

end Timers

namespace TimerManager

variable {pq : PriorityQueue TimerNode TimerNode.expire}

def call (timers : TimerManager pq) : TimerCall → TimerReply × TimerManager pq
  | .addTimer id expireTime => (.done, timers.addTimer id expireTime)
  | .addTimerNode node => (.done, timers.addTimerNode node)
  | .updateTimer id expireTime => (.done, timers.updateTimer id expireTime)
  | .rmTimer id => (.done, timers.rmTimer id)
  | .handleExpiredTimers now expired =>
      let (timers, expired) := timers.handleExpiredTimers now expired
      (.expired expired, timers)
  | .getTop now => (.top (timers.getTop now), timers)
  | .queueSize => (.size timers.queueSize, timers)

def system (pq : PriorityQueue TimerNode TimerNode.expire) :
    System (TimerManager pq) (TimerCall × TimerReply) where
  start timers := timers = fresh pq
  step timers label after := timers.call label.1 = (label.2, after)

def set (timers : TimerManager pq) : Timers := timers.timerMap.toFinmap

variable {timers : TimerManager pq}

theorem set_addTimer (id : Int) (expire : TimePoint) :
    (timers.addTimer id expire).set = timers.set.insert id expire := by
  rw [set, set, Finmap.insert_toFinmap]
  rfl

theorem set_rmTimer (id : Int) : (timers.rmTimer id).set = timers.set.erase id :=
  (Finmap.erase_toFinmap id timers.timerMap).symm

theorem lookup_set (id : Int) : timers.set.lookup id = timers.timerMap.lookup id :=
  Finmap.lookup_toFinmap id timers.timerMap

theorem set_eq_empty_iff : timers.set = ∅ ↔ timers.timerMap = ∅ := by
  constructor
  · intro none
    refine AList.ext (List.eq_nil_iff_forall_not_mem.mpr fun ⟨id, expire⟩ member => ?_)
    have found := AList.mem_lookup_iff.mpr member
    rw [← lookup_set, none, Finmap.lookup_empty] at found
    cases found
  · intro none
    rw [set, none]
    exact Finmap.empty_toFinmap

theorem queueSize_eq_card : timers.queueSize = timers.set.keys.card := by
  have keys : timers.set.keys.card = timers.timerMap.keys.length :=
    congrArg Multiset.card (Finmap.keys_val timers.timerMap)
  rw [keys, queueSize, AList.keys, List.keys, List.length_map]

theorem handleExpiredTimers_expire (covered : timers.Covered) (now : TimePoint)
    (expired : List Int) :
    (timers.handleExpiredTimers now expired).1.Covered ∧
      ∃ due, (timers.handleExpiredTimers now expired).2 = expired ++ due.map TimerNode.id ∧
        timers.set.Expire now due (timers.handleExpiredTimers now expired).1.set := by
  obtain ⟨due, expires, appended, covered', kept⟩ := handleExpiredTimers_spec covered now expired
  refine ⟨covered', due, appended, ⟨fun node => ?_, expires.once, expires.sorted, fun id => ?_⟩⟩
  · rw [lookup_set]
    exact expires.due_iff node
  · rw [lookup_set, lookup_set]
    exact kept id

theorem getTop_least (covered : timers.Covered) (now : TimePoint) :
    (timers.set = ∅ → timers.getTop now = ⟨-1, now⟩) ∧
      (timers.set ≠ ∅ → timers.set.Least (timers.getTop now)) := by
  have spec := @topRounds_spec pq (pq.size timers.timerQueue) timers.timerQueue timers.timerMap
    covered le_rfl
  rw [getTop, ne_eq, set_eq_empty_iff]
  cases result : topRounds timers.timerMap (pq.size timers.timerQueue) timers.timerQueue with
  | none =>
      rw [result] at spec
      exact ⟨fun _ => rfl, fun some => absurd spec some⟩
  | some node =>
      rw [result] at spec
      obtain ⟨live, least⟩ := spec
      refine ⟨fun none => ?_, fun _ => ⟨(lookup_set _).trans live, fun id expire found => ?_⟩⟩
      · rw [none] at live
        cases live
      · exact least ((lookup_set id).symm.trans found)

/-- One call: the heap keeps covering the map, and the map allows the reply. -/
theorem call_allowed (covered : timers.Covered) (call : TimerCall) :
    (timers.call call).2.Covered ∧
      timers.set.Allows call (timers.call call).1 (timers.call call).2.set := by
  cases call with
  | addTimer id expire => exact ⟨addTimer_covered covered id expire, rfl, set_addTimer id expire⟩
  | addTimerNode node =>
      exact ⟨addTimer_covered covered node.id node.expire, rfl, set_addTimer node.id node.expire⟩
  | updateTimer id expire => exact ⟨addTimer_covered covered id expire, rfl, set_addTimer id expire⟩
  | rmTimer id => exact ⟨rmTimer_covered covered id, rfl, set_rmTimer id⟩
  | handleExpiredTimers now expired =>
      obtain ⟨covered', due, appended, expire⟩ := handleExpiredTimers_expire covered now expired
      exact ⟨covered', due, congrArg TimerReply.expired appended, expire⟩
  | getTop now => exact ⟨covered, rfl, _, rfl, getTop_least covered now⟩
  | queueSize => exact ⟨covered, rfl, congrArg TimerReply.size queueSize_eq_card⟩

theorem simulation : System.Simulation (system pq) Timers.system
    fun timers image => timers.Covered ∧ image = timers.set where
  start {timers} started := by
    cases started
    exact ⟨_, rfl, fresh_covered, Finmap.empty_toFinmap.symm⟩
  step {timers label after image} related called := by
    obtain ⟨covered, rfl⟩ := related
    obtain ⟨covered', allowed⟩ := call_allowed covered label.1
    rw [called] at covered' allowed
    exact ⟨_, allowed, covered', rfl⟩

/-- The calls with their replies, and what is left in the end. -/
def answer (timers : TimerManager pq) :
    List TimerCall → List (TimerCall × TimerReply) × TimerManager pq
  | [] => ([], timers)
  | call :: calls =>
      let (reply, timers) := timers.call call
      let (labels, timers) := timers.answer calls
      ((call, reply) :: labels, timers)

theorem runs_answer {earlier : List (TimerCall × TimerReply)}
    (run : (system pq).Runs earlier timers) (calls : List TimerCall) :
    (system pq).Runs (earlier ++ (timers.answer calls).1) (timers.answer calls).2 := by
  induction calls generalizing earlier timers with
  | nil => rwa [answer, List.append_nil]
  | cons call calls ih =>
      have further := ih (@System.Runs.step _ _ _ _ _ (call, (timers.call call).1) _ run rfl)
      rwa [List.append_assoc] at further

/-- Whatever the calls, the finite map allows the replies and ends with the timers
that are set. -/
theorem answer_as_finite_map (pq : PriorityQueue TimerNode TimerNode.expire)
    (calls : List TimerCall) :
    Timers.system.Runs ((fresh pq).answer calls).1 ((fresh pq).answer calls).2.set := by
  obtain ⟨image, run, -, rfl⟩ := simulation.runs (runs_answer (.start rfl) calls)
  exact run

/-- The id of a failed lookup is an id that a timer may have. -/
theorem top_of_minus_one :
    ((fresh (.sorted TimerNode.expire)).answer
        [.addTimer (-1) 5, .getTop 0, .queueSize]).1.map Prod.snd =
      [.done, .top ⟨-1, 5⟩, .size 1] := by decide

/-- A timer set again leaves a stale node behind, and one removed and set again for the
same time a double. -/
example : ((fresh (.sorted TimerNode.expire)).answer
    [.addTimer 10 3, .addTimer 11 8, .updateTimer 10 7, .rmTimer 11, .addTimerNode ⟨11, 8⟩,
      .handleExpiredTimers 8 [4], .queueSize, .getTop 9]).1.map Prod.snd =
    [.done, .done, .done, .done, .done, .expired [4, 10, 11], .size 0, .top ⟨-1, 9⟩] := by decide

end TimerManager

end LiteWebServer
