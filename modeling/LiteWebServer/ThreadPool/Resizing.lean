import LiteWebServer.ThreadPool.Bookkeeping
import Mathlib.Data.List.DropRight
import Mathlib.Data.List.ReduceOption

namespace LiteWebServer

open Data

/-! When the manager changes the number of workers. -/

/-- What a step is to the size of the pool: a look at the queue, a new worker, or a partial stop
that is asked for. -/
inductive Resize where
  | looked (size : Nat)
  | grew | asked
deriving DecidableEq

def Resize.looked? : Resize → Option Nat
  | .looked size => some size
  | _ => none

/-- The manager is on the way from a look to what follows from it. -/
def MgrPc.resizes : MgrPc → Bool
  | .growing | .creating _ | .shrinking | .stopping _ => true
  | _ => false

namespace ThreadPool

def isBusy (size : Nat) : Bool := size > queueBusyNum

def isIdle (size : Nat) : Bool := size < queueIdleNum

/-- How many looks in a row have found the queue so, up to the last one. -/
def inARow (found : Nat → Bool) (deeds : List Resize) : Nat :=
  ((deeds.filterMap Resize.looked?).rtakeWhile found).length

/-- The last thing done to the size was a look, and so many in a row have found the queue so. -/
structure Decided (found : Nat → Bool) (deeds : List Resize) : Prop where
  look : ∃ earlier size, deeds = earlier ++ [.looked size]
  enough : threadStatusTimes ≤ inARow found deeds

/-- Every new worker and every partial stop comes right behind a look that decided it. -/
structure Warranted (deeds : List Resize) : Prop where
  grew : ∀ earlier, earlier ++ [.grew] <+: deeds → Decided isBusy earlier
  asked : ∀ earlier, earlier ++ [.asked] <+: deeds → Decided isIdle earlier

/-- The pool does not swing: between a new worker and a partial stop, whichever is first, there
are as many looks as decide. -/
structure Unhurried (deeds : List Resize) : Prop extends Warranted deeds where
  shrinks : ∀ earlier between, earlier ++ .grew :: between ++ [.asked] <+: deeds →
    threadStatusTimes ≤ (between.filterMap Resize.looked?).length
  grows : ∀ earlier between, earlier ++ .asked :: between ++ [.grew] <+: deeds →
    threadStatusTimes ≤ (between.filterMap Resize.looked?).length

/-- A thread was made, `stop_num_` was raised, or the manager looked at the queue. -/
def deed (pool : ThreadPool τ) (turn : PoolTurn τ) (after : ThreadPool τ) (note : PoolNote τ) :
    Option Resize :=
  if note.created?.isSome then some .grew
  else if pool.stopNum < after.stopNum then some .asked
  else
    match turn with
    | .mgr size => if pool.mgr = .checking then some (.looked size) else none
    | _ => none

/-- The pool, with what its steps are to its size. -/
def resizing (τ : Type) (idleNum maxNum : Nat) (dynamic : Bool) :
    System (ThreadPool τ) (Option Resize) :=
  .ofNext (system τ idleNum maxNum dynamic).start fun pool turn =>
    (pool.next turn).map fun moved => (moved.1, pool.deed turn moved.1 moved.2)

variable {pool after : ThreadPool τ} {note : PoolNote τ} {turn : PoolTurn τ}
  {deeds earlier later : List Resize} {found other : Nat → Bool} {size : Nat}

/-! ## Looks in a row -/

theorem inARow_looked : inARow found (deeds ++ [.looked size]) =
    if found size then inARow found deeds + 1 else 0 := by
  rw [inARow, List.filterMap_append]
  change ((deeds.filterMap Resize.looked? ++ [size]).rtakeWhile found).length = _
  rw [List.rtakeWhile_concat]
  split
  · rw [List.length_append]
    rfl
  · rfl

theorem inARow_other {deed : Resize} (unseen : deed.looked? = none) :
    inARow found (deeds ++ [deed]) = inARow found deeds := by
  rw [inARow, inARow, List.filterMap_append, List.filterMap_cons_none unseen, List.filterMap_nil,
    List.append_nil]

/-- A row that was broken has later looks only. -/
theorem inARow_le (broken : inARow found earlier = 0) :
    inARow found (earlier ++ later) ≤ (later.filterMap Resize.looked?).length := by
  induction later using List.reverseRecOn with
  | nil => simp [broken]
  | append_singleton later last ih =>
      rw [← List.append_assoc, List.filterMap_append, List.length_append]
      cases seen : last.looked? with
      | none =>
          rw [inARow_other seen]
          omega
      | some size =>
          obtain rfl : last = .looked size := by
            cases last <;> simp_all [Resize.looked?]
          rw [inARow_looked]
          simp only [List.filterMap_cons_some seen, List.filterMap_nil, List.length_singleton]
          split <;> omega

theorem Decided.swing (apart : ∀ size, found size = true → other size = false) {deed : Resize}
    (first : Decided found earlier) (unseen : deed.looked? = none)
    (second : Decided other (earlier ++ deed :: later)) :
    threadStatusTimes ≤ (later.filterMap Resize.looked?).length := by
  obtain ⟨front, size, rfl⟩ := first.look
  have seen : found size = true := by
    by_contra missed
    have enough := first.enough
    rw [inARow_looked, if_neg missed] at enough
    cases enough
  have broken : inARow other (front ++ [.looked size]) = 0 := by
    rw [inARow_looked, if_neg (Bool.eq_false_iff.mp (apart size seen))]
  have row := second.enough.trans (inARow_le broken)
  rwa [List.filterMap_cons_none unseen] at row

theorem not_isIdle (busy : isBusy size = true) : isIdle size = false := by
  have more : 100 < size := of_decide_eq_true busy
  refine decide_eq_false fun (less : size < 10) => ?_
  omega

theorem not_isBusy (idle : isIdle size = true) : isBusy size = false := by
  have less : size < 10 := of_decide_eq_true idle
  refine decide_eq_false fun (more : 100 < size) => ?_
  omega

theorem Warranted.nil : Warranted [] where
  grew _ front := by simp at front
  asked _ front := by simp at front

theorem Warranted.append {deed : Resize} (warranted : Warranted deeds)
    (grew : deed = .grew → Decided isBusy deeds) (asked : deed = .asked → Decided isIdle deeds) :
    Warranted (deeds ++ [deed]) where
  grew earlier front := by
    rcases List.prefix_concat_iff.mp front with whole | inside
    · obtain ⟨rfl, same⟩ := List.append_inj' whole rfl
      exact grew (List.singleton_inj.mp same).symm
    · exact warranted.grew earlier inside
  asked earlier front := by
    rcases List.prefix_concat_iff.mp front with whole | inside
    · obtain ⟨rfl, same⟩ := List.append_inj' whole rfl
      exact asked (List.singleton_inj.mp same).symm
    · exact warranted.asked earlier inside

theorem Warranted.unhurried (warranted : Warranted deeds) : Unhurried deeds where
  toWarranted := warranted
  shrinks earlier between front := by
    have before : earlier ++ [.grew] <+: deeds :=
      List.IsPrefix.trans ⟨between ++ [.asked], by simp⟩ front
    exact (warranted.grew earlier before).swing (fun _ => not_isIdle) rfl (warranted.asked _ front)
  grows earlier between front := by
    have before : earlier ++ [.asked] <+: deeds :=
      List.IsPrefix.trans ⟨between ++ [.grew], by simp⟩ front
    exact (warranted.asked earlier before).swing (fun _ => not_isBusy) rfl (warranted.grew _ front)

/-! ## The counters -/

theorem u32_succ (value : Nat) : u32 (u32 value + 1) = u32 (value + 1) := by
  unfold u32
  omega

theorem enough_of_u32 {value : Nat} (enough : threadStatusTimes ≤ u32 value) :
    threadStatusTimes ≤ value :=
  enough.trans (Nat.mod_le _ _)

theorem checkQueueStatus_eq : pool.checkQueueStatus size =
    let busyTimes := if isBusy size then u32 (pool.busyTimes + 1) else 0
    let idleTimes := if isIdle size then u32 (pool.idleTimes + 1) else 0
    let mgr : MgrPc :=
      if threadStatusTimes ≤ busyTimes then .growing
      else if threadStatusTimes ≤ idleTimes then .shrinking
      else .waiting
    { pool with mgr, busyTimes, idleTimes } := by
  unfold checkQueueStatus
  dsimp only
  by_cases busy : size > queueBusyNum
  · have isBusy : isBusy size = true := decide_eq_true busy
    rw [if_pos busy, if_pos isBusy, if_neg (Bool.eq_false_iff.mp (not_isIdle isBusy))]
    repeat' split
    all_goals rfl
  · have notBusy : ¬ isBusy size = true := fun isBusy => busy (of_decide_eq_true isBusy)
    rw [if_neg busy, if_neg notBusy]
    by_cases idle : size < queueIdleNum
    · have isIdle : isIdle size = true := decide_eq_true idle
      rw [if_pos idle, if_pos isIdle]
      repeat' split
      all_goals rfl
    · have notIdle : ¬ isIdle size = true := fun isIdle => idle (of_decide_eq_true isIdle)
      rw [if_neg idle, if_neg notIdle]
      repeat' split
      all_goals rfl

/-- One worker is made where there is room for it. -/
theorem handleQueueBusy_eq (room : pool.workers.length ≤ pool.maxNum) :
    pool.handleQueueBusy =
      { pool with mgr := if pool.workers.length < pool.maxNum then .creating 1 else .waiting } := by
  unfold handleQueueBusy
  rw [threadChangeSetup, sizeSub_of_le room]
  by_cases more : pool.workers.length < pool.maxNum
  · have fits : ¬ pool.workers.length + 1 > pool.maxNum := by omega
    rw [if_neg fits, if_pos more]
    rfl
  · have full : pool.workers.length + 1 > pool.maxNum := by omega
    have none : ¬ pool.maxNum - pool.workers.length > 0 := by omega
    rw [if_pos full, if_neg more]
    exact if_neg none

/-- The counters of the manager stand for what it has seen. -/
structure Restrained (deeds : List Resize) (pool : ThreadPool τ) : Prop where
  warranted : Warranted deeds
  busy : pool.busyTimes = u32 (inARow isBusy deeds)
  idle : pool.idleTimes = u32 (inARow isIdle deeds)
  growing : pool.mgr = .growing → Decided isBusy deeds
  creating : ∀ newWorkers, pool.mgr = .creating newWorkers →
    newWorkers = 0 ∨ newWorkers = 1 ∧ Decided isBusy deeds
  shrinking : pool.mgr = .shrinking → Decided isIdle deeds
  stopping : ∀ rmWorkers, pool.mgr = .stopping rmWorkers → Decided isIdle deeds

theorem Restrained.construct (ids : List Nat) (maxNum : Nat) (dynamic : Bool) :
    Restrained [] (.construct (τ := τ) ids maxNum dynamic) := by
  have rests : (ThreadPool.construct (τ := τ) ids maxNum dynamic).mgr.resizes = false := by
    cases dynamic <;> rfl
  refine ⟨.nil, rfl, rfl, fun here => ?_, fun newWorkers here => ?_, fun here => ?_,
    fun rmWorkers here => ?_⟩
  all_goals
    rw [here] at rests
    cases rests

/-- A step that has nothing to do with the size. -/
theorem Restrained.still (restrained : Restrained deeds pool) (busy : after.busyTimes = pool.busyTimes)
    (idle : after.idleTimes = pool.idleTimes) (mgr : after.mgr = pool.mgr) : Restrained deeds after where
  warranted := restrained.warranted
  busy := busy.trans restrained.busy
  idle := idle.trans restrained.idle
  growing here := restrained.growing (mgr.symm.trans here)
  creating newWorkers here := restrained.creating newWorkers (mgr.symm.trans here)
  shrinking here := restrained.shrinking (mgr.symm.trans here)
  stopping rmWorkers here := restrained.stopping rmWorkers (mgr.symm.trans here)

/-- The manager goes on with what a look has decided. -/
theorem Restrained.goOn (restrained : Restrained deeds pool) (busy : after.busyTimes = pool.busyTimes)
    (idle : after.idleTimes = pool.idleTimes)
    (mgr : after.mgr.resizes = false ∨ after.mgr = .creating 1 ∧ Decided isBusy deeds ∨
      ∃ rmWorkers, after.mgr = .stopping rmWorkers ∧ Decided isIdle deeds) : Restrained deeds after := by
  refine ⟨restrained.warranted, busy.trans restrained.busy, idle.trans restrained.idle,
    fun here => ?_, fun newWorkers here => ?_, fun here => ?_, fun rmWorkers here => ?_⟩
  all_goals
    rcases mgr with rests | ⟨there, decided⟩ | ⟨_, there, decided⟩
    · rw [here] at rests
      cases rests
    · rw [here] at there
      cases there <;> exact .inr ⟨rfl, decided⟩
    · rw [here] at there
      cases there <;> exact decided

/-- A worker was made, or a stop asked for, and nothing more is to be done. -/
theorem Restrained.done (restrained : Restrained deeds pool) {deed : Resize}
    (warranted : Warranted (deeds ++ [deed])) (unseen : deed.looked? = none)
    (busy : after.busyTimes = pool.busyTimes) (idle : after.idleTimes = pool.idleTimes)
    (mgr : after.mgr = .creating 0 ∨ after.mgr = .notifying) : Restrained (deeds ++ [deed]) after := by
  refine ⟨warranted, ?_, ?_, fun here => ?_, fun newWorkers here => ?_, fun here => ?_,
    fun rmWorkers here => ?_⟩
  · rw [inARow_other unseen, busy, restrained.busy]
  · rw [inARow_other unseen, idle, restrained.idle]
  all_goals
    rcases mgr with there | there
    · rw [here] at there
      cases there <;> exact .inl rfl
    · rw [here] at there
      cases there

/-- The counters are those of looks in a row, and decide what follows. -/
theorem Restrained.look (restrained : Restrained deeds pool) (size : Nat) :
    Restrained (deeds ++ [.looked size]) (pool.checkQueueStatus size) := by
  have busy : (if isBusy size then u32 (pool.busyTimes + 1) else 0) =
      u32 (inARow isBusy (deeds ++ [.looked size])) := by
    rw [inARow_looked, restrained.busy, u32_succ, apply_ite u32]
    rfl
  have idle : (if isIdle size then u32 (pool.idleTimes + 1) else 0) =
      u32 (inARow isIdle (deeds ++ [.looked size])) := by
    rw [inARow_looked, restrained.idle, u32_succ, apply_ite u32]
    rfl
  rw [checkQueueStatus_eq, busy, idle]
  refine ⟨restrained.warranted.append (fun same => by cases same) (fun same => by cases same),
    rfl, rfl, fun here => ?_, fun newWorkers here => ?_, fun here => ?_, fun rmWorkers here => ?_⟩
  all_goals
    dsimp only at here
    split at here
    · rename_i enough
      cases here <;> exact ⟨⟨_, _, rfl⟩, enough_of_u32 enough⟩
    · split at here
      · rename_i enough
        cases here <;> exact ⟨⟨_, _, rfl⟩, enough_of_u32 enough⟩
      · cases here

theorem deed_none (quiet : note.created? = none) (less : after.stopNum ≤ pool.stopNum)
    (away : ∀ size, turn = .mgr size → pool.mgr ≠ .checking) : pool.deed turn after note = none := by
  have noStop : ¬ pool.stopNum < after.stopNum := by omega
  unfold deed
  rw [quiet, if_neg (by simp), if_neg noStop]
  cases turn with
  | mgr size => exact if_neg (away size rfl)
  | _ => rfl

theorem deed_look (here : pool.mgr = .checking) :
    pool.deed (.mgr size) (pool.checkQueueStatus size) .quiet = some (.looked size) := by
  unfold deed
  rw [if_neg (by simp [PoolNote.created?]), checkQueueStatus_eq, if_neg (lt_irrefl _)]
  exact if_pos here

/-- Nothing was done to the size. -/
theorem Restrained.silent (restrained : Restrained deeds after) (quiet : note.created? = none)
    (less : after.stopNum ≤ pool.stopNum)
    (away : ∀ size, turn = .mgr size → pool.mgr ≠ .checking) :
    Restrained (deeds ++ (pool.deed turn after note).toList) after := by
  rwa [deed_none quiet less away, Option.toList_none, List.append_nil]

theorem Restrained.manage (restrained : Restrained deeds pool)
    (room : pool.workers.length ≤ pool.maxNum) {choice : Nat}
    (stepped : pool.mgrStep choice = some (after, note)) :
    Restrained (deeds ++ (pool.deed (.mgr choice) after note).toList) after := by
  by_cases checking : pool.mgr = .checking
  · simp only [mgrStep, checking] at stepped
    cases stepped
    rw [deed_look checking]
    exact restrained.look choice
  have away : ∀ size, PoolTurn.mgr (τ := τ) choice = .mgr size → pool.mgr ≠ .checking :=
    fun _ _ => checking
  by_cases growing : pool.mgr = .growing
  · simp only [mgrStep, growing] at stepped
    cases stepped
    rw [handleQueueBusy_eq room]
    refine .silent (restrained.goOn rfl rfl ?_) rfl le_rfl away
    dsimp only
    split
    · exact .inr (.inl ⟨rfl, restrained.growing growing⟩)
    · exact .inl rfl
  cases mgrStep_step stepped with
  | select here => exact absurd here checking
  | grow here => exact absurd here growing
  | full here => exact absurd here growing
  | @create left id here new =>
      obtain ⟨one, decided⟩ := (restrained.creating _ here).resolve_left (Nat.succ_ne_zero left)
      obtain rfl : left = 0 := by omega
      have grew : Warranted (deeds ++ [.grew]) :=
        restrained.warranted.append (fun _ => decided) fun same => by cases same
      exact restrained.done grew rfl rfl rfl (.inl rfl)
  | @shrink rmWorkers here =>
      refine .silent (restrained.goOn rfl rfl ?_) rfl le_rfl away
      exact .inr (.inr ⟨rmWorkers, rfl, restrained.shrinking here⟩)
  | @stop rmWorkers here =>
      by_cases more : pool.stopNum < if pool.stopNum = 0 then (rmWorkers : Int) else pool.stopNum
      · rw [deed, if_neg (by simp [PoolNote.created?]), if_pos more]
        have asked : Warranted (deeds ++ [.asked]) :=
          restrained.warranted.append (fun same => by cases same) fun _ => restrained.stopping rmWorkers here
        exact restrained.done asked rfl rfl rfl (.inr rfl)
      · exact .silent (restrained.goOn rfl rfl (.inl rfl)) rfl (Int.not_lt.mp more) away
  | _ => exact .silent (restrained.goOn rfl rfl (.inl rfl)) rfl le_rfl away

theorem Restrained.next (sound : pool.Sound) (room : pool.workers.length ≤ pool.maxNum)
    (restrained : Restrained deeds pool) (stepped : pool.next turn = some (after, note)) :
    Restrained (deeds ++ (pool.deed turn after note).toList) after := by
  cases next_step stepped with
  | mgr => exact restrained.manage room stepped
  | refuse => exact .silent restrained rfl le_rfl fun _ same => by cases same
  | enqueue =>
      exact .silent (restrained.still rfl rfl rfl) rfl le_rfl fun _ same => by cases same
  | notifyOne step | spurious step =>
      cases step <;>
        exact .silent (restrained.still rfl rfl rfl) rfl le_rfl fun _ same => by cases same
  | worker step =>
      have less : after.stopNum ≤ pool.stopNum := by
        cases step <;> dsimp only <;> omega
      cases step <;>
        exact .silent (restrained.still rfl rfl rfl) rfl less fun _ same => by cases same
  | dtor step =>
      have range := sound.range
      have less : after.stopNum ≤ pool.stopNum := by
        cases step with
        | stopAll => exact range
        | _ => exact le_rfl
      cases step <;>
        exact .silent (restrained.still rfl rfl rfl) rfl less fun _ same => by cases same

/-- The invariant rule for the pool with its deeds: what each step keeps, of pools that are sound
and have no more than `max_num_` workers. -/
theorem resizing_invariant {idleNum maxNum : Nat} {dynamic : Bool} {deeds : List (Option Resize)}
    {Inv : List (Option Resize) → ThreadPool τ → Prop} (idle : 1 ≤ idleNum) (max : 1 ≤ maxNum)
    (initial : ∀ ids : List Nat, ids.length = min idleNum maxNum → Inv [] (construct ids maxNum dynamic))
    (keeps : ∀ {deeds pool turn after note}, pool.Sound → pool.maxNum = maxNum →
      pool.workers.length ≤ pool.maxNum → Inv deeds pool → pool.next turn = some (after, note) →
      Inv (deeds ++ [pool.deed turn after note]) after)
    (run : (resizing τ idleNum maxNum dynamic).Runs deeds pool) : pool.Sound ∧ Inv deeds pool := by
  obtain ⟨sound, -, -, inv⟩ : pool.Sound ∧ pool.maxNum = maxNum ∧
      pool.workers.length + pool.mgr.demand ≤ pool.maxNum ∧ Inv deeds pool := by
    refine @System.Runs.invariant _ _ _ (fun deeds pool => pool.Sound ∧ pool.maxNum = maxNum ∧
      pool.workers.length + pool.mgr.demand ≤ pool.maxNum ∧ Inv deeds pool) ?_ ?_ _ _ run
    · intro pool held
      obtain ⟨ids, distinct, count, rfl⟩ := held
      refine ⟨construct_sound distinct (by omega) maxNum dynamic, rfl, ?_, initial ids count⟩
      have rests : (construct (τ := τ) ids maxNum dynamic).mgr.demand = 0 := by
        cases dynamic <;> rfl
      rw [rests]
      simp only [construct, List.length_map]
      omega
    · intro deeds before deed after held step
      obtain ⟨sound, capacity, room, inv⟩ := held
      obtain ⟨turn, stepped⟩ := step
      obtain ⟨⟨after, note⟩, moved, same⟩ := Option.map_eq_some_iff.mp stepped
      cases same
      have staffs := Staffs.next sound moved
      exact ⟨(sound.next moved).1, staffs.maxNum.trans capacity, staffs.room room,
        keeps sound capacity (by omega) inv moved⟩
  exact ⟨sound, inv⟩

/-- The manager makes a worker, or asks for a partial stop, only right behind a look, when this
and the two looks before it have found the queue busy, or idle. -/
theorem resizes_unhurried {idleNum maxNum : Nat} {dynamic : Bool} {deeds : List (Option Resize)}
    (idle : 1 ≤ idleNum) (max : 1 ≤ maxNum)
    (run : (resizing τ idleNum maxNum dynamic).Runs deeds pool) : Unhurried deeds.reduceOption := by
  obtain ⟨-, restrained⟩ := @resizing_invariant _ _ _ _ _ _
    (fun deeds pool => Restrained deeds.reduceOption pool) idle max
    (fun ids _ => .construct ids maxNum dynamic)
    (fun sound _ room restrained stepped => by
      rw [List.reduceOption_append, List.reduceOption_singleton]
      exact restrained.next sound room stepped) run
  exact restrained.warranted.unhurried

/-- Three busy rounds with a worker made behind the third, and three idle ones. -/
def swingTurns : List (PoolTurn Nat) :=
  let round (size : Nat) : List (PoolTurn Nat) := [.mgr 0, .mgr 0, .mgr 0, .mgr size]
  round 101 ++ round 200 ++ round 150 ++ [.mgr 0, .mgr 7, .mgr 0] ++
    round 9 ++ round 0 ++ round 5 ++ [.mgr 0, .mgr 0]

theorem swing_run :
    ∃ deeds pool, (resizing Nat 1 2 true).Runs deeds pool ∧
      deeds.reduceOption = [.looked 101, .looked 200, .looked 150, .grew,
        .looked 9, .looked 0, .looked 5, .asked] ∧
      pool.mgr = .notifying ∧ pool.stopNum = 1 ∧ pool.workers.live = 2 := by
  have outcome : (System.follow (fun pool turn => (pool.next turn).map fun moved =>
      (moved.1, pool.deed turn moved.1 moved.2)) (construct [0] 2 true) swingTurns).map
        (fun reached => (reached.2.reduceOption, reached.1.mgr, reached.1.stopNum, reached.1.workers.live)) =
      some ([.looked 101, .looked 200, .looked 150, .grew, .looked 9, .looked 0, .looked 5, .asked],
        .notifying, 1, 2) := by
    decide +kernel
  obtain ⟨⟨pool, deeds⟩, followed, reads⟩ := Option.map_eq_some_iff.mp outcome
  obtain ⟨done, here, stops, live⟩ : deeds.reduceOption = [.looked 101, .looked 200, .looked 150, .grew,
      .looked 9, .looked 0, .looked 5, .asked] ∧ pool.mgr = .notifying ∧ pool.stopNum = 1 ∧
      pool.workers.live = 2 := by simpa using reads
  have start : (resizing Nat 1 2 true).Runs [] (construct [0] 2 true) :=
    .start ⟨[0], by decide, rfl, rfl⟩
  exact ⟨deeds, pool, start.follow followed, done, here, stops, live⟩

theorem resizes_unhurried_swing :
    ∃ deeds pool, (resizing Nat 1 2 true).Runs deeds pool ∧
      deeds.reduceOption = [.looked 101, .looked 200, .looked 150, .grew,
        .looked 9, .looked 0, .looked 5, .asked] ∧
      Unhurried deeds.reduceOption := by
  obtain ⟨deeds, pool, run, done, -⟩ := swing_run
  exact ⟨deeds, pool, run, done, resizes_unhurried (by decide) (by decide) run⟩

end ThreadPool

end LiteWebServer
