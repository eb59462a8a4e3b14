import LiteWebServer.ThreadPool.Regulator

namespace LiteWebServer

open Data

/-! The manager keeps the pool at the size that its looks at the queue lead to. -/

/-- What the manager is about to do to the number of the workers. -/
def MgrPc.pending (workers maxNum : Nat) : MgrPc → Int
  | .growing => if workers < maxNum then 1 else 0
  | .creating newWorkers => newWorkers
  | .shrinking => if 1 < workers then -1 else 0
  | .stopping rmWorkers => -rmWorkers
  | _ => 0

theorem MgrPc.pending_eq_zero {mgr : MgrPc} (rests : mgr.resizes = false) (workers maxNum : Nat) :
    mgr.pending workers maxNum = 0 := by
  cases mgr with
  | growing | creating | shrinking | stopping => cases rests
  | _ => rfl

namespace ThreadPool

/-- The workers there will be when every stop is taken and the manager has done what it is at. -/
def level (pool : ThreadPool τ) : Int :=
  pool.workers.live - pool.stopNum + pool.mgr.pending pool.workers.length pool.maxNum

/-- What the manager has seen. -/
def looks (deeds : List (Option Resize)) : List Nat :=
  deeds.reduceOption.filterMap Resize.looked?

variable {pool after : ThreadPool τ} {note : PoolNote τ} {turn : PoolTurn τ} {regulator : Regulator}
  {id : Nat} {old pc : WorkerPc τ}

/-- The pool is where the looks have led, unless it has been stopped. -/
structure Regulated (regulator : Regulator) (pool : ThreadPool τ) : Prop where
  busy : pool.busyTimes = regulator.busyTimes
  idle : pool.idleTimes = regulator.idleTimes
  level : pool.stopNum ≠ threadStopAll → pool.level = regulator.size

/-- A step that is no look. -/
structure Levels (pool after : ThreadPool τ) : Prop where
  busy : after.busyTimes = pool.busyTimes
  idle : after.idleTimes = pool.idleTimes
  level : after.stopNum ≠ threadStopAll → pool.stopNum ≠ threadStopAll ∧ after.level = pool.level

theorem Regulated.keep (regulated : Regulated regulator pool) (levels : Levels pool after) :
    Regulated regulator after where
  busy := levels.busy.trans regulated.busy
  idle := levels.idle.trans regulated.idle
  level going :=
    have before := levels.level going
    before.2.trans (regulated.level before.1)

theorem Levels.still (busy : after.busyTimes = pool.busyTimes) (idle : after.idleTimes = pool.idleTimes)
    (stopNum : after.stopNum = pool.stopNum) (level : after.level = pool.level) : Levels pool after :=
  ⟨busy, idle, fun going => ⟨stopNum ▸ going, level⟩⟩

/-- A worker that takes no partial stop. -/
theorem Levels.move (found : pool.workers.pcOf id = some old) (counts : old.isExited = false)
    (stays : pc.isExited = false) (tasks : List τ) (dueNotifies : Nat) :
    Levels pool { pool with tasks, workers := pool.workers.setPc id pc, dueNotifies } := by
  refine .still rfl rfl rfl ?_
  have live := Workers.live_setPc found pc
  rw [counts, stays] at live
  simp only [ThreadPool.level, Workers.length_setPc found]
  omega

theorem Levels.wake (step : WakeStep pool after) : Levels pool after := by
  cases step with
  | woken found => exact .move found rfl rfl pool.tasks _
  | lost => exact .still rfl rfl rfl rfl

theorem Levels.work (step : WorkerStep pool id after note) : Levels pool after := by
  cases step with
  | exit found partial_ =>
      refine ⟨rfl, rfl, fun going => ⟨fun all => ?_, ?_⟩⟩
      · rw [all] at partial_
        cases partial_
      · have live := Workers.live_setPc found .exited
        simp only [WorkerPc.isExited, Bool.false_eq_true, if_false, if_true] at live
        simp only [ThreadPool.level, Workers.length_setPc found]
        omega
  | block found => exact .move found rfl rfl pool.tasks pool.dueNotifies
  | leave found => exact .move found rfl rfl pool.tasks pool.dueNotifies
  | front found => exact .move found rfl rfl pool.tasks pool.dueNotifies
  | take found queue => exact .move found rfl rfl _ pool.dueNotifies
  | run found => exact .move found rfl rfl pool.tasks pool.dueNotifies

theorem Levels.destruct (step : DtorStep pool after) : Levels pool after := by
  cases step with
  | stopAll here => exact ⟨rfl, rfl, fun going => absurd rfl going⟩
  | notifyAll here =>
      refine .still rfl rfl rfl ?_
      simp only [ThreadPool.level, Workers.live_wakeAll]
      rw [Workers.wakeAll, List.length_map]
  | _ => exact .still rfl rfl rfl rfl

theorem handleQueueIdle_eq (some : 1 ≤ pool.workers.length) :
    pool.handleQueueIdle =
      { pool with mgr := if 1 < pool.workers.length then .stopping 1 else .waiting } := by
  unfold handleQueueIdle
  rw [threadChangeSetup, poolMinWorkers, sizeSub_of_le some]
  by_cases more : 1 < pool.workers.length
  · have stays : ¬ pool.workers.length - 1 < 1 := by omega
    rw [if_neg stays, if_pos more]
    rfl
  · have least : pool.workers.length - 1 < 1 := by omega
    have none : ¬ pool.workers.length - 1 > 0 := by omega
    rw [if_pos least, if_neg more]
    exact if_neg none

/-- One step of the manager other than a look. -/
theorem Levels.manage (sound : pool.Sound) (room : pool.workers.length ≤ pool.maxNum)
    (looksNot : pool.mgr ≠ .checking) {choice : Nat}
    (stepped : pool.mgrStep choice = some (after, note)) : Levels pool after := by
  by_cases growing : pool.mgr = .growing
  · simp only [mgrStep, growing] at stepped
    cases stepped
    rw [handleQueueBusy_eq room]
    refine .still rfl rfl rfl ?_
    simp only [ThreadPool.level, growing]
    split
    · rename_i more
      simp [MgrPc.pending, more]
    · rename_i full
      simp [MgrPc.pending, full]
  by_cases shrinking : pool.mgr = .shrinking
  · simp only [mgrStep, shrinking] at stepped
    cases stepped
    have some : 1 ≤ pool.workers.length := sound.live_pos.trans Workers.live_le_length
    rw [handleQueueIdle_eq some]
    refine .still rfl rfl rfl ?_
    simp only [ThreadPool.level, shrinking]
    split
    · rename_i more
      simp [MgrPc.pending, more]
    · rename_i least
      simp [MgrPc.pending, least]
  cases mgrStep_step stepped with
  | select here => exact absurd here looksNot
  | grow here => exact absurd here growing
  | full here => exact absurd here growing
  | shrink here => exact absurd here shrinking
  | least here => exact absurd here shrinking
  | join here loop =>
      obtain ⟨stay, ran, -, live, -⟩ := joinExited_spec sound.once sound.distinct
        fun id => (sound.exited_iff id).mp
      cases ran.symm.trans loop
      refine .still rfl rfl rfl ?_
      simp only [ThreadPool.level, live, here]
      rfl
  | @create left id here new =>
      refine .still rfl rfl rfl ?_
      simp only [ThreadPool.level, Workers.live_append_new, here, MgrPc.pending]
      omega
  | @stop rmWorkers here =>
      have none : pool.stopNum = 0 := sound.calm (by rw [here]; rfl)
      refine ⟨rfl, rfl, fun _ => ⟨by rw [none]; decide, ?_⟩⟩
      simp only [ThreadPool.level, here, none, MgrPc.pending, if_true]
      omega
  | notify here =>
      refine .still rfl rfl rfl ?_
      simp only [ThreadPool.level, Workers.live_wakeAll, here]
      rfl
  | finish here | adjust here | postpone here | complete here | check here | grown here =>
      refine .still rfl rfl rfl ?_
      simp only [ThreadPool.level, here]
      rfl

/-- Where the manager looks, the workers are all there. -/
theorem Sound.level (sound : pool.Sound) (here : pool.mgr = .checking) :
    pool.stopNum = 0 ∧ pool.level = pool.workers.length := by
  have none : pool.stopNum = 0 := sound.calm (by rw [here]; rfl)
  have settled := sound.settled (by rw [here]; rfl)
  have live : pool.workers.live = pool.workers.length :=
    Workers.live_eq_length sound.distinct fun id found => by
      have member := (sound.exited_iff id).mpr found
      rw [settled] at member
      cases member
  refine ⟨none, ?_⟩
  simp only [ThreadPool.level, none, live, here, MgrPc.pending]
  omega

theorem Regulated.look (sound : pool.Sound) (room : pool.workers.length ≤ pool.maxNum)
    (here : pool.mgr = .checking) (regulated : Regulated regulator pool) (size : Nat) :
    Regulated (regulator.look pool.maxNum size) (pool.checkQueueStatus size) := by
  obtain ⟨none, all⟩ := sound.level here
  have count : pool.workers.length = regulator.size := by
    have level := regulated.level (by rw [none]; decide)
    rw [all] at level
    exact Int.ofNat_inj.mp level
  have some : 1 ≤ pool.workers.length := sound.live_pos.trans Workers.live_le_length
  have live : (pool.workers.live : Int) - pool.stopNum = pool.workers.length := by
    rw [← all, ThreadPool.level, here]
    exact (Int.add_zero _).symm
  rw [checkQueueStatus_eq, Regulator.look, regulated.busy, regulated.idle]
  refine ⟨rfl, rfl, fun _ => ?_⟩
  dsimp only [ThreadPool.level]
  rw [live, ← count]
  generalize (if isBusy size then u32 (regulator.busyTimes + 1) else 0) = busyTimes
  generalize (if isIdle size then u32 (regulator.idleTimes + 1) else 0) = idleTimes
  split
  · dsimp only [MgrPc.pending]
    split <;> omega
  · split
    · dsimp only [MgrPc.pending]
      split <;> omega
    · exact Int.add_zero _

theorem looked_none (away : ∀ size, turn = .mgr size → pool.mgr ≠ .checking) :
    (pool.deed turn after note).bind Resize.looked? = none := by
  unfold deed
  split
  · rfl
  · split
    · rfl
    · cases turn with
      | mgr size =>
          dsimp only
          rw [if_neg (away size rfl)]
          rfl
      | _ => rfl

theorem Levels.next (sound : pool.Sound) (room : pool.workers.length ≤ pool.maxNum)
    (away : ∀ size, turn = .mgr size → pool.mgr ≠ .checking)
    (stepped : pool.next turn = some (after, note)) : Levels pool after := by
  cases next_step stepped with
  | @mgr choice => exact .manage sound room (away choice rfl) stepped
  | refuse | enqueue => exact .still rfl rfl rfl rfl
  | notifyOne step | spurious step => exact .wake step
  | worker step => exact .work step
  | dtor step => exact .destruct step

variable {deeds : List (Option Resize)} {start : Nat}

theorem looks_append (deed : Option Resize) :
    looks (deeds ++ [deed]) = looks deeds ++ (deed.bind Resize.looked?).toList := by
  rw [looks, List.reduceOption_append, List.filterMap_append, List.reduceOption_singleton]
  cases deed with
  | none => rfl
  | some deed => cases deed <;> rfl

theorem Regulated.next (sound : pool.Sound) (room : pool.workers.length ≤ pool.maxNum)
    (regulated : Regulated (.follow pool.maxNum start (looks deeds)) pool)
    (stepped : pool.next turn = some (after, note)) :
    Regulated (.follow pool.maxNum start (looks (deeds ++ [pool.deed turn after note]))) after := by
  by_cases look : ∃ size, turn = .mgr size ∧ pool.mgr = .checking
  · obtain ⟨size, rfl, here⟩ := look
    simp only [ThreadPool.next, mgrStep, here] at stepped
    cases stepped
    rw [deed_look here, looks_append]
    exact Regulator.follow_append ▸ regulated.look sound room here size
  · have away (size : Nat) (same : turn = .mgr size) : pool.mgr ≠ .checking :=
      fun here => look ⟨size, same, here⟩
    rw [looks_append, looked_none away, Option.toList_none, List.append_nil]
    exact regulated.keep (.next sound room away stepped)

theorem Regulated.construct {ids : List Nat} (count : ids.length = start) (maxNum : Nat) (dynamic : Bool) :
    Regulated (.follow maxNum start []) (.construct (τ := τ) ids maxNum dynamic) := by
  have rests : (ThreadPool.construct (τ := τ) ids maxNum dynamic).mgr.resizes = false := by
    cases dynamic <;> rfl
  have live : Workers.live (ids.map fun id => (id, WorkerPc.ready (τ := τ))) = ids.length := by
    rw [Workers.live, List.countP_map]
    exact List.countP_eq_length.mpr fun _ _ => rfl
  refine ⟨rfl, rfl, fun _ => ?_⟩
  rw [ThreadPool.level, MgrPc.pending_eq_zero rests]
  simp only [ThreadPool.construct, live, count]
  exact Int.add_zero _

theorem run_regulated {idleNum maxNum : Nat} {dynamic : Bool} (idle : 1 ≤ idleNum) (max : 1 ≤ maxNum)
    (run : (resizing τ idleNum maxNum dynamic).Runs deeds pool) :
    pool.Sound ∧ Regulated (.follow maxNum (min idleNum maxNum) (looks deeds)) pool :=
  @resizing_invariant _ _ _ _ _ _
    (fun deeds pool => Regulated (.follow maxNum (min idleNum maxNum) (looks deeds)) pool) idle max
    (fun _ count => .construct count maxNum dynamic)
    (fun sound capacity room regulated stepped => by
      rw [← capacity] at regulated ⊢
      exact regulated.next sound room stepped) run

/-- The number of workers follows from the looks alone, however the threads were scheduled: but
for the partial stops that are still to be taken, when the manager is not changing it, and
exactly where it looks again. -/
theorem size_regulated {idleNum maxNum : Nat} {dynamic : Bool} (idle : 1 ≤ idleNum) (max : 1 ≤ maxNum)
    (run : (resizing τ idleNum maxNum dynamic).Runs deeds pool) (going : pool.stopNum ≠ threadStopAll) :
    (pool.mgr.resizes = false → (pool.workers.live : Int) =
      (Regulator.follow maxNum (min idleNum maxNum) (looks deeds)).size + pool.stopNum) ∧
    (pool.mgr = .checking →
      pool.workers.length = (Regulator.follow maxNum (min idleNum maxNum) (looks deeds)).size) := by
  obtain ⟨sound, regulated⟩ := run_regulated idle max run
  have level := regulated.level going
  constructor
  · intro rests
    rw [ThreadPool.level, MgrPc.pending_eq_zero rests] at level
    omega
  · intro here
    rw [(sound.level here).2] at level
    exact Int.ofNat_inj.mp level

/-- A worker was made, and is to be taken away again. -/
theorem size_regulated_swing :
    ∃ deeds pool, (resizing Nat 1 2 true).Runs deeds pool ∧ pool.workers.live = 2 ∧ pool.stopNum = 1 ∧
      (Regulator.follow 2 1 (looks deeds)).size = 1 ∧
      (pool.workers.live : Int) = (Regulator.follow 2 1 (looks deeds)).size + pool.stopNum := by
  obtain ⟨deeds, pool, run, done, here, stops, live⟩ := swing_run
  have seen : looks deeds = [101, 200, 150, 9, 0, 5] := by
    rw [looks, done]
    rfl
  refine ⟨deeds, pool, run, live, stops, by rw [seen]; decide, ?_⟩
  exact (size_regulated (by decide) (by decide) run (by rw [stops]; decide)).1 (by rw [here]; rfl)

/-- A queue that stays busy fills the pool, and one that stays idle empties it to one worker. -/
theorem steady_load_settles {idleNum maxNum : Nat} {dynamic : Bool} {earlier row : List Nat}
    (idle : 1 ≤ idleNum) (max : 1 ≤ maxNum) (small : maxNum + 2 ≤ 2 ^ 32)
    (run : (resizing τ idleNum maxNum dynamic).Runs deeds pool) (going : pool.stopNum ≠ threadStopAll)
    (rests : pool.mgr.resizes = false) (seen : looks deeds = earlier ++ row)
    (long : row.length = maxNum + 2) :
    ((∀ size ∈ row, isBusy size = true) → (pool.workers.live : Int) = maxNum + pool.stopNum) ∧
    ((∀ size ∈ row, isIdle size = true) → (pool.workers.live : Int) = 1 + pool.stopNum) := by
  obtain ⟨-, regulated⟩ := run_regulated idle max run
  have level := regulated.level going
  rw [ThreadPool.level, MgrPc.pending_eq_zero rests, seen] at level
  obtain ⟨full, least⟩ := @Regulator.follow_steady maxNum (min idleNum maxNum) row
    (by omega) (Nat.min_le_right _ _) small long earlier
  constructor
  · intro busy
    rw [full busy] at level
    omega
  · intro quiet
    rw [least quiet] at level
    omega

/-- Four busy looks, the last one at a full pool. -/
def busyTurns : List (PoolTurn Nat) :=
  let round (size : Nat) : List (PoolTurn Nat) := [.mgr 0, .mgr 0, .mgr 0, .mgr size]
  round 101 ++ round 200 ++ round 150 ++ [.mgr 0, .mgr 7, .mgr 0] ++ round 300 ++ [.mgr 0]

theorem steady_load_settles_busy :
    ∃ deeds pool, (resizing Nat 1 2 true).Runs deeds pool ∧ looks deeds = [101, 200, 150, 300] ∧
      pool.mgr = .waiting ∧ pool.stopNum = 0 ∧ (pool.workers.live : Int) = 2 + pool.stopNum := by
  have outcome : (System.follow (fun pool turn => (pool.next turn).map fun moved =>
      (moved.1, pool.deed turn moved.1 moved.2)) (construct [0] 2 true) busyTurns).map
        (fun reached => (looks reached.2, reached.1.mgr, reached.1.stopNum)) =
      some ([101, 200, 150, 300], .waiting, 0) := by
    decide +kernel
  obtain ⟨⟨pool, deeds⟩, followed, reads⟩ := Option.map_eq_some_iff.mp outcome
  obtain ⟨seen, here, none⟩ : looks deeds = [101, 200, 150, 300] ∧ pool.mgr = .waiting ∧
      pool.stopNum = 0 := by simpa using reads
  have start : (resizing Nat 1 2 true).Runs [] (construct [0] 2 true) :=
    .start ⟨[0], by decide, rfl, rfl⟩
  have run : (resizing Nat 1 2 true).Runs deeds pool := start.follow followed
  have all : looks deeds = [] ++ [101, 200, 150, 300] := seen
  refine ⟨deeds, pool, run, seen, here, none, ?_⟩
  exact (steady_load_settles (by decide) (by decide) (by decide) run (by rw [none]; decide)
    (by rw [here]; rfl) all rfl).1 (by decide)

end ThreadPool

end LiteWebServer
