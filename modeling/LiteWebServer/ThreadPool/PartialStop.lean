import LiteWebServer.ThreadPool.Bookkeeping
import Mathlib.Data.Fintype.EquivFin
import Mathlib.Logic.Relation

namespace LiteWebServer

open Data

/-! Whether a partial stop can always be taken, so that the manager gets on. -/

namespace ThreadPool

/-- A step of a worker or of the manager. -/
def OwnStep (pool after : ThreadPool τ) : Prop :=
  ∃ note, (∃ id, pool.workerStep id = some (after, note)) ∨
    ∃ choice, pool.mgrStep choice = some (after, note)

/-- The workers and the manager can get there by themselves. -/
abbrev Leads : ThreadPool τ → ThreadPool τ → Prop := Relation.ReflTransGen OwnStep

/-- What is to hold in front of the destructor. -/
structure GetsOn (pool : ThreadPool τ) : Prop where
  /-- A partial stop finds a worker to take it. -/
  consumable : 0 < pool.stopNum → ∃ id pc, pool.workers.pcOf id = some pc ∧ pc.isExited = false
  /-- Neither subtraction of `handle_queue_idle` wraps. -/
  unwrapped : pool.mgr = .shrinking →
    threadChangeSetup ≤ pool.workers.length ∧ poolMinWorkers ≤ pool.workers.length
  /-- `make_adjust_complete` returns true at some time. -/
  completes : ∃ after, Leads pool after ∧ after.mgr = .checking
  /-- A queue that stays busy gets all the workers that are allowed. -/
  grows : ∃ after, Leads pool after ∧ after.workers.live = after.maxNum

variable {pool after : ThreadPool τ} {id : Nat} {note : PoolNote τ}

theorem leads_worker (stepped : pool.workerStep id = some (after, note)) : Leads pool after :=
  .single ⟨note, .inl ⟨id, stepped⟩⟩

theorem leads_mgr (choice : Nat) (stepped : pool.mgrStep choice = some (after, note)) :
    Leads pool after := .single ⟨note, .inr ⟨choice, stepped⟩⟩

/-- Nothing has been done to the manager from outside. -/
structure SameControl (pool after : ThreadPool τ) : Prop where
  dtor : after.dtor = pool.dtor
  stopMgr : after.stopMgr = pool.stopMgr
  mgr : after.mgr = pool.mgr

theorem SameControl.wake (step : WakeStep pool after) : SameControl pool after := by
  cases step <;> exact ⟨rfl, rfl, rfl⟩

theorem SameControl.work (step : WorkerStep pool id after note) : SameControl pool after := by
  cases step <;> exact ⟨rfl, rfl, rfl⟩

/-- The manager works on while nobody stops it, and leaves the destructor alone. -/
theorem MgrStep.control (step : MgrStep pool after note) :
    after.dtor = pool.dtor ∧ after.stopMgr = pool.stopMgr ∧
      (pool.stopMgr = false → after.mgr.working = true) := by
  cases step with
  | finish here stop => exact ⟨rfl, rfl, fun going => by simp [going] at stop⟩
  | select here next =>
      refine ⟨rfl, rfl, fun _ => ?_⟩
      rcases next with rfl | rfl | rfl <;> rfl
  | _ => exact ⟨rfl, rfl, fun _ => rfl⟩

theorem DtorStep.called (step : DtorStep pool after) : after.dtor ≠ .notCalled := by
  cases step <;> nofun

/-- A step in front of the destructor. -/
theorem next_control {turn : PoolTurn τ} (stepped : pool.next turn = some (after, note))
    (early : after.dtor = .notCalled) :
    pool.dtor = .notCalled ∧ (pool.stopMgr = false → after.stopMgr = false ∧
      (pool.mgr.working = true → after.mgr.working = true)) := by
  have same (control : SameControl pool after) : pool.dtor = .notCalled ∧
      (pool.stopMgr = false → after.stopMgr = false ∧
        (pool.mgr.working = true → after.mgr.working = true)) :=
    ⟨control.dtor.symm.trans early,
      fun going => ⟨control.stopMgr.trans going, fun working => control.mgr ▸ working⟩⟩
  cases next_step stepped with
  | refuse stopped => exact same ⟨rfl, rfl, rfl⟩
  | enqueue going => exact same ⟨rfl, rfl, rfl⟩
  | notifyOne step => exact same (.wake step)
  | spurious step => exact same (.wake step)
  | worker step => exact same (.work step)
  | mgr step =>
      obtain ⟨dtor, stopMgr, working⟩ := step.control
      exact ⟨dtor.symm.trans early, fun going => ⟨stopMgr.trans going, fun _ => working going⟩⟩
  | dtor step => exact absurd early step.called

/-- A pool with a manager in front of its destructor. -/
structure Managed (pool : ThreadPool τ) : Prop extends Sound pool where
  early : pool.dtor = .notCalled
  going : pool.stopMgr = false
  working : pool.mgr.working = true
  room : pool.workers.length + pool.mgr.demand ≤ pool.maxNum

theorem Managed.next (managed : pool.Managed) {turn : PoolTurn τ}
    (stepped : pool.next turn = some (after, note)) (early : after.dtor = .notCalled) : after.Managed := by
  obtain ⟨-, control⟩ := next_control stepped early
  exact { (managed.toSound.next stepped).1 with
    early := early
    going := (control managed.going).1
    working := (control managed.going).2 managed.working
    room := (Staffs.next managed.toSound stepped).room managed.room }

theorem Managed.leads (managed : pool.Managed) (leads : Leads pool after) : after.Managed := by
  induction leads with
  | refl => exact managed
  | @tail before after _ step ih =>
      obtain ⟨note, ⟨id, stepped⟩ | ⟨choice, stepped⟩⟩ := step
      · have turn : before.next (.worker id) = some (after, note) := stepped
        exact ih.next turn ((SameControl.work (workerStep_step stepped)).dtor.trans ih.early)
      · have turn : before.next (.mgr choice) = some (after, note) := stepped
        exact ih.next turn ((mgrStep_step stepped).control.1.trans ih.early)

/-! ## The way to the next round -/

/-- The manager waits, or looks at the queue. -/
def Rests (pool : ThreadPool τ) : Prop := pool.mgr = .waiting ∨ pool.mgr = .checking

theorem rests_notifying (here : pool.mgr = .notifying) : ∃ after, Leads pool after ∧ after.Rests :=
  ⟨_, leads_mgr 0 (by rw [mgrStep, here]), .inl rfl⟩

theorem rests_stopping {rmWorkers : Nat} (here : pool.mgr = .stopping rmWorkers) :
    ∃ after, Leads pool after ∧ after.Rests := by
  obtain ⟨after, leads, rests⟩ := @rests_notifying _
    { pool with stopNum := if pool.stopNum = 0 then rmWorkers else pool.stopNum, mgr := .notifying } rfl
  exact ⟨after, (leads_mgr 0 (by rw [mgrStep, here])).trans leads, rests⟩

theorem rests_shrinking (here : pool.mgr = .shrinking) : ∃ after, Leads pool after ∧ after.Rests := by
  have idle : Leads pool pool.handleQueueIdle := leads_mgr 0 (by rw [mgrStep, here])
  have either : (∃ rmWorkers, pool.handleQueueIdle.mgr = .stopping rmWorkers) ∨
      pool.handleQueueIdle.mgr = .waiting := by
    unfold handleQueueIdle
    dsimp only
    repeat' split
    all_goals first | exact .inl ⟨_, rfl⟩ | exact .inr rfl
  rcases either with ⟨rmWorkers, stopping⟩ | waiting
  · obtain ⟨after, leads, rests⟩ := rests_stopping stopping
    exact ⟨after, idle.trans leads, rests⟩
  · exact ⟨_, idle, .inl waiting⟩

theorem exists_new_id (workers : Workers τ) : ∃ id, id ∉ workers.ids := by
  obtain ⟨id, new⟩ := Infinite.exists_notMem_finset workers.ids.toFinset
  exact ⟨id, fun member => new (List.mem_toFinset.mpr member)⟩

theorem createWorker_new {newWorkers : Nat} (new : id ∉ pool.workers.ids) :
    pool.createWorker (newWorkers + 1) id = some ({ pool with
      mgr := .creating newWorkers, workers := pool.workers ++ [(id, .ready)] }, .created id) :=
  if_neg new

theorem rests_creating (newWorkers : Nat) {pool : ThreadPool τ} (here : pool.mgr = .creating newWorkers) :
    ∃ after, Leads pool after ∧ after.Rests := by
  induction newWorkers generalizing pool with
  | zero => exact ⟨_, leads_mgr 0 (by rw [mgrStep, here]; rfl), .inl rfl⟩
  | succ left ih =>
      obtain ⟨id, new⟩ := exists_new_id pool.workers
      obtain ⟨after, leads, rests⟩ := @ih { pool with
        mgr := .creating left, workers := pool.workers ++ [(id, .ready)] } rfl
      exact ⟨after, (leads_mgr id (by rw [mgrStep, here]; exact createWorker_new new)).trans leads, rests⟩

theorem rests_growing (here : pool.mgr = .growing) : ∃ after, Leads pool after ∧ after.Rests := by
  have busy : Leads pool pool.handleQueueBusy := leads_mgr 0 (by rw [mgrStep, here])
  have either : (∃ newWorkers, pool.handleQueueBusy.mgr = .creating newWorkers) ∨
      pool.handleQueueBusy.mgr = .waiting := by
    unfold handleQueueBusy
    dsimp only
    repeat' split
    all_goals first | exact .inl ⟨_, rfl⟩ | exact .inr rfl
  rcases either with ⟨newWorkers, creating⟩ | waiting
  · obtain ⟨after, leads, rests⟩ := rests_creating newWorkers creating
    exact ⟨after, busy.trans leads, rests⟩
  · exact ⟨_, busy, .inl waiting⟩

/-- The block under `workers_mutex_`: there is nothing to join, or all of it is joined. -/
theorem Sound.adjusts (sound : pool.Sound) (here : pool.mgr = .joining) :
    (pool.exitedWorkers = [] ∧ Leads pool { pool with mgr := .checking }) ∨
      pool.exitedWorkers ≠ [] ∧ ∃ after, Leads pool after ∧ after.mgr = .waiting ∧
        after.exitedWorkers = [] ∧ after.stopNum = pool.stopNum := by
  by_cases none : pool.exitedWorkers = []
  · left
    have stepped : pool.mgrStep 0 = some ({ pool with mgr := .checking }, .quiet) := by
      rw [ThreadPool.mgrStep, here]
      exact if_pos none
    exact ⟨none, leads_mgr 0 stepped⟩
  · right
    obtain ⟨stay, joined, -⟩ := joinExited_spec sound.once sound.distinct
      fun id => (sound.exited_iff id).mp
    have stepped : pool.mgrStep 0 = some ({ pool with
        workers := stay, exitedWorkers := [], mgr := .waiting }, .joined pool.exitedWorkers) := by
      simp [ThreadPool.mgrStep, here, ThreadPool.makeAdjustComplete, none, joined]
    exact ⟨none, _, leads_mgr 0 stepped, rfl, rfl, rfl⟩

theorem Managed.rests (managed : pool.Managed) : ∃ after, Leads pool after ∧ after.Rests := by
  have joins {pool : ThreadPool τ} (sound : pool.Sound) (here : pool.mgr = .joining) :
      ∃ after, Leads pool after ∧ after.Rests := by
    rcases sound.adjusts here with ⟨-, leads⟩ | ⟨-, after, leads, waiting, -⟩
    · exact ⟨_, leads, .inr rfl⟩
    · exact ⟨after, leads, .inl waiting⟩
  have working := managed.working
  cases here : pool.mgr with
  | absent => simp [here, MgrPc.working] at working
  | waiting => exact ⟨pool, .refl, .inl here⟩
  | adjusting =>
      by_cases partial_ : 0 < pool.stopNum
      · exact ⟨_, leads_mgr 0 (by rw [mgrStep, here]; exact if_pos partial_), .inl rfl⟩
      · have leads : Leads pool { pool with mgr := .joining } :=
          leads_mgr 0 (by rw [mgrStep, here]; exact if_neg partial_)
        obtain ⟨after, further, rests⟩ := joins (managed.leads leads).toSound rfl
        exact ⟨after, leads.trans further, rests⟩
  | joining => exact joins managed.toSound here
  | checking => exact ⟨pool, .refl, .inr here⟩
  | growing => exact rests_growing here
  | creating newWorkers => exact rests_creating newWorkers here
  | shrinking => exact rests_shrinking here
  | stopping rmWorkers => exact rests_stopping here
  | notifying => exact rests_notifying here
  | finished => simp [here, MgrPc.working] at working

theorem workerStep_ready (here : pool.workers.pcOf id = some .ready) :
    pool.workerStep id = some (pool.workerBlock id) := by
  rw [workerStep, here]

/-- A worker that comes to the queue takes the partial stop. -/
theorem takes_stop (partial_ : 0 < pool.stopNum) :
    pool.workerBlock id = ({ pool with
      exitedWorkers := pool.exitedWorkers.insert id, stopNum := pool.stopNum - 1,
      workers := pool.workers.setPc id .exited }, .exited id) := by
  rw [workerBlock, if_neg (not_not.mpr (.inl (by omega))), if_pos partial_]

/-- While a partial stop is open and nobody is about to notify, some worker comes for it. -/
theorem Managed.exit_one (managed : pool.Managed) (here : pool.mgr = .waiting)
    (partial_ : 0 < pool.stopNum) :
    ∃ after, Leads pool after ∧ after.mgr = .waiting ∧ after.stopNum = pool.stopNum - 1 := by
  have quiet : ¬ pool.Notifying := by
    simp [ThreadPool.Notifying, here, managed.early]
  have exits {pool : ThreadPool τ} {id : Nat} (ready : pool.workers.pcOf id = some .ready)
      (here : pool.mgr = .waiting) (partial_ : 0 < pool.stopNum) :
      ∃ after, Leads pool after ∧ after.mgr = .waiting ∧ after.stopNum = pool.stopNum - 1 :=
    ⟨_, leads_worker ((workerStep_ready ready).trans (congrArg some (takes_stop partial_))),
      here, rfl⟩
  obtain ⟨id, pc, found, live⟩ := Workers.exists_live managed.distinct managed.live_pos
  cases pc with
  | ready => exact exits found here partial_
  | running task =>
      have ends : pool.workerStep id =
          some ({ pool with workers := pool.workers.setPc id .ready }, .ran id task) := by
        rw [workerStep, found]
      have ready : (pool.workers.setPc id .ready).pcOf id = some .ready := by
        rw [Workers.pcOf_setPc found, if_pos rfl]
      obtain ⟨after, leads, waiting, count⟩ :=
        @exits { pool with workers := pool.workers.setPc id .ready } id ready here partial_
      exact ⟨after, (leads_worker ends).trans leads, waiting, count⟩
  | waiting => exact absurd (managed.noticed id found (by omega)) quiet
  | exited => cases live
  | finished =>
      have all := (managed.left id found).1
      rw [threadStopAll] at all
      omega
  | wild => exact absurd found (managed.tame id)

/-- So a partial stop is used up. -/
theorem Managed.drains (managed : pool.Managed) (here : pool.mgr = .waiting) :
    ∃ after, Leads pool after ∧ after.mgr = .waiting ∧ after.stopNum ≤ 0 := by
  generalize count : pool.stopNum.toNat = left
  induction left generalizing pool with
  | zero => exact ⟨pool, .refl, here, by omega⟩
  | succ left ih =>
      obtain ⟨next, leads, waiting, fewer⟩ := managed.exit_one here (by omega)
      obtain ⟨after, further, rests, none⟩ := ih (managed.leads leads) waiting (by omega)
      exact ⟨after, leads.trans further, rests, none⟩

/-- Without a partial stop the manager comes to the block that joins. -/
theorem leads_joining (going : pool.stopMgr = false) (here : pool.mgr = .waiting)
    (none : pool.stopNum ≤ 0) : Leads pool { pool with mgr := .joining } := by
  have first : pool.mgrStep 0 = some ({ pool with mgr := .adjusting }, .quiet) := by
    simp [mgrStep, here, going]
  have second : mgrStep { pool with mgr := .adjusting } 0 =
      some ({ pool with mgr := .joining }, .quiet) := if_neg (by simpa using none)
  exact (leads_mgr 0 first).trans (leads_mgr 0 second)

/-- The manager always comes to look at the queue again. -/
theorem Managed.completes (managed : pool.Managed) :
    ∃ after, Leads pool after ∧ after.mgr = .checking := by
  obtain ⟨rested, leads, waiting | checking⟩ := managed.rests
  · obtain ⟨drained, further, waiting, none⟩ := (managed.leads leads).drains waiting
    have leads := leads.trans further
    have joining := leads_joining (managed.leads leads).going waiting none
    rcases (managed.leads (leads.trans joining)).toSound.adjusts rfl with
      ⟨-, done⟩ | ⟨-, joined, joins, waiting, empty, same⟩
    · exact ⟨_, leads.trans (joining.trans done), rfl⟩
    · -- The exited workers are joined, so the next round finds none.
      have leads := leads.trans (joining.trans joins)
      have joining := leads_joining (managed.leads leads).going waiting (same.trans_le none)
      rcases (managed.leads (leads.trans joining)).toSound.adjusts rfl with
        ⟨-, done⟩ | ⟨some, -⟩
      · exact ⟨_, leads.trans (joining.trans done), rfl⟩
      · exact absurd empty some
  · exact ⟨rested, leads, checking⟩

/-! ## Growing -/

/-- A round that finds nothing to wait for and nothing to join. -/
theorem leads_checking (going : pool.stopMgr = false) (here : pool.mgr = .waiting)
    (none : pool.stopNum ≤ 0) (empty : pool.exitedWorkers = []) :
    Leads pool { pool with mgr := .checking } := by
  have last : mgrStep { pool with mgr := .joining } 0 =
      some ({ pool with mgr := .checking }, .quiet) := if_pos empty
  exact (leads_joining going here none).trans (leads_mgr 0 last)

theorem leads_look (here : pool.mgr = .checking) (size : Nat) :
    Leads pool (pool.checkQueueStatus size) := leads_mgr size (by rw [mgrStep, here])

/-- Three busy rounds make a worker more. -/
theorem Managed.grow_once (managed : pool.Managed) (here : pool.mgr = .checking)
    (short : pool.workers.length < pool.maxNum) :
    ∃ after, Leads pool after ∧ after.mgr = .checking ∧ after.maxNum = pool.maxNum ∧
      after.workers.length = pool.workers.length + 1 := by
  have none : pool.stopNum ≤ 0 := (managed.calm (by rw [here]; rfl)).le
  have empty := managed.settled (by rw [here]; rfl)
  have round (busy : Nat) : Leads { pool with busyTimes := busy, idleTimes := 0, mgr := .waiting }
      { pool with busyTimes := busy, idleTimes := 0, mgr := .checking } :=
    leads_checking managed.going rfl none empty
  have zero : Leads pool { pool with busyTimes := 0, idleTimes := 0, mgr := .waiting } :=
    leads_look here 50
  have one : Leads { pool with busyTimes := 0, idleTimes := 0, mgr := .checking }
      { pool with busyTimes := 1, idleTimes := 0, mgr := .waiting } := leads_look rfl 101
  have two : Leads { pool with busyTimes := 1, idleTimes := 0, mgr := .checking }
      { pool with busyTimes := 2, idleTimes := 0, mgr := .waiting } := leads_look rfl 101
  have three : Leads { pool with busyTimes := 2, idleTimes := 0, mgr := .checking }
      { pool with busyTimes := 3, idleTimes := 0, mgr := .growing } := leads_look rfl 101
  have creates : Leads { pool with busyTimes := 3, idleTimes := 0, mgr := .growing }
      { pool with busyTimes := 3, idleTimes := 0, mgr := .creating 1 } := by
    have busy : handleQueueBusy { pool with busyTimes := 3, idleTimes := 0, mgr := .growing } =
        { pool with busyTimes := 3, idleTimes := 0, mgr := .creating 1 } := by
      have fits : ¬ pool.workers.length + threadChangeSetup > pool.maxNum := Nat.not_lt.mpr short
      simp only [handleQueueBusy, if_neg fits]
      rfl
    exact leads_mgr 0 (by rw [mgrStep, busy])
  obtain ⟨id, new⟩ := exists_new_id pool.workers
  have created : Leads { pool with busyTimes := 3, idleTimes := 0, mgr := .creating 1 }
      { pool with busyTimes := 3, idleTimes := 0, mgr := .creating 0,
                  workers := pool.workers ++ [(id, .ready)] } := leads_mgr id (createWorker_new new)
  have done : Leads { pool with busyTimes := 3, idleTimes := 0, mgr := .creating 0,
                                workers := pool.workers ++ [(id, .ready)] }
      { pool with busyTimes := 3, idleTimes := 0, mgr := .waiting,
                  workers := pool.workers ++ [(id, .ready)] } := leads_mgr 0 rfl
  have again : Leads { pool with busyTimes := 3, idleTimes := 0, mgr := .waiting,
                                 workers := pool.workers ++ [(id, .ready)] }
      { pool with busyTimes := 3, idleTimes := 0, mgr := .checking,
                  workers := pool.workers ++ [(id, .ready)] } :=
    leads_checking managed.going rfl none empty
  have way := zero.trans <| (round 0).trans <| one.trans <| (round 1).trans <| two.trans <|
    (round 2).trans <| three.trans <| creates.trans <| created.trans <| done.trans again
  exact ⟨_, way, rfl, rfl, List.length_append⟩

theorem Managed.grows_from (managed : pool.Managed) (here : pool.mgr = .checking) :
    ∃ after, Leads pool after ∧ after.workers.live = after.maxNum := by
  generalize count : pool.maxNum - pool.workers.length = missing
  have room := managed.room
  induction missing generalizing pool with
  | zero =>
      have all := Workers.live_eq_length managed.distinct fun id found => by
        have member := (managed.exited_iff id).mpr found
        rw [managed.settled (by rw [here]; rfl)] at member
        cases member
      exact ⟨pool, .refl, by omega⟩
  | succ missing ih =>
      obtain ⟨next, leads, checking, capacity, longer⟩ := managed.grow_once here (by omega)
      obtain ⟨after, further, full⟩ := ih (managed.leads leads) checking (by omega)
        (managed.leads leads).room
      exact ⟨after, leads.trans further, full⟩

theorem Managed.getsOn (managed : pool.Managed) : pool.GetsOn where
  consumable _ := Workers.exists_live managed.distinct managed.live_pos
  unwrapped _ := by
    have some : 1 ≤ pool.workers.length := managed.live_pos.trans Workers.live_le_length
    exact ⟨some, some⟩
  completes := managed.completes
  grows := by
    obtain ⟨next, leads, checking⟩ := managed.completes
    obtain ⟨after, further, full⟩ := (managed.leads leads).grows_from checking
    exact ⟨after, leads.trans further, full⟩

/-! ## A pool without workers -/

/-- A partial stop is open and there is nobody to take it. -/
structure Stalled (pool : ThreadPool τ) : Prop where
  none : pool.workers = []
  partial_ : 0 < pool.stopNum
  going : pool.stopMgr = false
  mgr : pool.mgr = .waiting ∨ pool.mgr = .adjusting ∨ pool.mgr = .notifying

theorem Stalled.pcOf (stalled : pool.Stalled) (id : Nat) : pool.workers.pcOf id = .none := by
  rw [stalled.none]
  rfl

theorem Stalled.mgrStep (stalled : pool.Stalled) {choice : Nat}
    (stepped : pool.mgrStep choice = some (after, note)) : after.Stalled := by
  unfold ThreadPool.mgrStep at stepped
  rcases stalled.mgr with here | here | here
  · simp only [here, stalled.going, Bool.false_eq_true, if_false] at stepped
    cases stepped
    exact ⟨stalled.none, stalled.partial_, rfl, .inr (.inl rfl)⟩
  · simp only [here, if_pos stalled.partial_] at stepped
    cases stepped
    exact ⟨stalled.none, stalled.partial_, stalled.going, .inl rfl⟩
  · simp only [here] at stepped
    cases stepped
    refine ⟨?_, stalled.partial_, stalled.going, .inl rfl⟩
    simp [Workers.wakeAll, stalled.none]

theorem Stalled.wake (stalled : pool.Stalled) (step : WakeStep pool after) : after.Stalled := by
  cases step with
  | woken found spent => cases (stalled.pcOf _).symm.trans found
  | lost awake => exact ⟨stalled.none, stalled.partial_, stalled.going, stalled.mgr⟩

/-- Only the destructor gets the manager out of this. -/
theorem Stalled.next (stalled : pool.Stalled) {turn : PoolTurn τ} (early : turn ≠ .dtor)
    (stepped : pool.next turn = some (after, note)) : after.Stalled := by
  cases next_step stepped with
  | refuse stopped => exact stalled
  | enqueue running => exact ⟨stalled.none, stalled.partial_, stalled.going, stalled.mgr⟩
  | notifyOne step => exact stalled.wake step
  | spurious step => exact stalled.wake step
  | worker step =>
      rw [ThreadPool.next, workerStep, stalled.pcOf] at stepped
      cases stepped
  | mgr step => exact stalled.mgrStep stepped
  | dtor step => exact absurd rfl early

theorem Stalled.follow {turns : List (PoolTurn τ)} {notes : List (PoolNote τ)} (stalled : pool.Stalled)
    (early : .dtor ∉ turns) (ran : System.follow ThreadPool.next pool turns = some (after, notes)) :
    after.Stalled := by
  induction turns generalizing pool notes with
  | nil =>
      cases ran
      exact stalled
  | cons turn later ih =>
      obtain ⟨between, note, rest, stepped, onward, -⟩ := System.follow_cons.mp ran
      obtain ⟨here, behind⟩ := List.ne_and_not_mem_of_not_mem_cons early
      exact ih (stalled.next (Ne.symm here) stepped) behind onward

/-- Three rounds that see an empty queue, and the partial stop after them. -/
def idleTurns : List (PoolTurn τ) :=
  let round : List (PoolTurn τ) := [.mgr 0, .mgr 0, .mgr 0, .mgr 0]
  round ++ round ++ round ++ [.mgr 0, .mgr 0]

/-- `0 - THREAD_CHANGE_SETUP` wraps, and the manager asks for a worker that is not there. -/
theorem idle_rounds_stall (maxNum : Nat) :
    ∃ pool notes, System.follow next (construct (τ := τ) [] maxNum true) idleTurns = some (pool, notes) ∧
      pool.dtor = .notCalled ∧ pool.Stalled :=
  ⟨_, _, rfl, rfl, rfl, Int.zero_lt_one, rfl, .inr (.inr rfl)⟩

/-- In front of the destructor a pool always gets on exactly when it was given a worker. -/
theorem gets_on_iff {idleNum maxNum : Nat} (max : 1 ≤ maxNum) :
    (∀ (notes : List (PoolNote τ)) (pool : ThreadPool τ),
      (system τ idleNum maxNum true).Runs notes pool → pool.dtor = .notCalled → pool.GetsOn) ↔
      1 ≤ idleNum := by
  constructor
  · intro always
    by_contra none
    have zero : idleNum = 0 := by omega
    subst zero
    obtain ⟨pool, notes, ran, early, stalled⟩ := idle_rounds_stall (τ := τ) maxNum
    have start : (system τ 0 maxNum true).Runs [] (construct [] maxNum true) :=
      .start ⟨[], List.nodup_nil, (Nat.zero_min maxNum).symm, rfl⟩
    obtain ⟨id, pc, found, -⟩ := (always _ pool (start.follow ran) early).consumable stalled.partial_
    rw [stalled.pcOf] at found
    cases found
  · intro idle notes pool run early
    suffices managed : pool.dtor = .notCalled → pool.Managed from (managed early).getsOn
    refine @System.Runs.invariant _ _ _
      (fun _ pool => pool.dtor = .notCalled → pool.Managed) ?_ ?_ _ _ run
    · intro pool held early
      obtain ⟨ids, distinct, count, rfl⟩ := held
      refine { construct_sound distinct (by omega) maxNum true with
        early := rfl, going := rfl, working := rfl, room := ?_ }
      have idle : (construct (τ := τ) ids maxNum true).mgr.demand = 0 := rfl
      rw [idle]
      simp only [construct, List.length_map]
      omega
    · intro notes before note after held step early
      obtain ⟨turn, stepped⟩ := step
      exact (held (next_control stepped early).1).next stepped early

/-- The same rounds with one worker. -/
theorem gets_on_with_one_worker :
    ∃ (pool : ThreadPool Nat) (notes : List (PoolNote Nat)),
      System.follow next (construct [0] 1 true) idleTurns = some (pool, notes) ∧
        pool.mgr = .adjusting ∧ pool.GetsOn := by
  have start : (system Nat 1 1 true).Runs [] (construct [0] 1 true) :=
    .start ⟨[0], List.nodup_singleton 0, rfl, rfl⟩
  obtain ⟨pool, notes, ran, here, early⟩ : ∃ pool notes,
      System.follow next (construct (τ := Nat) [0] 1 true) idleTurns = some (pool, notes) ∧
        pool.mgr = .adjusting ∧ pool.dtor = .notCalled := ⟨_, _, rfl, rfl, rfl⟩
  exact ⟨pool, notes, ran, here, (gets_on_iff le_rfl).mpr le_rfl _ pool (start.follow ran) early⟩

/-- A pool that starts empty stops a worker it does not have, and is never rid of that. -/
theorem empty_pool_stalls :
    ∃ (notes : List (PoolNote Nat)) (pool : ThreadPool Nat), (system Nat 0 1 true).Runs notes pool ∧
      pool.dtor = .notCalled ∧ 0 < pool.stopNum ∧ pool.workers = [] ∧
      ∀ turns after later, .dtor ∉ turns → System.follow next pool turns = some (after, later) →
        after.mgr ≠ .checking ∧ after.workers = [] := by
  obtain ⟨pool, notes, ran, early, stalled⟩ := idle_rounds_stall (τ := Nat) 1
  have start : (system Nat 0 1 true).Runs [] (construct [] 1 true) :=
    .start ⟨[], List.nodup_nil, rfl, rfl⟩
  refine ⟨notes, pool, start.follow ran, early, stalled.partial_, stalled.none,
    fun turns after later early ran => ?_⟩
  have still := stalled.follow early ran
  refine ⟨fun checking => ?_, still.none⟩
  rcases still.mgr with here | here | here <;> simp [checking] at here

end ThreadPool

end LiteWebServer
