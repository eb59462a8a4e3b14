import LiteWebServer.ThreadPool.Steps
import Mathlib.Data.List.Nodup

namespace LiteWebServer

open Data

/-! The invariant of the thread pool. -/

namespace Workers

variable {workers : Workers τ} {id other : Nat} {pc old : WorkerPc τ}

theorem pcOf_of_absent (absent : id ∉ workers.map Prod.fst) : workers.pcOf id = none :=
  List.lookup_eq_none_iff.mpr fun worker member =>
    bne_iff_ne.mpr fun same => absent (List.mem_map.mpr ⟨worker, member, same.symm⟩)

/-- A worker stands behind threads with other ids. -/
theorem pcOf_split (found : workers.pcOf id = some old) :
    ∃ front back, workers = front ++ (id, old) :: back ∧ id ∉ front.map Prod.fst := by
  obtain ⟨front, back, shape, others⟩ := List.lookup_eq_some_iff.mp found
  refine ⟨front, back, shape, fun member => ?_⟩
  obtain ⟨worker, earlier, same⟩ := List.mem_map.mp member
  exact bne_iff_ne.mp (others worker earlier) same.symm

variable {front back : Workers τ}

theorem pcOf_middle (absent : id ∉ front.map Prod.fst) (other : Nat) :
    pcOf (front ++ (id, pc) :: back) other =
      if other = id then some pc else pcOf (front ++ back) other := by
  rw [pcOf, pcOf, List.lookup_append, List.lookup_append, List.lookup_cons]
  by_cases same : other = id
  · subst other
    have none : front.lookup id = none := pcOf_of_absent absent
    simp [none]
  · rw [beq_false_of_ne same, if_neg same]

theorem setPc_middle (absent : id ∉ front.map Prod.fst) (pc : WorkerPc τ) :
    setPc (front ++ (id, old) :: back) id pc = front ++ (id, pc) :: back := by
  induction front with
  | nil => simp [setPc]
  | cons worker front ih =>
      simp only [List.map_cons, List.mem_cons, not_or] at absent
      rw [List.cons_append, setPc, if_neg (Ne.symm absent.1), ih absent.2, List.cons_append]

theorem eraseP_middle (absent : id ∉ front.map Prod.fst) :
    ((front ++ (id, old) :: back).eraseP fun worker => worker.1 = id) = front ++ back := by
  rw [List.eraseP_append_right _ fun worker member same =>
      absent (List.mem_map.mpr ⟨worker, member, of_decide_eq_true same⟩)]
  simp

theorem pcOf_setPc (found : workers.pcOf id = some old) (other : Nat) :
    (workers.setPc id pc).pcOf other = if other = id then some pc else workers.pcOf other := by
  obtain ⟨front, back, shape, absent⟩ := pcOf_split found
  rw [shape, setPc_middle absent, pcOf_middle absent, pcOf_middle absent]
  split
  · rfl
  · rfl

theorem ids_setPc (found : workers.pcOf id = some old) :
    (workers.setPc id pc).map Prod.fst = workers.map Prod.fst := by
  obtain ⟨front, back, shape, absent⟩ := pcOf_split found
  simp [shape, setPc_middle absent]

theorem length_setPc (found : workers.pcOf id = some old) :
    (workers.setPc id pc).length = workers.length := by
  obtain ⟨front, back, shape, absent⟩ := pcOf_split found
  simp [shape, setPc_middle absent]

theorem countP_setPc (counts : WorkerPc τ → Bool) (found : workers.pcOf id = some old)
    (pc : WorkerPc τ) :
    (workers.setPc id pc).countP (fun worker => counts worker.2) + (if counts old then 1 else 0) =
      workers.countP (fun worker => counts worker.2) + (if counts pc then 1 else 0) := by
  obtain ⟨front, back, shape, absent⟩ := pcOf_split found
  rw [shape, setPc_middle absent, List.countP_append, List.countP_append, List.countP_cons,
    List.countP_cons]
  dsimp only
  omega

theorem live_setPc (found : workers.pcOf id = some old) (pc : WorkerPc τ) :
    (workers.setPc id pc).live + (if old.isExited then 0 else 1) =
      workers.live + (if pc.isExited then 0 else 1) := by
  have counted := countP_setPc (fun pc => !pc.isExited) found pc
  rw [live, live]
  cases here : old.isExited <;> cases there : pc.isExited <;> simpa [here, there] using counted

theorem pcOf_wakeAll : workers.wakeAll.pcOf id = (workers.pcOf id).map WorkerPc.wake := by
  induction workers with
  | nil => rfl
  | cons worker rest ih =>
      obtain ⟨name, here⟩ := worker
      by_cases same : id = name
      · subst id
        simp [wakeAll, pcOf]
      · have skip (pc : WorkerPc τ) (tail : Workers τ) : pcOf ((name, pc) :: tail) id = pcOf tail id := by
          rw [pcOf, List.lookup_cons, beq_false_of_ne same, pcOf]
        rw [skip]
        exact (skip _ _).trans ih

theorem ids_wakeAll : workers.wakeAll.map Prod.fst = workers.map Prod.fst := by
  rw [wakeAll, List.map_map]
  rfl

theorem isExited_wake (pc : WorkerPc τ) : pc.wake.isExited = pc.isExited := by
  cases pc <;> rfl

theorem live_wakeAll : workers.wakeAll.live = workers.live := by
  rw [live, live, wakeAll, List.countP_map]
  exact List.countP_congr fun worker _ => by simp [isExited_wake]

theorem mem_iff_pcOf (distinct : (workers.map Prod.fst).Nodup) :
    (id, pc) ∈ workers ↔ workers.pcOf id = some pc := by
  constructor
  · intro member
    obtain ⟨front, back, rfl⟩ := List.append_of_mem member
    have absent : id ∉ front.map Prod.fst := by
      rw [List.map_append] at distinct
      exact fun twice => List.disjoint_of_nodup_append distinct twice List.mem_cons_self
    rw [pcOf_middle absent, if_pos rfl]
  · intro found
    obtain ⟨front, back, shape, -⟩ := pcOf_split found
    simp [shape]

theorem exists_live (distinct : (workers.map Prod.fst).Nodup) (some : 1 ≤ workers.live) :
    ∃ id pc, workers.pcOf id = .some pc ∧ pc.isExited = false := by
  obtain ⟨⟨id, pc⟩, member, notExited⟩ := List.countP_pos_iff.mp some
  exact ⟨id, pc, (mem_iff_pcOf distinct).mp member, by simpa using notExited⟩

theorem live_le_length : workers.live ≤ workers.length := List.countP_le_length

theorem live_eq_length (distinct : (workers.map Prod.fst).Nodup)
    (none : ∀ id, workers.pcOf id ≠ some .exited) : workers.live = workers.length := by
  refine List.countP_eq_length.mpr fun worker member => ?_
  have found := (mem_iff_pcOf distinct).mp member
  obtain ⟨id, pc⟩ := worker
  cases pc with
  | exited => exact absurd found (none id)
  | _ => rfl

theorem exists_active (distinct : (workers.map Prod.fst).Nodup)
    (some : 1 ≤ workers.live) (tame : ∀ id, workers.pcOf id ≠ .some .wild)
    (going : ∀ id, workers.pcOf id ≠ .some .finished)
    (awake : ∀ id, workers.pcOf id ≠ .some .waiting) :
    ∃ id pc, workers.pcOf id = .some pc ∧ pc.isActive = true := by
  obtain ⟨id, pc, found, live⟩ := exists_live distinct some
  refine ⟨id, pc, found, ?_⟩
  cases pc with
  | ready => rfl
  | running task => rfl
  | waiting => exact absurd found (awake id)
  | exited => cases live
  | finished => exact absurd found (going id)
  | wild => exact absurd found (tame id)

end Workers

/-- The steps of a round between the test of `stop_num_` and a partial stop. -/
def MgrPc.calm : MgrPc → Bool
  | .joining | .checking | .growing | .creating _ | .shrinking | .stopping _ => true
  | _ => false

/-- The steps of a round behind `make_adjust_complete`. -/
def MgrPc.settled : MgrPc → Bool
  | .checking | .growing | .creating _ | .shrinking | .stopping _ => true
  | _ => false

/-- There is no manager, or it has been joined. -/
def DtorPc.pastMgr : DtorPc → Bool
  | .notCalled | .joiningMgr => false
  | _ => true

/-- The manager runs and has not returned. -/
def MgrPc.working : MgrPc → Bool
  | .absent | .finished => false
  | _ => true

theorem MgrPc.calm_of_settled {mgr : MgrPc} (settled : mgr.settled = true) : mgr.calm = true := by
  cases mgr <;> first | rfl | cases settled

theorem MgrPc.working_of_settled {mgr : MgrPc} (settled : mgr.settled = true) :
    mgr.working = true := by
  cases mgr <;> first | rfl | cases settled

def DtorPc.stopped : DtorPc → Bool
  | .notCalled | .joiningMgr | .stoppingAll => false
  | _ => true

/-- The workers that the destructor has still to join, once it joins. -/
def DtorPc.pending : DtorPc → Option (List Nat)
  | .joining rest => some rest
  | .done => some []
  | _ => none

namespace ThreadPool

/-- A `notify_all` is due. -/
def Notifying (pool : ThreadPool τ) : Prop := pool.mgr = .notifying ∨ pool.dtor = .notifying

structure Sound (pool : ThreadPool τ) : Prop where
  distinct : (pool.workers.map Prod.fst).Nodup
  range : -1 ≤ pool.stopNum
  spare : max pool.stopNum 0 + 1 ≤ pool.workers.live
  tame : ∀ id, pool.workers.pcOf id ≠ some .wild
  left : ∀ id, pool.workers.pcOf id = some .finished → pool.stopNum = threadStopAll ∧ pool.tasks = []
  noticed : ∀ id, pool.workers.pcOf id = some .waiting → pool.stopNum ≠ 0 → pool.Notifying
  attended : pool.tasks ≠ [] → pool.dueNotifies ≠ 0 ∨ pool.Notifying ∨
    ∃ id pc, pool.workers.pcOf id = some pc ∧ pc.isActive = true
  once : pool.exitedWorkers.Nodup
  exited_iff : ∀ id, id ∈ pool.exitedWorkers ↔ pool.workers.pcOf id = some .exited
  calm : pool.mgr.calm = true → pool.stopNum = 0
  settled : pool.mgr.settled = true → pool.exitedWorkers = []
  parting : ∀ rmWorkers, pool.mgr = .stopping rmWorkers → rmWorkers + 1 ≤ pool.workers.length
  stopped_iff : pool.stopNum = threadStopAll ↔ pool.dtor.stopped = true
  alone : pool.dtor.pastMgr = true → pool.mgr = .absent ∨ pool.mgr = .finished
  ended : ∀ rest, pool.dtor.pending = some rest → ∀ id pc, pool.workers.pcOf id = some pc →
    id ∈ rest ∨ pc.isEnded = true

variable {pool : ThreadPool τ} {id : Nat} {pc old : WorkerPc τ}

theorem Sound.live_pos (sound : pool.Sound) : 1 ≤ pool.workers.live := by
  have spare := sound.spare
  omega

/-- With work left and no worker blocked, some worker comes to the queue by itself. -/
theorem Sound.exists_active (sound : pool.Sound) (work : pool.tasks ≠ [])
    (awake : ∀ id, pool.workers.pcOf id ≠ some .waiting) :
    ∃ id pc, pool.workers.pcOf id = some pc ∧ pc.isActive = true :=
  Workers.exists_active sound.distinct sound.live_pos sound.tame
    (fun id found => work (sound.left id found).2) awake

theorem Sound.distinct_setPc (sound : pool.Sound) (found : pool.workers.pcOf id = some old) :
    ((pool.workers.setPc id pc).map Prod.fst).Nodup := by
  rw [Workers.ids_setPc found]
  exact sound.distinct

theorem Sound.parting_setPc (sound : pool.Sound) (found : pool.workers.pcOf id = some old)
    (rmWorkers : Nat) (here : pool.mgr = .stopping rmWorkers) :
    rmWorkers + 1 ≤ (pool.workers.setPc id pc).length := by
  rw [Workers.length_setPc found]
  exact sound.parting rmWorkers here

/-- A worker that has not returned has still to be joined, whatever it does next. -/
theorem Sound.ended_setPc (sound : pool.Sound) (found : pool.workers.pcOf id = some old)
    (open_ : old.isEnded = false) (rest : List Nat) (here : pool.dtor.pending = some rest)
    (other : Nat) (pc' : WorkerPc τ) (found' : (pool.workers.setPc id pc).pcOf other = some pc') :
    other ∈ rest ∨ pc'.isEnded = true := by
  rw [Workers.pcOf_setPc found] at found'
  by_cases same : other = id
  · subst other
    exact .inl ((sound.ended rest here id old found).resolve_right (by simp [open_]))
  · rw [if_neg same] at found'
    exact sound.ended rest here other pc' found'

/-- Where another place than the new one is seen, it was there before. -/
theorem pcOf_of_setPc {workers : Workers τ} {other : Nat} {pc' : WorkerPc τ}
    (found : workers.pcOf id = some old) (here : (workers.setPc id pc).pcOf other = some pc')
    (differs : pc' ≠ pc) : workers.pcOf other = some pc' := by
  rw [Workers.pcOf_setPc found] at here
  by_cases same : other = id
  · rw [if_pos same] at here
    exact absurd (Option.some.inj here).symm differs
  · rwa [if_neg same] at here

theorem Sound.exited_iff_setPc (sound : pool.Sound) (found : pool.workers.pcOf id = some old)
    (notExited : old ≠ .exited) (stays : pc ≠ .exited) (other : Nat) :
    other ∈ pool.exitedWorkers ↔ (pool.workers.setPc id pc).pcOf other = some .exited := by
  rw [sound.exited_iff, Workers.pcOf_setPc found]
  by_cases same : other = id
  · subst other
    simp [found, notExited, stays]
  · rw [if_neg same]

/-- A worker that has not returned comes to the queue or runs a task; fewer tasks and
any count of notifications go with that. -/
theorem Sound.activate (sound : pool.Sound) (found : pool.workers.pcOf id = some old)
    (open_ : old.isEnded = false) (active : pc.isActive = true) {tasks : List τ}
    (fewer : pool.tasks = [] → tasks = []) (dueNotifies : Nat) :
    Sound { pool with workers := pool.workers.setPc id pc, tasks, dueNotifies } := by
  have live := Workers.live_setPc found pc
  have before {id' : Nat} {pc' : WorkerPc τ} (inactive : pc'.isActive = false)
      (here : (pool.workers.setPc id pc).pcOf id' = some pc') : pool.workers.pcOf id' = some pc' :=
    pcOf_of_setPc found here fun same => by rw [← same, inactive] at active; cases active
  exact { sound with
    distinct := sound.distinct_setPc found
    spare := by
      have spare := sound.spare
      have notExited : old.isExited = false := by cases old <;> first | rfl | cases open_
      have stays : pc.isExited = false := by cases pc <;> first | rfl | cases active
      simp only [notExited, stays, Bool.false_eq_true, if_false] at live
      dsimp only
      omega
    tame := fun id' here => sound.tame id' (before rfl here)
    left := fun id' here =>
      have known := sound.left id' (before rfl here)
      ⟨known.1, fewer known.2⟩
    noticed := fun id' here => sound.noticed id' (before rfl here)
    attended := fun _ => .inr (.inr ⟨id, pc, by rw [Workers.pcOf_setPc found, if_pos rfl], active⟩)
    exited_iff := sound.exited_iff_setPc found (fun this => by rw [this] at open_; cases open_)
      (fun this => by rw [this] at active; cases active)
    parting := sound.parting_setPc found
    ended := sound.ended_setPc found open_ }

theorem Sound.wake (sound : pool.Sound) {after : ThreadPool τ} (step : WakeStep pool after) :
    after.Sound := by
  cases step with
  | woken found spent => exact sound.activate found rfl rfl (fun none => none) _
  | lost awake => exact { sound with attended := fun work => .inr (.inr (sound.exists_active work awake)) }

theorem Sound.enqueue (sound : pool.Sound) (running : pool.stopNum ≠ threadStopAll) (task : τ) :
    Sound { pool with tasks := pool.tasks ++ [task], dueNotifies := pool.dueNotifies + 1 } :=
  { sound with
    left := fun id found => absurd (sound.left id found).1 running
    attended := fun _ => .inl (Nat.succ_ne_zero _) }

theorem Sound.block (sound : pool.Sound) (found : pool.workers.pcOf id = some .ready)
    (running : pool.stopNum = 0) (idle : pool.tasks = []) :
    Sound { pool with workers := pool.workers.setPc id .waiting } := by
  have live := Workers.live_setPc found .waiting
  exact { sound with
    distinct := sound.distinct_setPc found
    spare := by
      have spare := sound.spare
      simp only [WorkerPc.isExited, Bool.false_eq_true, if_false] at live
      dsimp only
      omega
    tame := fun id' here => sound.tame id' (pcOf_of_setPc found here nofun)
    left := fun id' here => sound.left id' (pcOf_of_setPc found here nofun)
    noticed := fun _ _ stopped => absurd running stopped
    attended := fun work => absurd idle work
    exited_iff := sound.exited_iff_setPc found nofun nofun
    parting := sound.parting_setPc found
    ended := sound.ended_setPc found rfl }

theorem Sound.exit (sound : pool.Sound) (found : pool.workers.pcOf id = some .ready)
    (partial_ : 0 < pool.stopNum) :
    Sound { pool with
      exitedWorkers := pool.exitedWorkers.insert id, stopNum := pool.stopNum - 1,
      workers := pool.workers.setPc id .exited } := by
  have live := Workers.live_setPc found .exited
  simp only [WorkerPc.isExited, Bool.false_eq_true, if_false, if_true] at live
  have spare := sound.spare
  have others : 1 ≤ (pool.workers.setPc id .exited).live := by omega
  have stopped : pool.stopNum ≠ 0 := by omega
  have going (id' : Nat) : pool.workers.pcOf id' ≠ some .finished := fun here => by
    have all := (sound.left id' here).1
    rw [threadStopAll] at all
    omega
  have busy : pool.mgr.calm ≠ true := fun here => stopped (sound.calm here)
  exact { sound with
    distinct := sound.distinct_setPc found
    range := by dsimp only; omega
    spare := by dsimp only; omega
    tame := fun id' here => sound.tame id' (pcOf_of_setPc found here nofun)
    left := fun id' here => absurd (pcOf_of_setPc found here nofun) (going id')
    noticed := fun id' here _ => sound.noticed id' (pcOf_of_setPc found here nofun) stopped
    attended := fun _ => by
      right
      by_cases blocked : ∃ id', pool.workers.pcOf id' = some .waiting
      · obtain ⟨id', here⟩ := blocked
        exact .inl (sound.noticed id' here stopped)
      · exact .inr (Workers.exists_active (sound.distinct_setPc found) others
          (fun id' here => sound.tame id' (pcOf_of_setPc found here nofun))
          (fun id' here => going id' (pcOf_of_setPc found here nofun))
          (fun id' here => blocked ⟨id', pcOf_of_setPc found here nofun⟩))
    once := sound.once.insert
    exited_iff := fun other => by
      rw [List.mem_insert_iff, sound.exited_iff, Workers.pcOf_setPc found]
      by_cases same : other = id <;> simp [same]
    calm := fun here => absurd here busy
    settled := fun here => absurd (MgrPc.calm_of_settled here) busy
    parting := sound.parting_setPc found
    stopped_iff := by
      have before := sound.stopped_iff
      rw [threadStopAll] at before ⊢
      dsimp only
      rw [← before]
      omega
    ended := sound.ended_setPc found rfl }

theorem Sound.leave (sound : pool.Sound) (found : pool.workers.pcOf id = some .ready)
    (stopped : pool.stopNum = threadStopAll) (done : pool.tasks = []) :
    Sound { pool with workers := pool.workers.setPc id .finished } := by
  have live := Workers.live_setPc found .finished
  simp only [WorkerPc.isExited, Bool.false_eq_true, if_false] at live
  exact { sound with
    distinct := sound.distinct_setPc found
    spare := by
      have spare := sound.spare
      dsimp only
      omega
    tame := fun id' here => sound.tame id' (pcOf_of_setPc found here nofun)
    left := fun _ _ => ⟨stopped, done⟩
    noticed := fun id' here => sound.noticed id' (pcOf_of_setPc found here nofun)
    attended := fun work => absurd done work
    exited_iff := sound.exited_iff_setPc found nofun nofun
    parting := sound.parting_setPc found
    ended := sound.ended_setPc found rfl }

/-- The block of the worker loop never finds the queue empty when it calls `front`. -/
theorem Sound.work (sound : pool.Sound) {after : ThreadPool τ} {note : PoolNote τ}
    (step : WorkerStep pool id after note) : after.Sound ∧ ∀ other, note ≠ .frontOfEmpty other := by
  cases step with
  | block found going idle => exact ⟨sound.block found going idle, nofun⟩
  | exit found partial_ => exact ⟨sound.exit found partial_, nofun⟩
  | leave found stopped done => exact ⟨sound.leave found stopped done, nofun⟩
  | front found negative unnamed =>
      have range := sound.range
      rw [threadStopAll] at unnamed
      omega
  | take found queue =>
      refine ⟨sound.activate found rfl rfl (fun none => ?_) pool.dueNotifies, nofun⟩
      rw [none] at queue
      cases queue
  | run found => exact ⟨sound.activate found rfl rfl (fun none => none) pool.dueNotifies, nofun⟩

end ThreadPool

end LiteWebServer
