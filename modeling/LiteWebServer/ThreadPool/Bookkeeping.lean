import LiteWebServer.ThreadPool.TaskOnce

namespace LiteWebServer

open Data

/-! Which threads the pool has, and that its three lists agree about them. -/

namespace PoolNote

def created? : PoolNote τ → Option Nat
  | .created id => some id
  | _ => none

def exited? : PoolNote τ → Option Nat
  | .exited id => some id
  | _ => none

def joinedIds : PoolNote τ → List Nat
  | .joined ids => ids
  | _ => []

end PoolNote

/-- The threads that the manager is about to create. -/
def MgrPc.demand : MgrPc → Nat
  | .creating newWorkers => newWorkers
  | _ => 0

def Workers.ids (workers : Workers τ) : List Nat := workers.map Prod.fst

namespace ThreadPool

variable {pool after : ThreadPool τ} {id : Nat} {note : PoolNote τ}

/-- What a step says about threads is what it does to the lists. -/
structure Staffs (pool : ThreadPool τ) (note : PoolNote τ) (after : ThreadPool τ) : Prop where
  maxNum : after.maxNum = pool.maxNum
  room : pool.workers.length + pool.mgr.demand ≤ pool.maxNum →
    after.workers.length + after.mgr.demand ≤ after.maxNum
  made : (pool.workers.ids ++ note.created?.toList).Perm (note.joinedIds ++ after.workers.ids)
  left : (pool.exitedWorkers ++ note.exited?.toList).Perm (note.joinedIds ++ after.exitedWorkers)

/-- A step that neither makes, ends nor joins a thread. -/
theorem Staffs.still (silent : note.created? = none ∧ note.exited? = none ∧ note.joinedIds = [])
    (maxNum : after.maxNum = pool.maxNum) (ids : after.workers.ids = pool.workers.ids)
    (exited : after.exitedWorkers = pool.exitedWorkers) (demand : after.mgr.demand ≤ pool.mgr.demand) :
    Staffs pool note after where
  maxNum := maxNum
  room fits := by
    have count := congrArg List.length ids
    simp only [Workers.ids, List.length_map] at count
    omega
  made := by rw [silent.1, silent.2.2, ids, Option.toList_none, List.append_nil, List.nil_append]
  left := by rw [silent.2.1, silent.2.2, exited, Option.toList_none, List.append_nil, List.nil_append]

/-- Only the place of a worker and the tasks change. -/
theorem Staffs.move {old pc : WorkerPc τ} (found : pool.workers.pcOf id = some old)
    (silent : note.created? = none ∧ note.exited? = none ∧ note.joinedIds = []) (tasks : List τ)
    (dueNotifies : Nat) :
    Staffs pool note { pool with tasks, workers := pool.workers.setPc id pc, dueNotifies } :=
  .still silent rfl (Workers.ids_setPc found) rfl le_rfl

theorem Staffs.wake (step : WakeStep pool after) : Staffs pool .quiet after := by
  cases step with
  | woken found spent => exact .move found ⟨rfl, rfl, rfl⟩ _ _
  | lost awake => exact .still ⟨rfl, rfl, rfl⟩ rfl rfl rfl le_rfl

theorem Staffs.work (sound : pool.Sound) (step : WorkerStep pool id after note) :
    Staffs pool note after := by
  cases step with
  | exit found partial_ =>
      have new : id ∉ pool.exitedWorkers := fun member => by
        have exited := (sound.exited_iff id).mp member
        rw [found] at exited
        cases exited
      have moved : Staffs pool .quiet { pool with workers := pool.workers.setPc id .exited } :=
        .move found ⟨rfl, rfl, rfl⟩ _ _
      refine ⟨rfl, moved.room, moved.made, ?_⟩
      dsimp only [PoolNote.exited?, PoolNote.joinedIds]
      rw [List.insert_of_not_mem new]
      exact List.perm_append_singleton id _
  | block found going idle => exact .move found ⟨rfl, rfl, rfl⟩ _ _
  | leave found stopped done => exact .move found ⟨rfl, rfl, rfl⟩ _ _
  | front found negative unnamed => exact .move found ⟨rfl, rfl, rfl⟩ _ _
  | take found queue => exact .move found ⟨rfl, rfl, rfl⟩ _ _
  | run found => exact .move found ⟨rfl, rfl, rfl⟩ _ _

/-- What is joined goes off both lists, and nothing else does. -/
theorem joinExited_perm {ids : List Nat} {workers stay : Workers τ} {left joined : List Nat}
    (ran : joinExited ids workers = some (stay, left, joined)) :
    workers.ids.Perm (joined ++ stay.ids) ∧ ids.Perm (joined ++ left) := by
  induction ids generalizing workers stay left joined with
  | nil =>
      cases ran
      exact ⟨.refl _, .refl _⟩
  | cons id rest ih =>
      unfold joinExited at ran
      split at ran
      · rename_i pc found
        split at ran
        · obtain ⟨⟨stay', left', joined'⟩, loop, same⟩ := Option.bind_eq_some_iff.mp ran
          cases same
          obtain ⟨gone, taken⟩ := ih loop
          obtain ⟨front, back, shape, absent⟩ := Workers.pcOf_split found
          rw [shape, Workers.eraseP_middle absent] at gone
          refine ⟨?_, taken.cons id⟩
          rw [shape, Workers.ids, List.map_append, List.map_cons]
          refine List.perm_middle.trans (.cons id ?_)
          rwa [Workers.ids, List.map_append] at gone
        · cases ran
      · obtain ⟨⟨stay', left', joined'⟩, loop, same⟩ := Option.bind_eq_some_iff.mp ran
        cases same
        obtain ⟨gone, taken⟩ := ih loop
        exact ⟨gone, (taken.cons id).trans List.perm_middle.symm⟩

theorem Staffs.manage (step : MgrStep pool after note) : Staffs pool note after := by
  cases step with
  | join here loop =>
      obtain ⟨gone, taken⟩ := joinExited_perm loop
      refine ⟨rfl, fun fits => ?_, by simpa [PoolNote.created?, PoolNote.joinedIds] using gone,
        by simpa [PoolNote.exited?, PoolNote.joinedIds] using taken⟩
      have count := gone.length_eq
      simp only [Workers.ids, List.length_append, List.length_map] at count
      rw [here] at fits
      dsimp only [MgrPc.demand] at fits ⊢
      omega
  | select here next =>
      refine .still ⟨rfl, rfl, rfl⟩ rfl rfl rfl ?_
      rcases next with rfl | rfl | rfl <;> exact Nat.zero_le _
  | grow here fits =>
      refine ⟨rfl, fun room => fits ?_, by simp [PoolNote.created?, PoolNote.joinedIds],
        by simp [PoolNote.exited?, PoolNote.joinedIds]⟩
      rwa [here] at room
  | create here new =>
      refine ⟨rfl, fun fits => ?_, ?_, by simp [PoolNote.exited?, PoolNote.joinedIds]⟩
      · rw [here] at fits
        dsimp only [MgrPc.demand] at fits ⊢
        rw [List.length_append, List.length_singleton]
        omega
      · simp [Workers.ids, PoolNote.created?, PoolNote.joinedIds]
  | notify here => exact .still ⟨rfl, rfl, rfl⟩ rfl Workers.ids_wakeAll rfl (Nat.zero_le _)
  | _ => exact .still ⟨rfl, rfl, rfl⟩ rfl rfl rfl (Nat.zero_le _)

theorem Staffs.destruct (step : DtorStep pool after) : Staffs pool .quiet after := by
  cases step with
  | notifyAll here => exact .still ⟨rfl, rfl, rfl⟩ rfl Workers.ids_wakeAll rfl le_rfl
  | _ => exact .still ⟨rfl, rfl, rfl⟩ rfl rfl rfl le_rfl

theorem Staffs.next (sound : pool.Sound) {turn : PoolTurn τ}
    (stepped : pool.next turn = some (after, note)) : Staffs pool note after := by
  cases next_step stepped with
  | refuse stopped => exact .still ⟨rfl, rfl, rfl⟩ rfl rfl rfl le_rfl
  | enqueue going => exact .still ⟨rfl, rfl, rfl⟩ rfl rfl rfl le_rfl
  | notifyOne step => exact .wake step
  | spurious step => exact .wake step
  | worker step => exact .work sound step
  | mgr step => exact .manage step
  | dtor step => exact .destruct step

/-- The threads made, exited and joined so far, against the two lists.  The pool was
constructed with the threads `ids`. -/
structure StaffLedger (ids : List Nat) (notes : List (PoolNote τ)) (pool : ThreadPool τ) : Prop where
  made : (ids ++ notes.filterMap PoolNote.created?).Perm
    (notes.flatMap PoolNote.joinedIds ++ pool.workers.ids)
  left : (notes.filterMap PoolNote.exited?).Perm
    (notes.flatMap PoolNote.joinedIds ++ pool.exitedWorkers)

variable {ids : List Nat} {notes : List (PoolNote τ)}

theorem StaffLedger.construct (maxNum : Nat) (dynamic : Bool) :
    StaffLedger ids [] (.construct (τ := τ) ids maxNum dynamic) where
  made := by simp [ThreadPool.construct, Workers.ids, Function.comp_def]
  left := .refl _

theorem StaffLedger.step (ledger : StaffLedger ids notes pool) (staffs : Staffs pool note after) :
    StaffLedger ids (notes ++ [note]) after := by
  have joined : (notes ++ [note]).flatMap PoolNote.joinedIds =
      notes.flatMap PoolNote.joinedIds ++ note.joinedIds := by
    rw [List.flatMap_append, List.flatMap_singleton]
  constructor
  · rw [filterMap_append_one, joined, ← List.append_assoc]
    refine (ledger.made.append_right _).trans ?_
    rw [List.append_assoc, List.append_assoc]
    exact staffs.made.append_left _
  · rw [filterMap_append_one, joined]
    refine (ledger.left.append_right _).trans ?_
    rw [List.append_assoc, List.append_assoc]
    exact staffs.left.append_left _

/-- What holds after any run of a pool with the threads `ids` whose notes are `notes`. -/
structure KeepsBooks (ids : List Nat) (maxNum : Nat) (notes : List (PoolNote τ))
    (pool : ThreadPool τ) : Prop extends StaffLedger ids notes pool where
  bounded : pool.maxNum = maxNum ∧ pool.workers.length ≤ maxNum
  /-- `max_num_ - workers_.size()` does not wrap. -/
  unwrapped : sizeSub pool.maxNum pool.workers.length + pool.workers.length = pool.maxNum
  spare : poolMinWorkers ≤ pool.workers.live - max pool.stopNum 0
  exited_iff : ∀ id, id ∈ pool.exitedWorkers ↔ pool.workers.pcOf id = some .exited
  once : pool.exitedWorkers.Nodup ∧ pool.workers.ids.Nodup
  /-- With exited workers there, the manager joins each of them and strikes them off both lists. -/
  joins : pool.mgr = .joining → pool.exitedWorkers ≠ [] → ∃ stay,
    pool.makeAdjustComplete = some
        ({ pool with workers := stay, exitedWorkers := [], mgr := .waiting },
          .joined pool.exitedWorkers) ∧
      ∀ id, stay.pcOf id = if id ∈ pool.exitedWorkers then none else pool.workers.pcOf id
  /-- Who is joined has returned; no other step joins anyone. -/
  returned : ∀ turn after note, pool.next turn = some (after, note) → note.joinedIds ≠ [] →
    pool.mgr = .joining ∧ note.joinedIds = pool.exitedWorkers ∧
      ∀ id ∈ note.joinedIds, pool.workers.pcOf id = some .exited
  /-- `make_adjust_complete` has returned true. -/
  complete : pool.mgr = .checking → pool.stopNum = 0 ∧
    (∀ id, pool.workers.pcOf id ≠ some .exited) ∧
    (ids ++ notes.filterMap PoolNote.created?).Perm
      (notes.filterMap PoolNote.exited? ++ pool.workers.ids)

theorem Sound.joins (sound : pool.Sound) (waiting : pool.exitedWorkers ≠ []) :
    ∃ stay, pool.makeAdjustComplete = some
        ({ pool with workers := stay, exitedWorkers := [], mgr := .waiting },
          .joined pool.exitedWorkers) ∧
      ∀ id, stay.pcOf id = if id ∈ pool.exitedWorkers then none else pool.workers.pcOf id := by
  obtain ⟨stay, loop, -, -, lookup⟩ := joinExited_spec sound.once sound.distinct
    fun id => (sound.exited_iff id).mp
  refine ⟨stay, ?_, lookup⟩
  rw [makeAdjustComplete, if_neg waiting, loop]
  rfl

theorem Sound.returned (sound : pool.Sound) {turn : PoolTurn τ}
    (stepped : pool.next turn = some (after, note)) (joining : note.joinedIds ≠ []) :
    pool.mgr = .joining ∧ note.joinedIds = pool.exitedWorkers ∧
      ∀ id ∈ note.joinedIds, pool.workers.pcOf id = some .exited := by
  cases next_step stepped with
  | worker step => cases step <;> exact absurd rfl joining
  | mgr step =>
      cases step with
      | join here loop =>
          obtain ⟨stay, joined, -⟩ := joinExited_spec sound.once sound.distinct
            fun id => (sound.exited_iff id).mp
          rw [joined] at loop
          cases loop
          exact ⟨here, rfl, fun id => (sound.exited_iff id).mp⟩
      | _ => exact absurd rfl joining
  | _ => exact absurd rfl joining

/-- The lists agree in every run of every pool that starts with a worker. -/
theorem keeps_books {idleNum maxNum : Nat} {dynamic : Bool} (idle : 1 ≤ idleNum) (max : 1 ≤ maxNum)
    (run : (system τ idleNum maxNum dynamic).Runs notes pool) :
    ∃ ids : List Nat, ids.Nodup ∧ ids.length = min idleNum maxNum ∧
      KeepsBooks ids maxNum notes pool := by
  obtain ⟨ids, distinct, count, sound, capacity, room, ledger⟩ : ∃ ids : List Nat, ids.Nodup ∧
      ids.length = min idleNum maxNum ∧ pool.Sound ∧ pool.maxNum = maxNum ∧
      pool.workers.length + pool.mgr.demand ≤ pool.maxNum ∧ StaffLedger ids notes pool := by
    refine @System.Runs.invariant _ _ _ (fun notes pool => ∃ ids : List Nat, ids.Nodup ∧
      ids.length = min idleNum maxNum ∧ pool.Sound ∧ pool.maxNum = maxNum ∧
      pool.workers.length + pool.mgr.demand ≤ pool.maxNum ∧ StaffLedger ids notes pool) ?_ ?_ _ _ run
    · intro pool held
      obtain ⟨ids, distinct, count, rfl⟩ := held
      refine ⟨ids, distinct, count, construct_sound distinct (by omega) maxNum dynamic, rfl, ?_,
        .construct maxNum dynamic⟩
      have idle : (construct (τ := τ) ids maxNum dynamic).mgr.demand = 0 := by
        cases dynamic <;> rfl
      rw [idle]
      simp only [construct, List.length_map]
      omega
    · intro notes before note after held step
      obtain ⟨ids, distinct, count, sound, capacity, room, ledger⟩ := held
      obtain ⟨turn, stepped⟩ := step
      have staffs := Staffs.next sound stepped
      exact ⟨ids, distinct, count, (sound.next stepped).1, staffs.maxNum.trans capacity,
        staffs.room room, ledger.step staffs⟩
  have bounded : pool.workers.length ≤ pool.maxNum := by omega
  refine ⟨ids, distinct, count, { ledger with
    bounded := ⟨capacity, capacity ▸ bounded⟩
    unwrapped := by
      rw [sizeSub_of_le bounded]
      omega
    spare := by
      have spare := sound.spare
      simp only [poolMinWorkers]
      omega
    exited_iff := sound.exited_iff
    once := ⟨sound.once, sound.distinct⟩
    joins := fun _ => sound.joins
    returned := fun _ _ _ => sound.returned
    complete := fun here => ?_ }⟩
  have none := sound.settled (by rw [here]; rfl)
  refine ⟨sound.calm (by rw [here]; rfl), fun id found => ?_, ?_⟩
  · have member := (sound.exited_iff id).mpr found
    rw [none] at member
    cases member
  · have left := ledger.left
    rw [none, List.append_nil] at left
    exact ledger.made.trans (left.symm.append_right _)

/-- Two workers, three idle rounds, a partial stop that one of them takes, and the round
that joins it. -/
def shrinkTurns : List (PoolTurn Nat) :=
  let round (size : Nat) : List (PoolTurn Nat) := [.mgr 0, .mgr 0, .mgr 0, .mgr size]
  round 0 ++ round 5 ++ round 9 ++ [.mgr 0, .mgr 0, .worker 1, .mgr 0, .mgr 0, .mgr 0, .mgr 0, .mgr 0,
    .mgr 0, .mgr 0]

theorem keeps_books_shrinking :
    ∃ ids notes pool, System.follow next (construct [0, 1] 2 true) shrinkTurns = some (pool, notes) ∧
      pool.mgr = .checking ∧ notes.flatMap PoolNote.joinedIds = [1] ∧ pool.workers.ids = [0] ∧
      KeepsBooks ids 2 notes pool := by
  have outcome : (System.follow next (construct [0, 1] 2 true) shrinkTurns).map
      (fun reached => (reached.1.mgr, reached.2.flatMap PoolNote.joinedIds, reached.1.workers.ids)) =
      some (.checking, [1], [0]) := by decide +kernel
  obtain ⟨⟨pool, notes⟩, followed, reads⟩ := Option.map_eq_some_iff.mp outcome
  obtain ⟨checking, joined, left⟩ : pool.mgr = .checking ∧ notes.flatMap PoolNote.joinedIds = [1] ∧
      pool.workers.ids = [0] := by simpa using reads
  have start : (system Nat 2 2 true).Runs [] (construct [0, 1] 2 true) :=
    .start ⟨[0, 1], by decide, rfl, rfl⟩
  obtain ⟨ids, -, -, books⟩ := keeps_books (by decide) (by decide) (start.follow followed)
  exact ⟨ids, notes, pool, followed, checking, joined, left, books⟩

end ThreadPool

end LiteWebServer
