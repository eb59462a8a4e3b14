import LiteWebServer.ThreadPool.Rounds

namespace LiteWebServer

open Data

/-! The pool loses no task and runs none twice. -/

namespace PoolNote

def enqueued? : PoolNote τ → Option τ
  | .enqueued task => some task
  | _ => none

def taken? : PoolNote τ → Option τ
  | .took _ task => some task
  | _ => none

def takenBy? (id : Nat) : PoolNote τ → Option τ
  | .took other task => if other = id then some task else none
  | _ => none

def ranBy? (id : Nat) : PoolNote τ → Option τ
  | .ran other task => if other = id then some task else none
  | _ => none

end PoolNote

def WorkerPc.task : WorkerPc τ → List τ
  | .running task => [task]
  | _ => []

namespace Workers

variable {workers : Workers τ} {id : Nat} {pc old : WorkerPc τ}

def running (workers : Workers τ) (id : Nat) : List τ :=
  match workers.pcOf id with
  | some pc => pc.task
  | none => []

theorem running_setPc (found : workers.pcOf id = some old) (other : Nat) :
    (workers.setPc id pc).running other = if other = id then pc.task else workers.running other := by
  rw [running, pcOf_setPc found, running]
  by_cases same : other = id
  · rw [if_pos same, if_pos same]
  · rw [if_neg same, if_neg same]

theorem running_idle (found : workers.pcOf id = some old) (before : old.task = [])
    (after : pc.task = []) (other : Nat) :
    (workers.setPc id pc).running other = workers.running other := by
  rw [running_setPc found]
  by_cases same : other = id
  · rw [if_pos same, same, running, found]
    exact after.trans before.symm
  · rw [if_neg same]

theorem running_wakeAll (other : Nat) : workers.wakeAll.running other = workers.running other := by
  rw [running, pcOf_wakeAll, running]
  cases workers.pcOf other with
  | none => rfl
  | some pc => cases pc <;> rfl

end Workers

namespace ThreadPool

variable {pool after : ThreadPool τ} {id : Nat} {note : PoolNote τ}

/-- What a step says is what it does to the queue and to the tasks in work. -/
structure Accounts (pool : ThreadPool τ) (note : PoolNote τ) (after : ThreadPool τ) : Prop where
  order : note.taken?.toList ++ after.tasks = pool.tasks ++ note.enqueued?.toList
  runs : ∀ id, pool.workers.running id ++ (note.takenBy? id).toList =
    (note.ranBy? id).toList ++ after.workers.running id

theorem Accounts.idle (silent : ∀ id, note.taken? = none ∧ note.enqueued? = none ∧
      note.takenBy? id = none ∧ note.ranBy? id = none)
    (tasks : after.tasks = pool.tasks)
    (running : ∀ id, after.workers.running id = pool.workers.running id) :
    Accounts pool note after where
  order := by
    rw [(silent 0).1, (silent 0).2.1, tasks]
    simp
  runs id := by
    rw [(silent id).2.2.1, (silent id).2.2.2, running]
    simp

theorem Accounts.still (tasks : after.tasks = pool.tasks) (workers : after.workers = pool.workers) :
    Accounts pool .quiet after :=
  .idle (fun id => ⟨rfl, rfl, rfl, rfl⟩) tasks fun id => by rw [workers]

/-- A worker goes from one place without a task to another. -/
theorem Accounts.move {old pc : WorkerPc τ} (found : pool.workers.pcOf id = some old)
    (before : old.task = []) (behind : pc.task = [])
    (silent : ∀ id, note.taken? = none ∧ note.enqueued? = none ∧
      note.takenBy? id = none ∧ note.ranBy? id = none)
    (tasks : after.tasks = pool.tasks) (workers : after.workers = pool.workers.setPc id pc) :
    Accounts pool note after :=
  .idle silent tasks fun other => by rw [workers, Workers.running_idle found before behind]

theorem Accounts.wake (step : WakeStep pool after) : Accounts pool .quiet after := by
  cases step with
  | woken found spent => exact .move found rfl rfl (fun id => ⟨rfl, rfl, rfl, rfl⟩) rfl rfl
  | lost awake => exact .still rfl rfl

theorem Accounts.work (step : WorkerStep pool id after note) : Accounts pool note after := by
  cases step with
  | block found going idle => exact .move found rfl rfl (fun id => ⟨rfl, rfl, rfl, rfl⟩) rfl rfl
  | exit found partial_ => exact .move found rfl rfl (fun id => ⟨rfl, rfl, rfl, rfl⟩) rfl rfl
  | leave found stopped done => exact .move found rfl rfl (fun id => ⟨rfl, rfl, rfl, rfl⟩) rfl rfl
  | front found negative unnamed =>
      exact .move found rfl rfl (fun id => ⟨rfl, rfl, rfl, rfl⟩) rfl rfl
  | take found queue =>
      refine ⟨by rw [queue]; exact (List.append_nil _).symm, fun other => ?_⟩
      dsimp only [PoolNote.takenBy?, PoolNote.ranBy?]
      rw [Workers.running_setPc found]
      by_cases same : other = id
      · subst other
        simp [Workers.running, found, WorkerPc.task]
      · simp [same, Ne.symm same]
  | run found =>
      refine ⟨by simp [PoolNote.taken?, PoolNote.enqueued?], fun other => ?_⟩
      dsimp only [PoolNote.takenBy?, PoolNote.ranBy?]
      rw [Workers.running_setPc found]
      by_cases same : other = id
      · subst other
        simp [Workers.running, found, WorkerPc.task]
      · simp [same, Ne.symm same]

theorem Accounts.manage (sound : pool.Sound) (step : MgrStep pool after note) :
    Accounts pool note after := by
  cases step with
  | join here loop =>
      obtain ⟨stay, joined, -, -, lookup⟩ := joinExited_spec sound.once sound.distinct
        fun id => (sound.exited_iff id).mp
      rw [joined] at loop
      cases loop
      refine .idle (fun id => ⟨rfl, rfl, rfl, rfl⟩) rfl fun id => ?_
      dsimp only [Workers.running]
      rw [lookup]
      by_cases member : id ∈ pool.exitedWorkers
      · rw [if_pos member, (sound.exited_iff id).mp member]
        rfl
      · rw [if_neg member]
  | @create left id here new =>
      refine .idle (fun id => ⟨rfl, rfl, rfl, rfl⟩) rfl fun other => ?_
      rw [Workers.running, Workers.pcOf_append_new new, Workers.running]
      by_cases same : other = id
      · rw [if_pos same, same, Workers.pcOf_of_absent new]
        rfl
      · rw [if_neg same]
  | notify here => exact .idle (fun id => ⟨rfl, rfl, rfl, rfl⟩) rfl Workers.running_wakeAll
  | _ => exact .still rfl rfl

theorem Accounts.destruct (step : DtorStep pool after) : Accounts pool .quiet after := by
  cases step with
  | notifyAll here => exact .idle (fun id => ⟨rfl, rfl, rfl, rfl⟩) rfl Workers.running_wakeAll
  | _ => exact .still rfl rfl

theorem Accounts.next (sound : pool.Sound) {turn : PoolTurn τ}
    (stepped : pool.next turn = some (after, note)) : Accounts pool note after := by
  cases next_step stepped with
  | refuse stopped => exact .still rfl rfl
  | enqueue going => exact ⟨rfl, fun id => by simp [PoolNote.takenBy?, PoolNote.ranBy?]⟩
  | notifyOne step => exact .wake step
  | spurious step => exact .wake step
  | worker step => exact .work step
  | mgr step => exact .manage sound step
  | dtor step => exact .destruct step

/-- Work is left, every remaining worker is blocked, and nobody is about to notify. -/
def Stuck (pool : ThreadPool τ) : Prop :=
  pool.tasks ≠ [] ∧
    (∀ id pc, pool.workers.pcOf id = some pc → pc.isWaiting = true ∨ pc.isEnded = true) ∧
    pool.dueNotifies = 0 ∧ ¬ pool.Notifying

/-- What was put in, taken and run so far, against what is left. -/
structure Ledger (notes : List (PoolNote τ)) (pool : ThreadPool τ) : Prop where
  /-- The tasks taken and those still waiting are those put in, in this order. -/
  order : notes.filterMap PoolNote.taken? ++ pool.tasks = notes.filterMap PoolNote.enqueued?
  /-- Each worker ran what it took, once, up to the task it is in. -/
  runs : ∀ id, notes.filterMap (PoolNote.takenBy? id) =
    notes.filterMap (PoolNote.ranBy? id) ++ pool.workers.running id
  tame : ∀ id, PoolNote.frontOfEmpty id ∉ notes

theorem Ledger.construct (ids : List Nat) (maxNum : Nat) (dynamic : Bool) :
    Ledger (τ := τ) [] (.construct ids maxNum dynamic) where
  order := rfl
  runs id := by
    rw [Workers.running]
    cases found : (ThreadPool.construct (τ := τ) ids maxNum dynamic).workers.pcOf id with
    | none => rfl
    | some pc => rw [construct_ready found]; rfl
  tame id := List.not_mem_nil

theorem filterMap_append_one (read : PoolNote τ → Option α) (notes : List (PoolNote τ))
    (note : PoolNote τ) :
    (notes ++ [note]).filterMap read = notes.filterMap read ++ (read note).toList := by
  rw [List.filterMap_append]
  cases found : read note <;> simp [found]

theorem Ledger.step {notes : List (PoolNote τ)} (ledger : Ledger notes pool)
    (accounts : Accounts pool note after) (tame : ∀ id, note ≠ .frontOfEmpty id) :
    Ledger (notes ++ [note]) after where
  order := by
    rw [filterMap_append_one, filterMap_append_one, ← ledger.order, List.append_assoc,
      List.append_assoc, accounts.order]
  runs id := by
    rw [filterMap_append_one, filterMap_append_one, ledger.runs, List.append_assoc,
      List.append_assoc, accounts.runs]
  tame id member := by
    rcases List.mem_append.mp member with earlier | this
    · exact ledger.tame id earlier
    · exact tame id (List.mem_singleton.mp this).symm

theorem Sound.not_stuck (sound : pool.Sound) : ¬ pool.Stuck := by
  intro held
  obtain ⟨work, blocked, none, quiet⟩ := held
  rcases sound.attended work with due | due | ⟨id, pc, found, active⟩
  · exact due none
  · exact quiet due
  · cases pc with
    | ready => rcases blocked id _ found with waiting | ended <;> contradiction
    | running task => rcases blocked id _ found with waiting | ended <;> contradiction
    | _ => cases active

/-- Some worker waited for the stop of all, so nothing was left when it returned. -/
theorem Sound.done (sound : pool.Sound) (finished : pool.dtor = .done) :
    pool.tasks = [] ∧ ∀ id, pool.workers.running id = [] := by
  have ended := sound.ended [] (by rw [finished]; rfl)
  constructor
  · obtain ⟨id, pc, found, live⟩ := Workers.exists_live sound.distinct sound.live_pos
    have returned := (ended id pc found).resolve_left List.not_mem_nil
    cases pc with
    | finished => exact (sound.left id found).2
    | exited => cases live
    | _ => cases returned
  · intro id
    rw [Workers.running]
    cases found : pool.workers.pcOf id with
    | none => rfl
    | some pc =>
        have returned := (ended id pc found).resolve_left List.not_mem_nil
        cases pc <;> first | rfl | cases returned

/-- What holds after any run whose notes are `notes`. -/
structure LosesNoTask (notes : List (PoolNote τ)) (pool : ThreadPool τ) : Prop
    extends Ledger notes pool where
  awake : ¬ pool.Stuck
  done : pool.dtor = .done → pool.tasks = [] ∧ ∀ id, pool.workers.running id = []

/-- Every run of every pool that starts with a worker keeps its tasks. -/
theorem loses_no_task {idleNum maxNum : Nat} {dynamic : Bool} (idle : 1 ≤ idleNum)
    (max : 1 ≤ maxNum) {notes : List (PoolNote τ)}
    (run : (system τ idleNum maxNum dynamic).Runs notes pool) : LosesNoTask notes pool := by
  have both : pool.Sound ∧ Ledger notes pool := by
    refine @System.Runs.invariant _ _ _ (fun notes pool => pool.Sound ∧ Ledger notes pool) ?_ ?_ _ _ run
    · intro pool held
      obtain ⟨ids, distinct, length, rfl⟩ := held
      exact ⟨construct_sound distinct (by omega) maxNum dynamic, .construct ids maxNum dynamic⟩
    · intro notes before note after held step
      obtain ⟨sound, ledger⟩ := held
      obtain ⟨turn, stepped⟩ := step
      obtain ⟨sound', tame⟩ := sound.next stepped
      exact ⟨sound', ledger.step (.next sound stepped) tame⟩
  exact ⟨both.2, both.1.not_stuck, both.1.done⟩

/-- One worker of a dynamic pool blocks, is woken for a task and runs it while the pool
is being destroyed. -/
def oneTaskTurns : List (PoolTurn Nat) :=
  [.worker 0, .enqueue 7, .mgr 0, .notifyOne (some 0), .worker 0, .mgr 0, .mgr 0, .mgr 3, .dtor,
    .mgr 0, .dtor, .dtor, .worker 0, .dtor, .worker 0, .dtor, .dtor]

theorem loses_no_task_one :
    ∃ notes pool, System.follow next (construct [0] 2 true) oneTaskTurns = some (pool, notes) ∧
      pool.dtor = .done ∧ LosesNoTask notes pool := by
  have outcome : (System.follow next (construct [0] 2 true) oneTaskTurns).map
      (fun reached => reached.1.dtor) = some .done := by decide +kernel
  obtain ⟨⟨pool, notes⟩, followed, finished⟩ := Option.map_eq_some_iff.mp outcome
  have start : (system Nat 1 2 true).Runs [] (construct [0] 2 true) :=
    .start ⟨[0], List.nodup_singleton 0, rfl, rfl⟩
  exact ⟨notes, pool, followed, finished, loses_no_task le_rfl (by decide) (start.follow followed)⟩

end ThreadPool

end LiteWebServer
