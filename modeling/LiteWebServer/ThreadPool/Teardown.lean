import LiteWebServer.Data.Inevitable
import LiteWebServer.ThreadPool.TaskOnce

namespace LiteWebServer

open Data

/-! The destructor of the pool returns, however the threads are scheduled. -/

namespace WorkerPc

/-- How many turns a worker takes at most without a new task, where leaving `wait` starts
`blocked` of them. -/
def weight (blocked : Nat) : WorkerPc τ → Nat
  | .waiting => blocked
  | .ready => 1
  | .running _ => 2
  | .exited | .finished | .wild => 0

end WorkerPc

namespace Workers

variable {workers : Workers τ} {id : Nat} {pc old : WorkerPc τ}

def weight (blocked : Nat) (workers : Workers τ) : Nat :=
  (workers.map fun worker => worker.2.weight blocked).sum

theorem weight_setPc (blocked : Nat) (found : workers.pcOf id = some old) (pc : WorkerPc τ) :
    (workers.setPc id pc).weight blocked + old.weight blocked =
      workers.weight blocked + pc.weight blocked := by
  obtain ⟨front, back, shape, absent⟩ := pcOf_split found
  rw [shape, setPc_middle absent]
  simp only [weight, List.map_append, List.map_cons, List.sum_append, List.sum_cons]
  omega

theorem weight_wakeAll : workers.wakeAll.weight 2 ≤ workers.weight 2 := by
  induction workers with
  | nil => exact le_rfl
  | cons worker rest ih =>
      have here : worker.2.wake.weight 2 ≤ worker.2.weight 2 := by
        cases worker.2 <;> simp [WorkerPc.wake, WorkerPc.weight]
      exact Nat.add_le_add here ih

theorem weight_blocked : workers.weight 2 ≤ workers.weight 0 + 2 * workers.length := by
  induction workers with
  | nil => exact le_rfl
  | cons worker rest ih =>
      have here : worker.2.weight 2 ≤ worker.2.weight 0 + 2 := by
        cases worker.2 <;> simp [WorkerPc.weight]
      simp only [weight, List.map_cons, List.sum_cons, List.length_cons] at ih ⊢
      omega

theorem exists_pcOf (member : id ∈ workers.map Prod.fst) : ∃ pc, workers.pcOf id = some pc := by
  cases found : workers.pcOf id with
  | some pc => exact ⟨pc, rfl⟩
  | none =>
      obtain ⟨worker, inside, rfl⟩ := List.mem_map.mp member
      have differs := List.lookup_eq_none_iff.mp found worker inside
      simp at differs

end Workers

namespace ThreadPool

variable {pool after : ThreadPool τ} {id : Nat} {note : PoolNote τ} {turn : PoolTurn τ}

/-- The manager begins no more rounds: there is none, or the destructor has the mutex. -/
def Unmanaged (pool : ThreadPool τ) : Prop := pool.mgr = .absent ∨ pool.dtor ≠ .notCalled

/-- The threads of the pool and the thread that destroys it, which no longer puts tasks in.
Before the stop is stored, a wait ends by a notification only. -/
def TeardownTurn (pool : ThreadPool τ) : PoolTurn τ → Prop
  | .enqueue _ => False
  | .spurious _ => pool.dtor.stopped = true
  | _ => True

/-- An `enqueue` behind the stop, which throws. -/
def RefusedTurn (pool : ThreadPool τ) (turn : PoolTurn τ) : Prop :=
  pool.stopNum = threadStopAll ∧ ∃ task, turn = .enqueue task

/-- What the destructor relies on: the manager has been asked to stop, and the threads left
to join are threads of the pool. -/
structure Parting (pool : ThreadPool τ) : Prop where
  asked : pool.dtor = .joiningMgr →
    pool.stopMgr = true ∧ (pool.mgr = .waiting ∨ pool.mgr = .finished)
  known : ∀ rest, pool.dtor = .joining rest → ∀ id ∈ rest, id ∈ pool.workers.map Prod.fst

theorem construct_parting (ids : List Nat) (maxNum : Nat) (dynamic : Bool) :
    (construct ids maxNum dynamic : ThreadPool τ).Parting where
  asked here := by cases here
  known rest here := by cases here

theorem Parting.keep (parting : pool.Parting) (ids : after.workers.map Prod.fst = pool.workers.map Prod.fst)
    (dtor : after.dtor = pool.dtor) (mgr : after.mgr = pool.mgr) (stopMgr : after.stopMgr = pool.stopMgr) :
    after.Parting where
  asked here := by
    rw [mgr, stopMgr]
    exact parting.asked (dtor ▸ here)
  known rest here := by
    rw [ids]
    exact parting.known rest (dtor ▸ here)

theorem Parting.wake (parting : pool.Parting) (step : WakeStep pool after) : after.Parting := by
  cases step with
  | woken found spent => exact parting.keep (Workers.ids_setPc found) rfl rfl rfl
  | lost awake => exact parting.keep rfl rfl rfl rfl

theorem Parting.work (parting : pool.Parting) (step : WorkerStep pool id after note) :
    after.Parting := by
  cases step with
  | block found | exit found | leave found | front found | take found | run found =>
      exact parting.keep (Workers.ids_setPc found) rfl rfl rfl

/-- Where the destructor has joined the manager there is none to move. -/
theorem MgrStep.before_joined (sound : pool.Sound) (step : MgrStep pool after note) :
    pool.dtor.pastMgr = false ∧ after.dtor = pool.dtor := by
  have working : pool.mgr.working = true := by
    cases step with
    | finish here | adjust here | postpone here | complete here | check here | join here
    | select here | grow here | full here | create here | grown here | shrink here | least here
    | stop here | notify here => rw [here]; rfl
  exact ⟨sound.before_dtor working, by cases step <;> rfl⟩

theorem Parting.manage (parting : pool.Parting) (sound : pool.Sound)
    (step : MgrStep pool after note) : after.Parting where
  asked here := by
    obtain ⟨-, same⟩ := step.before_joined sound
    obtain ⟨asked, waits | finished⟩ := parting.asked (same ▸ here)
    · cases step with
      | finish => exact ⟨asked, .inr rfl⟩
      | adjust _ going => simp [asked] at going
      | _ => simp_all
    · cases step <;> simp_all
  known rest here := by
    obtain ⟨early, same⟩ := step.before_joined sound
    rw [same] at here
    simp [here, DtorPc.pastMgr] at early

theorem Parting.destruct (parting : pool.Parting) (step : DtorStep pool after) : after.Parting := by
  cases step with
  | unmanaged here absent => exact ⟨nofun, nofun⟩
  | stopMgr here waits => exact ⟨fun _ => ⟨rfl, .inl waits⟩, nofun⟩
  | joinMgr here finished => exact ⟨nofun, nofun⟩
  | stopAll here => exact ⟨nofun, nofun⟩
  | notifyAll here =>
      refine ⟨nofun, fun rest same id member => ?_⟩
      cases same
      dsimp only
      rwa [Workers.ids_wakeAll]
  | @join id rest pc here found returned =>
      refine ⟨nofun, fun rest' same other member => ?_⟩
      cases same
      exact parting.known _ here other (List.mem_cons_of_mem _ member)
  | finish here => exact ⟨nofun, nofun⟩

theorem Parting.next (parting : pool.Parting) (sound : pool.Sound)
    (stepped : pool.next turn = some (after, note)) : after.Parting := by
  cases next_step stepped with
  | refuse stopped => exact parting
  | enqueue going => exact parting.keep rfl rfl rfl rfl
  | notifyOne step => exact parting.wake step
  | spurious step => exact parting.wake step
  | worker step => exact parting.work step
  | mgr step => exact parting.manage sound step
  | dtor step => exact parting.destruct step

/-! The rank of a pool that is being destroyed. -/

/-- What the workers have before them, where a blocked one counts for `blocked`. -/
def load (blocked : Nat) (pool : ThreadPool τ) : Nat :=
  4 * pool.tasks.length + 2 * pool.dueNotifies + pool.workers.weight blocked

/-- What the destructor has before it.  Its stop makes every blocked worker count. -/
def partingLeft (pool : ThreadPool τ) : Nat :=
  match pool.dtor with
  | .notCalled => 3 * pool.workers.length + 7
  | .joiningMgr => 3 * pool.workers.length + 5 + (if pool.mgr = .waiting then 1 else 0)
  | .stoppingAll => 3 * pool.workers.length + 4
  | .notifying => pool.workers.length + 3
  | .joining rest => rest.length + 1
  | .done => 0

def teardownRank (pool : ThreadPool τ) : Nat :=
  pool.load (if pool.dtor.stopped then 2 else 0) + pool.partingLeft

theorem partingLeft_congr (dtor : after.dtor = pool.dtor) (mgr : after.mgr = pool.mgr)
    (size : after.workers.length = pool.workers.length) : after.partingLeft = pool.partingLeft := by
  rw [partingLeft, dtor, mgr, size, partingLeft]

/-- A worker that leaves `wait` lowers the rank if it waits no more after that, or if it
takes a notification with it. -/
theorem woken_lowers (found : pool.workers.pcOf id = some .waiting) {dueNotifies : Nat}
    (cheaper : dueNotifies + 1 = pool.dueNotifies ∨
      dueNotifies = pool.dueNotifies ∧ pool.dtor.stopped = true) :
    teardownRank { pool with workers := pool.workers.setPc id .ready, dueNotifies } <
      pool.teardownRank := by
  have left : partingLeft { pool with workers := pool.workers.setPc id .ready, dueNotifies } =
      pool.partingLeft := partingLeft_congr rfl rfl (Workers.length_setPc found)
  have weight (blocked : Nat) := Workers.weight_setPc blocked found .ready
  simp only [WorkerPc.weight] at weight
  rw [teardownRank, left, teardownRank]
  simp only [load]
  rcases cheaper with fewer | ⟨same, stopped⟩
  · cases pool.dtor.stopped with
    | true =>
        have weight := weight 2
        simp only [if_true]
        omega
    | false =>
        have weight := weight 0
        simp only [Bool.false_eq_true, if_false]
        omega
  · have weight := weight 2
    simp only [stopped, if_true]
    omega

theorem wakeUp_lowers (stopped : pool.dtor.stopped = true) (woke : pool.wakeUp id = some after) :
    after.teardownRank < pool.teardownRank := by
  unfold wakeUp at woke
  split at woke
  · rename_i found
    cases woke
    exact woken_lowers found (.inr ⟨rfl, stopped⟩)
  · cases woke

theorem notifyOne_lowers {woken : Option Nat} (notified : pool.notifyOne woken = some after) :
    after.teardownRank < pool.teardownRank := by
  unfold notifyOne at notified
  split at notified
  · cases notified
  · rename_i due
    cases woken with
    | some id =>
        unfold wakeUp at notified
        dsimp only at notified
        split at notified
        · rename_i found
          cases notified
          exact woken_lowers found (.inl (Nat.succ_pred due))
        · cases notified
    | none =>
        dsimp only at notified
        split at notified
        · cases notified
        · cases notified
          have left : partingLeft { pool with dueNotifies := pool.dueNotifies - 1 } =
              pool.partingLeft := partingLeft_congr rfl rfl rfl
          rw [teardownRank, left, teardownRank]
          simp only [load]
          omega

/-- A worker goes to a place with less before it, with the task of its turn. -/
theorem work_lowers {old pc : WorkerPc τ} (found : pool.workers.pcOf id = some old)
    {tasks : List τ} {stopNum : Int} {exitedWorkers : List Nat}
    (cheaper : 4 * tasks.length + pc.weight (if pool.dtor.stopped then 2 else 0) <
      4 * pool.tasks.length + old.weight (if pool.dtor.stopped then 2 else 0)) :
    teardownRank { pool with workers := pool.workers.setPc id pc, tasks, stopNum, exitedWorkers } <
      pool.teardownRank := by
  have left : partingLeft
      { pool with workers := pool.workers.setPc id pc, tasks, stopNum, exitedWorkers } =
      pool.partingLeft := partingLeft_congr rfl rfl (Workers.length_setPc found)
  have weight := Workers.weight_setPc (if pool.dtor.stopped then 2 else 0) found pc
  rw [teardownRank, left, teardownRank]
  simp only [load]
  omega

theorem WorkerStep.lowers (sound : pool.Sound) (step : WorkerStep pool id after note) :
    after.teardownRank < pool.teardownRank := by
  cases step with
  | block found going idle =>
      -- Behind the stop nobody blocks any more.
      have notStopped : pool.dtor.stopped = false := by
        rw [← Bool.not_eq_true, ← sound.stopped_iff, going]
        decide
      exact work_lowers found (by simp [notStopped, WorkerPc.weight])
  | exit found partial_ => exact work_lowers found (by simp [WorkerPc.weight])
  | leave found stopped done => exact work_lowers found (by simp [WorkerPc.weight])
  | front found negative unnamed => exact work_lowers found (by simp [WorkerPc.weight])
  | take found queue =>
      refine work_lowers found ?_
      simp only [queue, List.length_cons, WorkerPc.weight]
      omega
  | run found => exact work_lowers found (by simp [WorkerPc.weight])

theorem MgrStep.lowers (sound : pool.Sound) (parting : pool.Parting) (unmanaged : pool.Unmanaged)
    (step : MgrStep pool after note) : after.teardownRank < pool.teardownRank ∧ after.Unmanaged := by
  obtain ⟨early, same⟩ := step.before_joined sound
  rcases unmanaged with absent | called
  · cases step <;> simp_all
  · have here : pool.dtor = .joiningMgr := by
      cases at_ : pool.dtor <;> simp_all [DtorPc.pastMgr]
    refine ⟨?_, .inr (by rw [same]; exact called)⟩
    obtain ⟨asked, waits | finished⟩ := parting.asked here
    · cases step with
      | finish => simp [teardownRank, load, partingLeft, here, waits]
      | adjust _ going => simp [asked] at going
      | _ => simp_all
    · cases step <;> simp_all

theorem DtorStep.lowers (step : DtorStep pool after) :
    after.teardownRank < pool.teardownRank ∧ after.dtor ≠ .notCalled := by
  cases step with
  | unmanaged here absent => simp [teardownRank, load, partingLeft, here, DtorPc.stopped]
  | stopMgr here waits => simp [teardownRank, load, partingLeft, here, DtorPc.stopped, waits]
  | joinMgr here finished =>
      simp [teardownRank, load, partingLeft, here, DtorPc.stopped, finished]
  | stopAll here =>
      have blocked := @Workers.weight_blocked _ pool.workers
      simp only [teardownRank, load, partingLeft, here, DtorPc.stopped, if_true,
        Bool.false_eq_true, if_false]
      exact ⟨by omega, by simp⟩
  | notifyAll here =>
      have woken := @Workers.weight_wakeAll _ pool.workers
      simp only [teardownRank, load, partingLeft, here, DtorPc.stopped, if_true, List.length_map]
      exact ⟨by omega, by simp⟩
  | join here => simp [teardownRank, load, partingLeft, here, DtorPc.stopped]
  | finish here => simp [teardownRank, load, partingLeft, here, DtorPc.stopped]

/-- Each turn leads the pool nearer to the end of its destructor. -/
theorem teardown_lowers (sound : pool.Sound) (parting : pool.Parting) (unmanaged : pool.Unmanaged)
    (allowed : TeardownTurn pool turn) (stepped : pool.next turn = some (after, note)) :
    after.teardownRank < pool.teardownRank ∧ after.Unmanaged := by
  have keep (lower : after.teardownRank < pool.teardownRank) (mgr : after.mgr = pool.mgr)
      (dtor : after.dtor = pool.dtor) :
      after.teardownRank < pool.teardownRank ∧ after.Unmanaged := by
    rw [Unmanaged, mgr, dtor]
    exact ⟨lower, unmanaged⟩
  cases turn with
  | enqueue task => exact allowed.elim
  | notifyOne woken =>
      obtain ⟨next, notified, same⟩ := Option.map_eq_some_iff.mp stepped
      cases same
      have lower := notifyOne_lowers notified
      cases notifyOne_step notified <;> exact keep lower rfl rfl
  | spurious id =>
      obtain ⟨next, woke, same⟩ := Option.map_eq_some_iff.mp stepped
      cases same
      have lower := wakeUp_lowers allowed woke
      cases wakeUp_step woke <;> exact keep lower rfl rfl
  | worker id =>
      have step := workerStep_step stepped
      have lower := step.lowers sound
      cases step <;> exact keep lower rfl rfl
  | mgr choice => exact (mgrStep_step stepped).lowers sound parting unmanaged
  | dtor =>
      obtain ⟨next, went, same⟩ := Option.map_eq_some_iff.mp stepped
      cases same
      exact (dtorStep_step went).lowers.imp_right .inr

/-- A destructor that has not returned can move, or waits for a thread that can. -/
theorem dtor_waits (sound : pool.Sound) (parting : pool.Parting) (unmanaged : pool.Unmanaged)
    (open_ : pool.dtor ≠ .done) :
    pool.dtorStep.isSome ∨ pool.mgr = .waiting ∧ pool.stopMgr = true ∨
      ∃ id pc, pool.workers.pcOf id = some pc ∧ pc.isActive = true := by
  cases here : pool.dtor with
  | notCalled =>
      have absent := unmanaged.resolve_right fun called => called here
      exact .inl (by simp [dtorStep, here, absent])
  | joiningMgr =>
      obtain ⟨asked, waits | finished⟩ := parting.asked here
      · exact .inr (.inl ⟨waits, asked⟩)
      · exact .inl (by simp [dtorStep, here, finished])
  | stoppingAll | notifying => exact .inl (by simp [dtorStep, here])
  | done => exact absurd here open_
  | joining rest =>
      cases rest with
      | nil => exact .inl (by simp [dtorStep, here])
      | cons id rest =>
          obtain ⟨pc, found⟩ := Workers.exists_pcOf (parting.known _ here id List.mem_cons_self)
          cases pc with
          | ready | running task => exact .inr (.inr ⟨id, _, found, rfl⟩)
          | exited | finished => exact .inl (by simp [dtorStep, here, found, WorkerPc.isEnded])
          | wild => exact absurd found (sound.tame id)
          | waiting =>
              -- Nobody is blocked behind the `notify_all` of the stop.
              have stopped : pool.stopNum = threadStopAll :=
                sound.stopped_iff.mpr (by rw [here]; rfl)
              rcases sound.noticed id found (by rw [stopped]; decide) with mgr | dtor
              · rcases sound.alone (by rw [here]; rfl) with gone | gone <;> simp [gone] at mgr
              · simp [here] at dtor

/-- What holds of a pool while its destructor is at work. -/
structure TearingDown (notes : List (PoolNote τ)) (pool : ThreadPool τ) : Prop where
  sound : pool.Sound
  parting : pool.Parting
  unmanaged : pool.Unmanaged
  ledger : Ledger notes pool

theorem TearingDown.next {notes : List (PoolNote τ)} (down : TearingDown notes pool)
    (allowed : TeardownTurn pool turn) (stepped : pool.next turn = some (after, note)) :
    TearingDown (notes ++ [note]) after ∧ after.teardownRank < pool.teardownRank := by
  obtain ⟨sound, tame⟩ := down.sound.next stepped
  obtain ⟨lower, unmanaged⟩ := teardown_lowers down.sound down.parting down.unmanaged allowed stepped
  exact ⟨⟨sound, down.parting.next down.sound stepped, unmanaged,
    down.ledger.step (.next down.sound stepped) tame⟩, lower⟩

theorem TearingDown.advances {notes : List (PoolNote τ)} (down : TearingDown notes pool)
    (open_ : pool.dtor ≠ .done) :
    ∃ turn, TeardownTurn pool turn ∧ (pool.next turn).isSome := by
  rcases dtor_waits down.sound down.parting down.unmanaged open_ with
    moves | ⟨waits, asked⟩ | ⟨id, pc, found, active⟩
  · exact ⟨.dtor, trivial, by simpa [ThreadPool.next] using moves⟩
  · exact ⟨.mgr 0, trivial, by simp [ThreadPool.next, mgrStep, waits, asked]⟩
  · refine ⟨.worker id, trivial, ?_⟩
    cases pc with
    | ready | running task => simp [ThreadPool.next, workerStep, found]
    | _ => cases active

/-- What holds when the destructor has returned: every thread has, each task put in was
taken, in this order, and whoever took one ran it to its end. -/
structure Returned (notes : List (PoolNote τ)) (pool : ThreadPool τ) : Prop where
  done : pool.dtor = .done
  unmanaged : pool.mgr = .absent ∨ pool.mgr = .finished
  ended : ∀ id pc, pool.workers.pcOf id = some pc → pc.isEnded = true
  taken : notes.filterMap PoolNote.taken? = notes.filterMap PoolNote.enqueued?
  ran : ∀ id, notes.filterMap (PoolNote.ranBy? id) = notes.filterMap (PoolNote.takenBy? id)

theorem TearingDown.returned {notes : List (PoolNote τ)} (down : TearingDown notes pool)
    (done : pool.dtor = .done) : Returned notes pool := by
  obtain ⟨empty, idle⟩ := down.sound.done done
  refine ⟨done, down.sound.alone (by rw [done]; rfl), fun id pc found => ?_, ?_, fun id => ?_⟩
  · exact (down.sound.ended [] (by rw [done]; rfl) id pc found).resolve_left List.not_mem_nil
  · rw [← down.ledger.order, empty, List.append_nil]
  · rw [down.ledger.runs, idle, List.append_nil]

/-- From every state in which the destructor has been called, or may be at once, it
returns. -/
theorem destructor_returns {idleNum maxNum : Nat} {dynamic : Bool} (idle : 1 ≤ idleNum)
    (max : 1 ≤ maxNum) {notes : List (PoolNote τ)}
    (run : (system τ idleNum maxNum dynamic).Runs notes pool) (unmanaged : pool.Unmanaged) :
    System.Inevitable next TeardownTurn RefusedTurn Returned notes pool := by
  have parts : (pool.Sound ∧ pool.Parting) ∧ Ledger notes pool := by
    refine @System.Runs.invariant _ _ _ (fun notes pool => (pool.Sound ∧ pool.Parting) ∧ Ledger notes pool)
      ?_ ?_ _ _ run
    · intro pool held
      obtain ⟨ids, distinct, length, rfl⟩ := held
      exact ⟨⟨construct_sound distinct (by omega) maxNum dynamic, construct_parting ids maxNum dynamic⟩,
        .construct ids maxNum dynamic⟩
    · intro notes before note after held step
      obtain ⟨⟨sound, parting⟩, ledger⟩ := held
      obtain ⟨turn, stepped⟩ := step
      obtain ⟨sound', tame⟩ := sound.next stepped
      exact ⟨⟨sound', parting.next sound stepped⟩, ledger.step (.next sound stepped) tame⟩
  have down : TearingDown notes pool := ⟨parts.1.1, parts.1.2, unmanaged, parts.2⟩
  refine .of_rank wellFounded_lt teardownRank (fun down open_ => ?_) (fun down _ => down.next)
    (fun down _ refused stepped => ?_) down
  · exact down.advances fun done => open_ (down.returned done)
  · obtain ⟨stopped, task, rfl⟩ := refused
    rw [ThreadPool.next, ThreadPool.enqueue, if_pos stopped] at stepped
    cases stepped
    exact ⟨⟨down.sound, down.parting, down.unmanaged, down.ledger.step (.still rfl rfl) fun id same => (by cases same)⟩,
      rfl⟩

/-- A partial stop is due and a task waits when the destructor is called. -/
def partialStopTurns : List (PoolTurn Nat) :=
  [.worker 0, .worker 1] ++ List.replicate 15 (.mgr 0) ++ [.enqueue 7, .dtor]

theorem destructor_returns_partial :
    ∃ notes pool, System.follow next (construct [0, 1] 2 true) partialStopTurns = some (pool, notes) ∧
      pool.stopNum = 1 ∧ pool.tasks = [7] ∧
      System.Inevitable next TeardownTurn RefusedTurn Returned notes pool := by
  have outcome : (System.follow next (construct [0, 1] 2 true) partialStopTurns).map
      (fun reached => (reached.1.stopNum, reached.1.tasks, reached.1.dtor)) =
      some (1, [7], .joiningMgr) := by decide +kernel
  obtain ⟨⟨pool, notes⟩, followed, read⟩ := Option.map_eq_some_iff.mp outcome
  have start : (system Nat 2 2 true).Runs [] (construct [0, 1] 2 true) :=
    .start ⟨[0, 1], by decide, rfl, rfl⟩
  have here : pool.dtor = .joiningMgr := (Prod.mk.inj (Prod.mk.inj read).2).2
  exact ⟨notes, pool, followed, (Prod.mk.inj read).1, (Prod.mk.inj (Prod.mk.inj read).2).1,
    destructor_returns (by decide) (by decide) (start.follow followed) (.inr (by rw [here]; decide))⟩

end ThreadPool

end LiteWebServer
