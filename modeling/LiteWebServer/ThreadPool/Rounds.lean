import LiteWebServer.ThreadPool.Sound

namespace LiteWebServer

open Data

/-! The manager, the destructor and whole runs keep the invariant. -/

namespace Workers

variable {workers : Workers τ} {id : Nat} {old : WorkerPc τ}

theorem pcOf_append_new (absent : id ∉ workers.map Prod.fst) (pc : WorkerPc τ) (other : Nat) :
    pcOf (workers ++ [(id, pc)]) other =
      if other = id then some pc else workers.pcOf other := by
  rw [pcOf_middle absent, List.append_nil]

theorem live_append_new (id : Nat) : live (workers ++ [(id, .ready)]) = workers.live + 1 := by
  simp [live, WorkerPc.isExited]

theorem pcOf_eraseP (distinct : (workers.map Prod.fst).Nodup) (found : workers.pcOf id = some old)
    (other : Nat) :
    pcOf (workers.eraseP fun worker => worker.1 = id) other =
      if other = id then none else workers.pcOf other := by
  obtain ⟨front, back, shape, absent⟩ := pcOf_split found
  rw [shape, eraseP_middle absent, pcOf_middle absent]
  split
  · rename_i same
    rw [shape, List.map_append, List.map_cons, List.nodup_middle, List.nodup_cons,
      ← List.map_append] at distinct
    exact pcOf_of_absent (same ▸ distinct.1)
  · rfl

theorem live_eraseP (found : workers.pcOf id = some .exited) :
    live (workers.eraseP fun worker => worker.1 = id) = workers.live := by
  obtain ⟨front, back, shape, absent⟩ := pcOf_split found
  rw [shape, eraseP_middle absent]
  simp [live, WorkerPc.isExited]

end Workers

namespace ThreadPool

/-- Joining the exited workers: all are found, none blocks the manager, and only
they go. -/
theorem joinExited_spec {ids : List Nat} {workers : Workers τ} (once : ids.Nodup)
    (distinct : (workers.map Prod.fst).Nodup)
    (exited : ∀ id ∈ ids, workers.pcOf id = some .exited) :
    ∃ stay, joinExited ids workers = some (stay, [], ids) ∧ (stay.map Prod.fst).Nodup ∧
      stay.live = workers.live ∧
      ∀ id, stay.pcOf id = if id ∈ ids then none else workers.pcOf id := by
  induction ids generalizing workers with
  | nil => exact ⟨workers, rfl, distinct, rfl, fun id => by simp⟩
  | cons id rest ih =>
      obtain ⟨notLater, once⟩ := List.nodup_cons.mp once
      have found := exited id List.mem_cons_self
      have lookup := Workers.pcOf_eraseP distinct found
      have fewer := distinct.sublist
        (List.Sublist.map Prod.fst (List.eraseP_sublist (p := fun worker => decide (worker.1 = id))))
      obtain ⟨stay, joined, distinct', live, others⟩ := ih once fewer fun other member => by
        have differs : other ≠ id := fun same => notLater (same ▸ member)
        rw [lookup, if_neg differs]
        exact exited other (List.mem_cons_of_mem _ member)
      refine ⟨stay, ?_, distinct', live.trans (Workers.live_eraseP found), fun other => ?_⟩
      · rw [joinExited, found]
        simp [WorkerPc.isEnded, joined]
      · rw [others, lookup]
        by_cases same : other = id <;> by_cases later : other ∈ rest <;> simp [same, later]

variable {pool : ThreadPool τ}

/-- While the manager is at work the destructor has not got past it. -/
theorem Sound.before_dtor (sound : pool.Sound) (working : pool.mgr.working = true) :
    pool.dtor.pastMgr = false := by
  cases past : pool.dtor.pastMgr with
  | false => rfl
  | true => rcases sound.alone past with gone | gone <;> simp [gone, MgrPc.working] at working

theorem pending_of_before {dtor : DtorPc} (before : dtor.pastMgr = false) : dtor.pending = none := by
  cases dtor <;> first | rfl | cases before

theorem stopped_of_before {dtor : DtorPc} (before : dtor.pastMgr = false) : dtor.stopped = false := by
  cases dtor <;> first | rfl | cases before

/-- A step of the manager that changes its place and its counters only. -/
theorem Sound.turnMgr (sound : pool.Sound) (working : pool.mgr.working = true)
    (quiet : pool.mgr ≠ .notifying) (mgr : MgrPc)
    (calm : mgr.calm = true → pool.stopNum = 0)
    (settled : mgr.settled = true → pool.exitedWorkers = [])
    (parting : ∀ rmWorkers, mgr = .stopping rmWorkers → rmWorkers + 1 ≤ pool.workers.length)
    (busyTimes idleTimes : Nat) :
    Sound { pool with mgr, busyTimes, idleTimes } := by
  have keeps : pool.Notifying → Notifying { pool with mgr, busyTimes, idleTimes } :=
    fun due => .inr (due.resolve_left quiet)
  exact { sound with
    noticed := fun id found stopped => keeps (sound.noticed id found stopped)
    attended := fun work => (sound.attended work).imp_right (Or.imp_left keeps)
    calm := calm
    settled := settled
    parting := parting
    alone := fun past => by simp [sound.before_dtor working] at past }

/-- A step of the manager behind `make_adjust_complete`. -/
theorem Sound.turnSettled (sound : pool.Sound) (here : pool.mgr.settled = true) (mgr : MgrPc)
    (parting : ∀ rmWorkers, mgr = .stopping rmWorkers → rmWorkers + 1 ≤ pool.workers.length)
    (busyTimes idleTimes : Nat) :
    Sound { pool with mgr, busyTimes, idleTimes } := by
  have quiet : pool.mgr ≠ .notifying := fun same => by simp [same, MgrPc.settled] at here
  exact sound.turnMgr (MgrPc.working_of_settled here) quiet mgr
    (fun _ => sound.calm (MgrPc.calm_of_settled here)) (fun _ => sound.settled here) parting _ _

theorem wakeAll_awake (workers : Workers τ) (id : Nat) : workers.wakeAll.pcOf id ≠ some .waiting := by
  rw [Workers.pcOf_wakeAll]
  cases workers.pcOf id with
  | none => nofun
  | some pc => cases pc <;> exact nofun

theorem wakeAll_pcOf_iff {workers : Workers τ} {id : Nat} {pc : WorkerPc τ}
    (apart : pc = .exited ∨ pc = .finished ∨ pc = .wild) :
    workers.wakeAll.pcOf id = some pc ↔ workers.pcOf id = some pc := by
  rw [Workers.pcOf_wakeAll]
  cases workers.pcOf id with
  | none => simp
  | some here => rcases apart with rfl | rfl | rfl <;> cases here <;> simp [WorkerPc.wake]

theorem Sound.notifyAll (sound : pool.Sound) {mgr : MgrPc} {dtor : DtorPc}
    (calm : mgr.calm = false) (stopped : dtor.stopped = pool.dtor.stopped)
    (alone : dtor.pastMgr = true → mgr = .absent ∨ mgr = .finished)
    (ended : ∀ rest, dtor.pending = some rest → ∀ id pc, pool.workers.wakeAll.pcOf id = some pc →
      id ∈ rest ∨ pc.isEnded = true) :
    Sound { pool with workers := pool.workers.wakeAll, mgr, dtor } := by
  have distinct : (pool.workers.wakeAll.map Prod.fst).Nodup := by
    rw [Workers.ids_wakeAll]
    exact sound.distinct
  have tame (id : Nat) : pool.workers.wakeAll.pcOf id ≠ some .wild := fun found =>
    sound.tame id ((wakeAll_pcOf_iff (.inr (.inr rfl))).mp found)
  have left (id : Nat) (found : pool.workers.wakeAll.pcOf id = some .finished) :
      pool.stopNum = threadStopAll ∧ pool.tasks = [] :=
    sound.left id ((wakeAll_pcOf_iff (.inr (.inl rfl))).mp found)
  have notCalm (here : mgr.calm = true) : False := by simp [calm] at here
  exact { sound with
    distinct := distinct
    spare := by
      dsimp only
      rw [Workers.live_wakeAll]
      exact sound.spare
    tame := tame
    left := left
    noticed := fun id found => absurd found (wakeAll_awake _ id)
    attended := fun work => .inr (.inr (Workers.exists_active distinct
      (by rw [Workers.live_wakeAll]; exact sound.live_pos) tame
      (fun id found => work (left id found).2) (wakeAll_awake _)))
    exited_iff := fun id => (sound.exited_iff id).trans (wakeAll_pcOf_iff (.inl rfl)).symm
    calm := fun here => (notCalm here).elim
    settled := fun here => (notCalm (MgrPc.calm_of_settled here)).elim
    parting := fun rmWorkers here => (notCalm (by dsimp only at here; rw [here]; rfl)).elim
    stopped_iff := by
      dsimp only
      rw [stopped]
      exact sound.stopped_iff
    alone := alone
    ended := ended }

theorem Sound.stopSome (sound : pool.Sound) {rmWorkers : Nat} (here : pool.mgr = .stopping rmWorkers) :
    Sound { pool with stopNum := rmWorkers, mgr := .notifying } := by
  have running := sound.calm (by rw [here]; rfl)
  have none := sound.settled (by rw [here]; rfl)
  have before := sound.before_dtor (by rw [here]; rfl)
  have all : pool.workers.live = pool.workers.length :=
    Workers.live_eq_length sound.distinct fun id found => by
      have member := (sound.exited_iff id).mpr found
      simp [none] at member
  exact { sound with
    range := by dsimp only; omega
    spare := by
      have parting := sound.parting rmWorkers here
      dsimp only
      omega
    left := fun id found => by
      have stopped := (sound.left id found).1
      simp [running, threadStopAll] at stopped
    noticed := fun _ _ _ => .inl rfl
    attended := fun _ => .inr (.inl (.inl rfl))
    calm := nofun
    settled := nofun
    parting := nofun
    stopped_iff := by
      dsimp only
      rw [stopped_of_before before, threadStopAll]
      refine iff_of_false ?_ Bool.false_ne_true
      omega
    alone := fun past => by simp [before] at past }

/-- The manager adds a thread with a new id. -/
theorem Sound.grow (sound : pool.Sound) {newWorkers id : Nat} (here : pool.mgr = .creating newWorkers)
    (new : id ∉ pool.workers.map Prod.fst) (left : Nat) :
    Sound { pool with mgr := .creating left, workers := pool.workers ++ [(id, .ready)] } := by
  have before := sound.before_dtor (by rw [here]; rfl)
  have running := sound.calm (by rw [here]; rfl)
  have lookup := Workers.pcOf_append_new new .ready
  have old {other : Nat} {pc : WorkerPc τ} (differs : pc ≠ .ready)
      (found : Workers.pcOf (pool.workers ++ [(id, .ready)]) other = some pc) :
      pool.workers.pcOf other = some pc := by
    rw [lookup] at found
    by_cases same : other = id
    · rw [if_pos same] at found
      exact absurd (Option.some.inj found).symm differs
    · rwa [if_neg same] at found
  exact { sound with
    distinct := by
      rw [List.map_append, List.nodup_append]
      refine ⟨sound.distinct, List.nodup_singleton _, fun first member second last => ?_⟩
      rw [List.map_cons, List.map_nil, List.mem_singleton] at last
      intro same
      rw [same, last] at member
      exact new member
    spare := by
      have spare := sound.spare
      dsimp only
      rw [Workers.live_append_new]
      omega
    tame := fun other found => sound.tame other (old nofun found)
    left := fun other found => sound.left other (old nofun found)
    noticed := fun _ _ stopped => absurd running stopped
    attended := fun _ => .inr (.inr ⟨id, .ready, by rw [lookup, if_pos rfl], rfl⟩)
    exited_iff := fun other => by
      rw [sound.exited_iff, lookup]
      by_cases same : other = id
      · subst other
        simp [Workers.pcOf_of_absent new]
      · rw [if_neg same]
    calm := fun _ => running
    settled := fun _ => sound.settled (by rw [here]; rfl)
    parting := nofun
    alone := fun past => by simp [before] at past
    ended := fun rest pending => by simp [pending_of_before before] at pending }

/-- The manager takes the threads it has joined off the list. -/
theorem Sound.shed (sound : pool.Sound) (here : pool.mgr = .joining) {stay : Workers τ}
    (distinct : (stay.map Prod.fst).Nodup) (live : stay.live = pool.workers.live)
    (lookup : ∀ id, stay.pcOf id = if id ∈ pool.exitedWorkers then none else pool.workers.pcOf id) :
    Sound { pool with workers := stay, exitedWorkers := [], mgr := .waiting } := by
  have before := sound.before_dtor (by rw [here]; rfl)
  have running := sound.calm (by rw [here]; rfl)
  have stays {id : Nat} {pc : WorkerPc τ} (found : stay.pcOf id = some pc) :
      pool.workers.pcOf id = some pc := by
    rw [lookup] at found
    split at found
    · cases found
    · exact found
  exact { sound with
    distinct := distinct
    spare := by
      dsimp only
      rw [live]
      exact sound.spare
    tame := fun id found => sound.tame id (stays found)
    left := fun id found => sound.left id (stays found)
    noticed := fun _ _ stopped => absurd running stopped
    attended := fun work => by
      refine (sound.attended work).imp_right (Or.imp (fun due => ?_) fun ⟨id, pc, found, active⟩ => ?_)
      · exact .inr (due.resolve_left (by simp [here]))
      · have notExited : id ∉ pool.exitedWorkers := fun member => by
          rw [(sound.exited_iff id).mp member, Option.some.injEq] at found
          simp [← found, WorkerPc.isActive] at active
        exact ⟨id, pc, by rw [lookup, if_neg notExited]; exact found, active⟩
    once := List.nodup_nil
    exited_iff := fun id => by
      refine iff_of_false List.not_mem_nil fun found => ?_
      have member := (sound.exited_iff id).mpr (stays found)
      dsimp only at found
      rw [lookup, if_pos member] at found
      cases found
    calm := nofun
    settled := nofun
    parting := nofun
    alone := fun past => by simp [before] at past
    ended := fun rest pending => by simp [pending_of_before before] at pending }

/-- A step of the manager from a place where nothing is asked of the next one. -/
theorem Sound.turnFree (sound : pool.Sound) (working : pool.mgr.working = true)
    (quiet : pool.mgr ≠ .notifying) (mgr : MgrPc) (free : mgr.calm = false) :
    Sound { pool with mgr } := by
  have notCalm (here : mgr.calm = true) : False := by simp [free] at here
  exact sound.turnMgr working quiet mgr (fun here => (notCalm here).elim)
    (fun here => (notCalm (MgrPc.calm_of_settled here)).elim)
    (fun rmWorkers here => (notCalm (by rw [here]; rfl)).elim) _ _

theorem Sound.manage (sound : pool.Sound) {after : ThreadPool τ} {note : PoolNote τ}
    (step : MgrStep pool after note) : after.Sound := by
  cases step with
  | finish here stop => exact sound.turnFree (by rw [here]; rfl) (by simp [here]) .finished rfl
  | adjust here going => exact sound.turnFree (by rw [here]; rfl) (by simp [here]) .adjusting rfl
  | postpone here partial_ => exact sound.turnFree (by rw [here]; rfl) (by simp [here]) .waiting rfl
  | complete here taken =>
      have working : pool.mgr.working = true := by rw [here]; rfl
      refine sound.turnMgr working (by simp [here]) .joining (fun _ => ?_)
        (by simp [MgrPc.settled]) (by simp) _ _
      have range := sound.range
      have notAll := mt sound.stopped_iff.mp
        (by simp [stopped_of_before (sound.before_dtor working)])
      rw [threadStopAll] at notAll
      omega
  | check here none =>
      exact sound.turnMgr (by rw [here]; rfl) (by simp [here]) .checking
        (fun _ => sound.calm (by rw [here]; rfl)) (fun _ => none) (by simp) _ _
  | join here loop =>
      obtain ⟨stay, joined, distinct, live, lookup⟩ := joinExited_spec sound.once sound.distinct
        fun id => (sound.exited_iff id).mp
      rw [joined] at loop
      cases loop
      exact sound.shed here distinct live lookup
  | select here next =>
      refine sound.turnSettled (by rw [here]; rfl) _ (fun rmWorkers same => ?_) _ _
      rcases next with rfl | rfl | rfl <;> cases same
  | grow here fits => exact sound.turnSettled (by rw [here]; rfl) (.creating _) (by simp) _ _
  | full here => exact sound.turnFree (by rw [here]; rfl) (by simp [here]) .waiting rfl
  | create here new => exact sound.grow here new _
  | grown here => exact sound.turnFree (by rw [here]; rfl) (by simp [here]) .waiting rfl
  | shrink here spares =>
      have spared := spares (sound.live_pos.trans Workers.live_le_length)
      exact sound.turnSettled (by rw [here]; rfl) (.stopping _)
        (fun _ same => by cases same; exact spared) _ _
  | least here => exact sound.turnFree (by rw [here]; rfl) (by simp [here]) .waiting rfl
  | stop here =>
      rw [if_pos (sound.calm (by rw [here]; rfl))]
      exact sound.stopSome here
  | notify here =>
      have before := sound.before_dtor (by rw [here]; rfl)
      exact sound.notifyAll rfl rfl (fun past => by simp [before] at past)
        (fun rest pending => by simp [pending_of_before before] at pending)

theorem Sound.turnDtor (sound : pool.Sound) (quiet : pool.dtor ≠ .notifying) (dtor : DtorPc)
    (stopped : dtor.stopped = pool.dtor.stopped)
    (alone : dtor.pastMgr = true → pool.mgr = .absent ∨ pool.mgr = .finished)
    (ended : ∀ rest, dtor.pending = some rest → ∀ id pc, pool.workers.pcOf id = some pc →
      id ∈ rest ∨ pc.isEnded = true) (stopMgr : Bool) :
    Sound { pool with dtor, stopMgr } := by
  have keeps : pool.Notifying → Notifying { pool with dtor, stopMgr } :=
    fun due => .inl (due.resolve_right quiet)
  exact { sound with
    noticed := fun id found stopped => keeps (sound.noticed id found stopped)
    attended := fun work => (sound.attended work).imp_right (Or.imp_left keeps)
    stopped_iff := by
      dsimp only
      rw [stopped]
      exact sound.stopped_iff
    alone := alone
    ended := ended }

theorem Sound.stopAll (sound : pool.Sound) (here : pool.dtor = .stoppingAll) :
    Sound { pool with stopNum := threadStopAll, dtor := .notifying } := by
  have alone := sound.alone (by rw [here]; rfl)
  have idle : pool.mgr.calm = false := by rcases alone with same | same <;> rw [same] <;> rfl
  exact { sound with
    range := le_rfl
    spare := by
      have spare := sound.spare
      dsimp only [threadStopAll]
      omega
    left := fun id found => ⟨rfl, (sound.left id found).2⟩
    noticed := fun _ _ _ => .inr rfl
    attended := fun _ => .inr (.inl (.inr rfl))
    calm := fun calm => by simp [idle] at calm
    settled := fun settled => by simp [MgrPc.calm_of_settled settled] at idle
    stopped_iff := iff_of_true rfl rfl
    alone := fun _ => alone
    ended := nofun }

theorem Sound.destruct (sound : pool.Sound) {after : ThreadPool τ} (step : DtorStep pool after) :
    after.Sound := by
  cases step with
  | unmanaged here absent =>
      exact sound.turnDtor (by simp [here]) .stoppingAll (by rw [here]; rfl) (fun _ => .inl absent) nofun _
  | stopMgr here waits =>
      exact sound.turnDtor (by simp [here]) .joiningMgr (by rw [here]; rfl) nofun nofun true
  | joinMgr here finished =>
      exact sound.turnDtor (by simp [here]) .stoppingAll (by rw [here]; rfl)
        (fun _ => .inr finished) nofun _
  | stopAll here => exact sound.stopAll here
  | notifyAll here =>
      have alone := sound.alone (by rw [here]; rfl)
      refine sound.notifyAll ?_ (by rw [here]; rfl) (fun _ => alone) fun rest same id pc found => ?_
      · rcases alone with same | same <;> rw [same] <;> rfl
      · cases same
        left
        rw [← Workers.ids_wakeAll]
        exact List.mem_map.mpr ⟨_, (Workers.mem_iff_pcOf
          (by rw [Workers.ids_wakeAll]; exact sound.distinct)).mpr found, rfl⟩
  | @join id rest pc here found returned =>
      refine sound.turnDtor (by simp [here]) (.joining rest) (by rw [here]; rfl)
        (fun _ => sound.alone (by rw [here]; rfl)) (fun rest' same other pc' found' => ?_) _
      cases same
      rcases sound.ended (id :: rest) (by rw [here]; rfl) other pc' found' with member | ended
      · rcases List.mem_cons.mp member with same | later
        · subst other
          rw [found, Option.some.injEq] at found'
          exact .inr (found' ▸ returned)
        · exact .inl later
      · exact .inr ended
  | finish here =>
      exact sound.turnDtor (by simp [here]) .done (by rw [here]; rfl)
        (fun _ => sound.alone (by rw [here]; rfl))
        (fun rest same id pc found => by cases same; exact sound.ended [] (by rw [here]; rfl) id pc found) _

/-- Every step keeps the invariant, and none calls `front` on an empty queue. -/
theorem Sound.next (sound : pool.Sound) {turn : PoolTurn τ} {after : ThreadPool τ}
    {note : PoolNote τ} (stepped : pool.next turn = some (after, note)) :
    after.Sound ∧ ∀ id, note ≠ .frontOfEmpty id := by
  cases next_step stepped with
  | refuse stopped => exact ⟨sound, nofun⟩
  | enqueue going => exact ⟨sound.enqueue going _, nofun⟩
  | notifyOne step => exact ⟨sound.wake step, nofun⟩
  | spurious step => exact ⟨sound.wake step, nofun⟩
  | worker step => exact sound.work step
  | mgr step => exact ⟨sound.manage step, fun _ => step.plain⟩
  | dtor step => exact ⟨sound.destruct step, nofun⟩

theorem construct_ready {ids : List Nat} {maxNum : Nat} {dynamic : Bool} {id : Nat}
    {pc : WorkerPc τ} (found : (construct ids maxNum dynamic).workers.pcOf id = some pc) :
    pc = .ready := by
  obtain ⟨front, back, shape, -⟩ := Workers.pcOf_split found
  have member : (id, pc) ∈ (construct (τ := τ) ids maxNum dynamic).workers := by
    rw [shape]
    exact List.mem_append_right _ List.mem_cons_self
  obtain ⟨_, -, same⟩ := List.mem_map.mp member
  exact (congrArg Prod.snd same).symm

theorem construct_sound {ids : List Nat} (distinct : ids.Nodup) (some : 1 ≤ ids.length)
    (maxNum : Nat) (dynamic : Bool) : (construct (τ := τ) ids maxNum dynamic).Sound := by
  have names : ((construct (τ := τ) ids maxNum dynamic).workers.map Prod.fst) = ids := by
    simp [construct, Function.comp_def]
  have live : (construct (τ := τ) ids maxNum dynamic).workers.live = ids.length := by
    rw [Workers.live_eq_length (by rw [names]; exact distinct) fun id found => by cases construct_ready found]
    simp [construct]
  exact {
    distinct := by rw [names]; exact distinct
    range := by
      change (-1 : Int) ≤ 0
      decide
    spare := by
      change max (0 : Int) 0 + 1 ≤ _
      omega
    tame := fun id found => by cases construct_ready found
    left := fun id found => by cases construct_ready found
    noticed := fun id found => by cases construct_ready found
    attended := fun work => absurd rfl work
    once := List.nodup_nil
    exited_iff := fun id => iff_of_false List.not_mem_nil fun found => by cases construct_ready found
    calm := fun _ => rfl
    settled := fun _ => rfl
    parting := fun rmWorkers here => by cases dynamic <;> cases here
    stopped_iff := iff_of_false (by simp [construct, threadStopAll]) Bool.false_ne_true
    alone := nofun
    ended := nofun }

end ThreadPool

end LiteWebServer
