import LiteWebServer.Data.PriorityQueue
import LiteWebServer.Data.UnorderedMap

namespace LiteWebServer

open Data

/-- A point of the steady clock, in its ticks. -/
abbrev TimePoint := Int

structure TimerNode where
  id : Int
  expire : TimePoint
deriving DecidableEq, Repr

/-- The heap may hold nodes of timers that were overwritten or removed; `timerMap`
says which nodes count. -/
structure TimerManager (pq : PriorityQueue TimerNode TimerNode.expire) where
  timerQueue : pq.Queue
  timerMap : UnorderedMap Int TimePoint

namespace TimerManager

variable {pq : PriorityQueue TimerNode TimerNode.expire}

def fresh (pq : PriorityQueue TimerNode TimerNode.expire) : TimerManager pq :=
  ⟨pq.empty, ∅⟩

def addTimer (timers : TimerManager pq) (id : Int) (expireTime : TimePoint) : TimerManager pq :=
  ⟨pq.push timers.timerQueue ⟨id, expireTime⟩, timers.timerMap.insert id expireTime⟩

/-- The overload of `add_timer` that takes a node. -/
def addTimerNode (timers : TimerManager pq) (node : TimerNode) : TimerManager pq :=
  ⟨pq.push timers.timerQueue node, timers.timerMap.insert node.id node.expire⟩

def updateTimer (timers : TimerManager pq) (id : Int) (expireTime : TimePoint) : TimerManager pq :=
  timers.addTimer id expireTime

def rmTimer (timers : TimerManager pq) (id : Int) : TimerManager pq :=
  { timers with timerMap := timers.timerMap.erase id }

/-- The loop of `handle_expired_timers`; every round pops a node. -/
def expireRounds (now : TimePoint) : Nat → TimerManager pq → List Int → TimerManager pq × List Int
  | 0, timers, expired => (timers, expired)
  | rounds + 1, timers, expired =>
      match pq.top? timers.timerQueue with
      | none => (timers, expired)
      | some top =>
          if now < top.expire then (timers, expired)
          else
            let timers := { timers with timerQueue := pq.pop timers.timerQueue }
            if timers.timerMap.lookup top.id ≠ some top.expire then
              expireRounds now rounds timers expired
            else
              expireRounds now rounds { timers with timerMap := timers.timerMap.erase top.id }
                (expired ++ [top.id])

def handleExpiredTimers (timers : TimerManager pq) (now : TimePoint) (expired : List Int) :
    TimerManager pq × List Int :=
  expireRounds now (pq.size timers.timerQueue) timers expired

def topRounds (timerMap : UnorderedMap Int TimePoint) : Nat → pq.Queue → Option TimerNode
  | 0, _ => none
  | rounds + 1, copy =>
      match pq.top? copy with
      | none => none
      | some top =>
          if timerMap.lookup top.id ≠ some top.expire then topRounds timerMap rounds (pq.pop copy)
          else some top

def getTop (timers : TimerManager pq) (now : TimePoint) : TimerNode :=
  (topRounds timers.timerMap (pq.size timers.timerQueue) timers.timerQueue).getD ⟨-1, now⟩

def queueSize (timers : TimerManager pq) : Nat := timers.timerMap.entries.length

/-- Every timer that is set has its node in the heap. -/
def Covered (timers : TimerManager pq) : Prop :=
  ∀ {id expire}, timers.timerMap.lookup id = some expire →
    ⟨id, expire⟩ ∈ pq.contents timers.timerQueue

variable {timers : TimerManager pq} {now : TimePoint} {top : TimerNode}

theorem lookup_addTimer (id other : Int) (expire : TimePoint) :
    (timers.addTimer id expire).timerMap.lookup other =
      if other = id then some expire else timers.timerMap.lookup other := by
  split
  · rename_i same
    rw [same]
    exact AList.lookup_insert _
  · rename_i differs
    exact AList.lookup_insert_ne differs

theorem lookup_rmTimer (id other : Int) :
    (timers.rmTimer id).timerMap.lookup other =
      if other = id then none else timers.timerMap.lookup other := by
  split
  · rename_i same
    rw [same]
    exact AList.lookup_erase _ _
  · rename_i differs
    exact AList.lookup_erase_ne differs

theorem fresh_covered : (fresh pq).Covered := by
  intro id expire found
  cases found

theorem addTimer_covered (covered : timers.Covered) (id : Int) (expire : TimePoint) :
    (timers.addTimer id expire).Covered := by
  intro other expire' found
  apply (pq.mem_push).mpr
  by_cases same : other = id
  · subst other
    rw [addTimer, AList.lookup_insert, Option.some.injEq] at found
    exact .inl (congrArg (TimerNode.mk id) found.symm)
  · rw [addTimer, AList.lookup_insert_ne same] at found
    exact .inr (covered found)

theorem rmTimer_covered (covered : timers.Covered) (id : Int) : (timers.rmTimer id).Covered := by
  intro other expire found
  by_cases same : other = id
  · subst other
    simp [rmTimer] at found
  · exact covered (by rwa [rmTimer, AList.lookup_erase_ne same] at found)

theorem pop_stale_covered (covered : timers.Covered)
    (found : pq.top? timers.timerQueue = some top)
    (stale : timers.timerMap.lookup top.id ≠ some top.expire) :
    Covered { timers with timerQueue := pq.pop timers.timerQueue } := by
  intro id expire live
  rcases (pq.mem_pop found).mp (covered live) with same | below
  · subst top
    exact absurd live stale
  · exact below

theorem pop_live_covered (covered : timers.Covered)
    (found : pq.top? timers.timerQueue = some top) :
    Covered ⟨pq.pop timers.timerQueue, timers.timerMap.erase top.id⟩ := by
  intro id expire live
  by_cases same : id = top.id
  · subst id
    simp at live
  · rw [AList.lookup_erase_ne same] at live
    rcases (pq.mem_pop found).mp (covered live) with this | below
    · exact absurd (congrArg TimerNode.id this) same
    · exact below

/-- `due` are the timers that expire at `now`, earliest first. -/
structure Expires (timerMap : UnorderedMap Int TimePoint) (now : TimePoint)
    (due : List TimerNode) : Prop where
  due_iff : ∀ node, node ∈ due ↔ timerMap.lookup node.id = some node.expire ∧ node.expire ≤ now
  once : (due.map TimerNode.id).Nodup
  sorted : due.Pairwise fun first later => first.expire ≤ later.expire

theorem Expires.mem_ids {timerMap : UnorderedMap Int TimePoint} {due : List TimerNode}
    (expires : Expires timerMap now due) {id : Int} :
    id ∈ due.map TimerNode.id ↔ ∃ expire, timerMap.lookup id = some expire ∧ expire ≤ now := by
  constructor
  · intro member
    obtain ⟨node, listed, rfl⟩ := List.mem_map.mp member
    exact ⟨node.expire, (expires.due_iff node).mp listed⟩
  · intro held
    obtain ⟨expire, found, early⟩ := held
    exact List.mem_map.mpr ⟨⟨id, expire⟩, (expires.due_iff ⟨id, expire⟩).mpr ⟨found, early⟩, rfl⟩

theorem Expires.none {timerMap : UnorderedMap Int TimePoint}
    (later : ∀ {id expire}, timerMap.lookup id = some expire → now < expire) :
    Expires timerMap now [] where
  due_iff node := by
    refine iff_of_false List.not_mem_nil fun ⟨live, early⟩ => ?_
    exact absurd (later live) (not_lt.mpr early)
  once := List.nodup_nil
  sorted := .nil

theorem Expires.cons {timerMap : UnorderedMap Int TimePoint} {due : List TimerNode}
    (live : timerMap.lookup top.id = some top.expire) (early : top.expire ≤ now)
    (first : ∀ {id expire}, timerMap.lookup id = some expire → top.expire ≤ expire)
    (rest : Expires (timerMap.erase top.id) now due) : Expires timerMap now (top :: due) where
  due_iff node := by
    rw [List.mem_cons, rest.due_iff]
    by_cases same : node.id = top.id
    · rw [same, AList.lookup_erase, live]
      constructor
      · intro either
        rcases either with rfl | ⟨gone, -⟩
        · exact ⟨rfl, early⟩
        · cases gone
      · intro held
        obtain ⟨expire, -⟩ := held
        left
        cases node
        cases top
        simp_all
    · rw [AList.lookup_erase_ne same]
      exact or_iff_right fun node_eq => same (congrArg TimerNode.id node_eq)
  once := by
    refine List.nodup_cons.mpr ⟨fun member => ?_, rest.once⟩
    obtain ⟨node, member, same⟩ := List.mem_map.mp member
    have gone := ((rest.due_iff node).mp member).1
    rw [same, AList.lookup_erase] at gone
    cases gone
  sorted := by
    refine List.pairwise_cons.mpr ⟨fun node member => ?_, rest.sorted⟩
    have found := ((rest.due_iff node).mp member).1
    by_cases same : node.id = top.id
    · rw [same, AList.lookup_erase] at found
      cases found
    · rw [AList.lookup_erase_ne same] at found
      exact first found

theorem expireRounds_spec {rounds : Nat} {expired : List Int} (covered : timers.Covered)
    (enough : pq.size timers.timerQueue ≤ rounds) :
    ∃ due, Expires timers.timerMap now due ∧
      (expireRounds now rounds timers expired).2 = expired ++ due.map TimerNode.id ∧
      (expireRounds now rounds timers expired).1.Covered ∧
      ∀ id, (expireRounds now rounds timers expired).1.timerMap.lookup id =
        (timers.timerMap.lookup id).filter (now < ·) := by
  -- A heap that shows no due node holds none: every timer still set is later than `now`.
  have stops {timers : TimerManager pq} {expired : List Int} (covered : timers.Covered)
      (later : ∀ node ∈ pq.contents timers.timerQueue, now < node.expire) :
      ∃ due, Expires timers.timerMap now due ∧ expired = expired ++ due.map TimerNode.id ∧
        timers.Covered ∧
        ∀ id, timers.timerMap.lookup id = (timers.timerMap.lookup id).filter (now < ·) := by
    have ahead {id expire} (live : timers.timerMap.lookup id = some expire) : now < expire :=
      later _ (covered live)
    refine ⟨[], .none ahead, by simp, covered, fun id => ?_⟩
    cases live : timers.timerMap.lookup id with
    | none => rfl
    | some expire => rw [Option.filter_some, if_pos (by simpa using ahead live)]
  induction rounds generalizing timers expired with
  | zero =>
      have bare := pq.contents_none (pq.top?_of_size_zero (Nat.le_zero.mp enough))
      exact stops covered (by simp [bare])
  | succ rounds ih =>
      rw [expireRounds]
      cases found : pq.top? timers.timerQueue with
      | none => exact stops covered (by simp [pq.contents_none found])
      | some top =>
          have least := pq.top?_least found
          have fewer := pq.size_pop found
          by_cases early : now < top.expire
          · simp only [if_pos early]
            exact stops covered fun node member => lt_of_lt_of_le early (least node member)
          · simp only [if_neg early]
            by_cases stale : timers.timerMap.lookup top.id ≠ some top.expire
            · rw [if_pos stale]
              exact ih (pop_stale_covered covered found stale) (by dsimp only; omega)
            · have live := not_not.mp stale
              rw [if_neg stale]
              obtain ⟨due, expires, appended, covered', kept⟩ :=
                @ih ⟨pq.pop timers.timerQueue, timers.timerMap.erase top.id⟩ (expired ++ [top.id])
                  (pop_live_covered covered found) (by dsimp only; omega)
              refine ⟨top :: due, expires.cons live (not_lt.mp early)
                (fun live => least _ (covered live)), ?_, covered', fun id => ?_⟩
              · rw [appended, List.map_cons, List.append_assoc]
                rfl
              · rw [kept]
                by_cases same : id = top.id
                · subst id
                  rw [AList.lookup_erase, live, Option.filter_some, if_neg (by simpa using early)]
                  rfl
                · rw [AList.lookup_erase_ne same]

theorem handleExpiredTimers_spec (covered : timers.Covered) (now : TimePoint) (expired : List Int) :
    ∃ due, Expires timers.timerMap now due ∧
      (timers.handleExpiredTimers now expired).2 = expired ++ due.map TimerNode.id ∧
      (timers.handleExpiredTimers now expired).1.Covered ∧
      ∀ id, (timers.handleExpiredTimers now expired).1.timerMap.lookup id =
        (timers.timerMap.lookup id).filter (now < ·) :=
  expireRounds_spec covered le_rfl

theorem unset_of_bare {copy : pq.Queue} {timerMap : UnorderedMap Int TimePoint}
    (covered : ∀ {id expire}, timerMap.lookup id = some expire → ⟨id, expire⟩ ∈ pq.contents copy)
    (bare : pq.contents copy = 0) : timerMap = ∅ := by
  refine AList.ext (List.eq_nil_iff_forall_not_mem.mpr fun ⟨id, expire⟩ member => ?_)
  have held := covered (AList.mem_lookup_iff.mpr member)
  simp [bare] at held

theorem topRounds_spec {rounds : Nat} {copy : pq.Queue} {timerMap : UnorderedMap Int TimePoint}
    (covered : ∀ {id expire}, timerMap.lookup id = some expire → ⟨id, expire⟩ ∈ pq.contents copy)
    (enough : pq.size copy ≤ rounds) :
    match topRounds timerMap rounds copy with
    | some node => timerMap.lookup node.id = some node.expire ∧
        ∀ {id expire}, timerMap.lookup id = some expire → node.expire ≤ expire
    | none => timerMap = ∅ := by
  induction rounds generalizing copy with
  | zero => exact unset_of_bare covered (pq.contents_none (pq.top?_of_size_zero (Nat.le_zero.mp enough)))
  | succ rounds ih =>
      rw [topRounds]
      cases found : pq.top? copy with
      | none => exact unset_of_bare covered (pq.contents_none found)
      | some top =>
          have fewer := pq.size_pop found
          by_cases stale : timerMap.lookup top.id ≠ some top.expire
          · simp only [if_pos stale]
            refine ih (fun {id expire} live => ?_) (by omega)
            rcases (pq.mem_pop found).mp (covered live) with same | below
            · subst top
              exact absurd live stale
            · exact below
          · simp only [if_neg stale]
            exact ⟨not_not.mp stale, fun live => pq.top?_least found _ (covered live)⟩

end TimerManager

end LiteWebServer
