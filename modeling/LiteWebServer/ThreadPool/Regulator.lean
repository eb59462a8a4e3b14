import LiteWebServer.ThreadPool.Resizing

namespace LiteWebServer

open Data

/-! What the manager is for, as a model of its own: a number of workers that follows the load. -/

/-- A number of workers that is led by what is seen of a queue. -/
structure Regulator where
  size : Nat
  busyTimes : Nat
  idleTimes : Nat
deriving DecidableEq

namespace Regulator

/-- One worker more or less from the third look in a row on, between one and `max_num_`. -/
def look (maxNum : Nat) (regulator : Regulator) (seen : Nat) : Regulator :=
  let busyTimes := if ThreadPool.isBusy seen then u32 (regulator.busyTimes + 1) else 0
  let idleTimes := if ThreadPool.isIdle seen then u32 (regulator.idleTimes + 1) else 0
  { busyTimes, idleTimes,
    size :=
      if ThreadPool.threadStatusTimes ≤ busyTimes then min (regulator.size + 1) maxNum
      else if ThreadPool.threadStatusTimes ≤ idleTimes then max (regulator.size - 1) 1
      else regulator.size }

/-- Where `size` workers get by the looks. -/
def follow (maxNum size : Nat) (looks : List Nat) : Regulator :=
  looks.foldl (look maxNum) ⟨size, 0, 0⟩

theorem follow_append {maxNum size seen : Nat} {looks : List Nat} :
    follow maxNum size (looks ++ [seen]) = (follow maxNum size looks).look maxNum seen := by
  rw [follow, List.foldl_append]
  rfl

/-- How many of so many looks in a row are acted on, when the counter starts at `times`. -/
def acts (times : Nat) : Nat → Nat
  | 0 => 0
  | count + 1 => acts times count + if ThreadPool.threadStatusTimes ≤ u32 (times + (count + 1)) then 1 else 0

/-- The first two looks are passed over, and up to three where the counter wraps. -/
theorem acts_wrap {times : Nat} (within : times < 2 ^ 32) (count : Nat) (short : count ≤ 2 ^ 32) :
    (times + count < 2 ^ 32 → count ≤ acts times count + (2 - times)) ∧
    (2 ^ 32 ≤ times + count →
      count ≤ acts times count + (2 - times) + min 3 (times + count + 1 - 2 ^ 32)) := by
  induction count with
  | zero => exact ⟨fun _ => by omega, fun _ => by omega⟩
  | succ count ih =>
      obtain ⟨before, behind⟩ := ih (by omega)
      by_cases acted : ThreadPool.threadStatusTimes ≤ u32 (times + (count + 1))
      · rw [acts, if_pos acted]
        omega
      · have missed : ¬ 3 ≤ (times + (count + 1)) % 2 ^ 32 := acted
        rw [acts, if_neg acted]
        omega

theorem acts_ge {times count : Nat} (within : times < 2 ^ 32) (short : count ≤ 2 ^ 32) :
    count ≤ acts times count + 3 := by
  have wrap := acts_wrap within count short
  omega

variable {maxNum start seen : Nat} {regulator : Regulator} {earlier row : List Nat}

/-- One to `max_num_` workers, and counters of 32 bits. -/
structure Bounded (maxNum : Nat) (regulator : Regulator) : Prop where
  some : 1 ≤ regulator.size
  room : regulator.size ≤ maxNum
  busy : regulator.busyTimes < 2 ^ 32
  idle : regulator.idleTimes < 2 ^ 32

theorem Bounded.look (bounded : Bounded maxNum regulator) (seen : Nat) :
    Bounded maxNum (regulator.look maxNum seen) := by
  obtain ⟨some, room, -, -⟩ := bounded
  have times (counts : Bool) (value : Nat) : (if counts then u32 value else 0) < 2 ^ 32 := by
    cases counts
    · exact Nat.two_pow_pos 32
    · exact u32_lt value
  refine ⟨?_, ?_, times _ _, times _ _⟩
  all_goals
    dsimp only [Regulator.look]
    generalize (if ThreadPool.isBusy seen then u32 (regulator.busyTimes + 1) else 0) = busyTimes
    generalize (if ThreadPool.isIdle seen then u32 (regulator.idleTimes + 1) else 0) = idleTimes
    split
    · omega
    · split <;> omega

theorem Bounded.foldl (bounded : Bounded maxNum regulator) (row : List Nat) :
    Bounded maxNum (row.foldl (Regulator.look maxNum) regulator) := by
  induction row generalizing regulator with
  | nil => exact bounded
  | cons seen row ih => exact ih (bounded.look seen)

theorem look_busy (busy : ThreadPool.isBusy seen = true) : regulator.look maxNum seen =
    { size :=
        if ThreadPool.threadStatusTimes ≤ u32 (regulator.busyTimes + 1) then min (regulator.size + 1) maxNum
        else regulator.size,
      busyTimes := u32 (regulator.busyTimes + 1), idleTimes := 0 } := by
  rw [Regulator.look, busy, ThreadPool.not_isIdle busy]
  rfl

theorem look_idle (idle : ThreadPool.isIdle seen = true) : regulator.look maxNum seen =
    { size :=
        if ThreadPool.threadStatusTimes ≤ u32 (regulator.idleTimes + 1) then max (regulator.size - 1) 1
        else regulator.size,
      busyTimes := 0, idleTimes := u32 (regulator.idleTimes + 1) } := by
  rw [Regulator.look, idle, ThreadPool.not_isBusy idle]
  rfl

/-- Busy looks in a row. -/
theorem foldl_busy (bounded : Bounded maxNum regulator) (busy : ∀ seen ∈ row, ThreadPool.isBusy seen = true) :
    (row.foldl (look maxNum) regulator).size = min (regulator.size + acts regulator.busyTimes row.length) maxNum ∧
      (row.foldl (look maxNum) regulator).busyTimes = u32 (regulator.busyTimes + row.length) := by
  induction row using List.reverseRecOn with
  | nil => exact ⟨(Nat.min_eq_left bounded.room).symm, (Nat.mod_eq_of_lt bounded.busy).symm⟩
  | append_singleton row last ih =>
      obtain ⟨size, times⟩ := ih fun seen member => busy seen (List.mem_append_left _ member)
      have lastBusy := busy last (by simp)
      rw [List.foldl_append, List.foldl_cons, List.foldl_nil, look_busy lastBusy, size, times,
        ThreadPool.u32_succ, List.length_append, List.length_singleton, acts, Nat.add_assoc]
      refine ⟨?_, rfl⟩
      dsimp only
      split <;> omega

/-- Idle looks in a row. -/
theorem foldl_idle (bounded : Bounded maxNum regulator) (idle : ∀ seen ∈ row, ThreadPool.isIdle seen = true) :
    (row.foldl (look maxNum) regulator).size = max (regulator.size - acts regulator.idleTimes row.length) 1 ∧
      (row.foldl (look maxNum) regulator).idleTimes = u32 (regulator.idleTimes + row.length) := by
  induction row using List.reverseRecOn with
  | nil => exact ⟨(Nat.max_eq_left bounded.some).symm, (Nat.mod_eq_of_lt bounded.idle).symm⟩
  | append_singleton row last ih =>
      obtain ⟨size, times⟩ := ih fun seen member => idle seen (List.mem_append_left _ member)
      have lastIdle := idle last (by simp)
      rw [List.foldl_append, List.foldl_cons, List.foldl_nil, look_idle lastIdle, size, times,
        ThreadPool.u32_succ, List.length_append, List.length_singleton, acts, Nat.add_assoc]
      refine ⟨?_, rfl⟩
      dsimp only
      split <;> omega

/-- Wherever it was before, so many looks of one kind lead to one end of the range. -/
theorem follow_steady (some : 1 ≤ start) (room : start ≤ maxNum) (small : maxNum + 2 ≤ 2 ^ 32)
    (long : row.length = maxNum + 2) (earlier : List Nat) :
    ((∀ seen ∈ row, ThreadPool.isBusy seen = true) → (follow maxNum start (earlier ++ row)).size = maxNum) ∧
    ((∀ seen ∈ row, ThreadPool.isIdle seen = true) → (follow maxNum start (earlier ++ row)).size = 1) := by
  have begun : Bounded maxNum ⟨start, 0, 0⟩ := ⟨some, room, Nat.two_pow_pos 32, Nat.two_pow_pos 32⟩
  have bounded := begun.foldl earlier
  rw [follow, List.foldl_append]
  constructor
  · intro busy
    have acted := acts_ge bounded.busy (long ▸ small : row.length ≤ 2 ^ 32)
    have least := bounded.some
    rw [(foldl_busy bounded busy).1]
    omega
  · intro idle
    have acted := acts_ge bounded.idle (long ▸ small : row.length ≤ 2 ^ 32)
    have most := bounded.room
    rw [(foldl_idle bounded idle).1]
    omega

end Regulator

end LiteWebServer
