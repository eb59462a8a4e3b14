import Mathlib.Data.Multiset.AddSub
import Mathlib.Order.Defs.LinearOrder
import Mathlib.Data.List.Sort

namespace LiteWebServer.Data

/-! Priority queues.  Which of several least elements is on top is left to the
implementation, as is everything else but the contents. -/

structure PriorityQueue (α : Type) {κ : Type} [LinearOrder κ] (key : α → κ) where
  Queue : Type
  contents : Queue → Multiset α
  empty : Queue
  push : Queue → α → Queue
  top? : Queue → Option α
  pop : Queue → Queue
  size : Queue → Nat
  contents_empty : contents empty = 0
  contents_push : ∀ queue element, contents (push queue element) = element ::ₘ contents queue
  contents_pop : ∀ {queue element}, top? queue = some element →
    contents queue = element ::ₘ contents (pop queue)
  contents_none : ∀ {queue}, top? queue = none → contents queue = 0
  top?_least : ∀ {queue element}, top? queue = some element →
    ∀ other ∈ contents queue, key element ≤ key other
  size_eq : ∀ queue, size queue = (contents queue).card

namespace PriorityQueue

variable {α κ : Type} [LinearOrder κ] {key : α → κ}

section

variable (pq : PriorityQueue α key) {queue : pq.Queue} {top : α}

theorem mem_pop {element : α} (found : pq.top? queue = some top) :
    element ∈ pq.contents queue ↔ element = top ∨ element ∈ pq.contents (pq.pop queue) := by
  rw [pq.contents_pop found, Multiset.mem_cons]

theorem mem_push {element other : α} :
    other ∈ pq.contents (pq.push queue element) ↔ other = element ∨ other ∈ pq.contents queue := by
  rw [pq.contents_push, Multiset.mem_cons]

theorem size_pop (found : pq.top? queue = some top) :
    pq.size queue = pq.size (pq.pop queue) + 1 := by
  rw [pq.size_eq, pq.size_eq, pq.contents_pop found, Multiset.card_cons]

theorem top?_of_size_zero (none : pq.size queue = 0) : pq.top? queue = .none := by
  cases found : pq.top? queue with
  | none => rfl
  | some top =>
      have grows := pq.size_pop found
      omega

end

/-- The queue that keeps its elements in a sorted list. -/
def sorted (key : α → κ) : PriorityQueue α key where
  Queue := { elements : List α // elements.Pairwise fun first later => key first ≤ key later }
  contents queue := queue.1
  empty := ⟨[], .nil⟩
  push queue element :=
    ⟨queue.1.orderedInsert (fun first later => key first ≤ key later) element, by
      have : Std.Total fun first later : α => key first ≤ key later := ⟨fun _ _ => le_total _ _⟩
      have : IsTrans α fun first later => key first ≤ key later := ⟨fun _ _ _ => le_trans⟩
      exact queue.2.orderedInsert element queue.1⟩
  top? queue := queue.1.head?
  pop queue := ⟨queue.1.tail, queue.2.tail⟩
  size queue := queue.1.length
  contents_empty := rfl
  contents_push queue element := Multiset.coe_eq_coe.mpr (List.perm_orderedInsert _ _ _)
  contents_pop {queue element} found := by
    obtain ⟨rest, shape⟩ := List.head?_eq_some_iff.mp found
    simp [shape]
  contents_none {queue} none := by simpa using none
  top?_least {queue element} found other member := by
    obtain ⟨rest, shape⟩ := List.head?_eq_some_iff.mp found
    have sorted := queue.2
    rw [shape] at sorted
    rcases List.mem_cons.mp (shape ▸ member) with same | later
    · exact le_of_eq (congrArg key same.symm)
    · exact (List.pairwise_cons.mp sorted).1 other later
  size_eq queue := rfl

end PriorityQueue

end LiteWebServer.Data
