import Mathlib.Data.List.Infix
import Mathlib.Data.Option.Basic

namespace LiteWebServer.Data

/-! Streams of messages that end by themselves.  A reader takes one message off the front, or
nothing while the message is unfinished. -/

/-- What comes behind a message does not change what is read of it, and nothing is read of
nothing. -/
structure SelfEnding (read : List α → Option (μ × List α)) : Prop where
  empty : read [] = none
  onward : ∀ {text message rest}, read text = some (message, rest) →
    ∀ more, read (text ++ more) = some (message, rest ++ more)

def readMany (read : List α → Option (μ × List α)) : Nat → List α → Option (List μ × List α)
  | 0, text => some ([], text)
  | count + 1, text => do
      let (message, rest) ← read text
      let (messages, rest) ← readMany read count rest
      return (message :: messages, rest)

/-- The text is read as the message, whatever comes behind it. -/
def Writes (read : List α → Option (μ × List α)) (text : List α) (message : μ) : Prop :=
  ∀ rest, read (text ++ rest) = some (message, rest)

variable {read : List α → Option (μ × List α)} {text rest : List α} {messages : List μ}

theorem readMany_succ {count : Nat} :
    readMany read (count + 1) text = some (messages, rest) ↔
      ∃ message between later, read text = some (message, between) ∧
        readMany read count between = some (later, rest) ∧ messages = message :: later := by
  constructor
  · intro ran
    obtain ⟨⟨message, between⟩, first, ran⟩ := Option.bind_eq_some_iff.mp ran
    obtain ⟨⟨later, last⟩, others, same⟩ := Option.bind_eq_some_iff.mp ran
    cases same
    exact ⟨message, between, later, first, others, rfl⟩
  · intro parts
    obtain ⟨message, between, later, first, others, rfl⟩ := parts
    simp [readMany, first, others, bind, pure]

/-- What was written one after the other is read back. -/
theorem readMany_written (written : List (List α × μ))
    (each : ∀ entry ∈ written, Writes read entry.1 entry.2) (rest : List α) :
    readMany read written.length ((written.flatMap Prod.fst) ++ rest) =
      some (written.map Prod.snd, rest) := by
  induction written with
  | nil => rfl
  | cons entry later ih =>
      rw [List.flatMap_cons, List.append_assoc]
      exact readMany_succ.mpr ⟨entry.2, _, _, each entry List.mem_cons_self _,
        ih fun entry member => each entry (List.mem_cons_of_mem _ member), rfl⟩

/-- Of a part of the stream only messages of the stream are read, in their order. -/
theorem SelfEnding.readMany_part (ending : SelfEnding read) {written : List (List α × μ)}
    (each : ∀ entry ∈ written, Writes read entry.1 entry.2) {part : List α}
    (isPart : part <+: written.flatMap Prod.fst) {count : Nat}
    (ran : readMany read count part = some (messages, rest)) :
    count ≤ written.length ∧ messages = (written.map Prod.snd).take count := by
  induction count generalizing written part messages with
  | zero =>
      cases ran
      exact ⟨Nat.zero_le _, rfl⟩
  | succ count ih =>
      obtain ⟨message, between, later, first, others, rfl⟩ := readMany_succ.mp ran
      obtain ⟨more, whole⟩ := isPart
      cases written with
      | nil =>
          obtain ⟨empty, -⟩ := List.append_eq_nil_iff.mp whole
          rw [empty, ending.empty] at first
          cases first
      | cons entry others' =>
          have extended := ending.onward first more
          rw [whole, List.flatMap_cons, each entry List.mem_cons_self] at extended
          obtain ⟨rfl, behind⟩ := Prod.mk.inj (Option.some.inj extended)
          obtain ⟨bound, rfl⟩ := ih (fun entry member => each entry (List.mem_cons_of_mem _ member))
            ⟨more, behind.symm⟩ others
          exact ⟨Nat.succ_le_succ bound, rfl⟩

end LiteWebServer.Data
