import LiteWebServer.ConnLoop.Handover
import Mathlib.Data.Prod.Lex
import Mathlib.Order.WellFounded

namespace LiteWebServer

open Data

/-! A loop that has been sent `CMD_CLOSE` has finitely many steps before it. -/

namespace LoopPc

/-- The commands that have been read and are still to be handled. -/
def cmdsLeft : LoopPc → List ConnLoopCmd
  | .handling cmds _ _ | .adding _ cmds _ => cmds
  | _ => []

end LoopPc

namespace ConnLoop

variable {κ : Type} {pq : PriorityQueue TimerNode TimerNode.expire} {newConn : Int → κ}
  {loop after : ConnLoop κ pq} {note : LoopNote κ} {choice : LoopChoice}

/-- `CMD_CLOSE` is on its way, or it has stopped the loop. -/
def CloseDue (loop : ConnLoop κ pq) : Prop :=
  loop.pc ≠ .stopped → .close ∈ loop.cmdSockpair ∨ .close ∈ loop.pc.cmdsLeft

/-- `epoll_wait` reports the command socket if its event is pending. -/
def Prompt (loop : ConnLoop κ pq) (choice : LoopChoice) : Prop :=
  loop.pc = .waiting → loop.edge = true → .cmd ∈ choice.events

/-- The bytes and sockets that the loop can still meet on its way through `cmd_recv`. -/
def cmdLoad (loop : ConnLoop κ pq) : Nat :=
  5 * (loop.cmdSockpair.length + loop.pc.cmdsLeft.length + loop.newCliSocks.length +
    loop.pc.swapLeft.length)

/-- The phase of the loop on its way to the stop, and a bound on its steps in the phase:
events without the command socket, expired sockets, `epoll_wait`, events with it, `cmd_recv`. -/
def closingRank (loop : ConnLoop κ pq) : ℕ ×ₗ ℕ :=
  match loop.pc with
  | .going (.events rest) => toLex (if .cmd ∈ rest then 2 else 5, 2 * rest.length)
  | .closing _ (.events rest) => toLex (if .cmd ∈ rest then 2 else 5, 2 * rest.length + 1)
  | .going (.expired rest) => toLex (4, 2 * rest.length)
  | .closing _ (.expired rest) => toLex (4, 2 * rest.length + 1)
  | .waiting => toLex (3, 0)
  | .reading _ => toLex (1, loop.cmdLoad + 2)
  | .handling cmds _ _ => toLex (1, loop.cmdLoad + (if cmds = [] then 3 else 1))
  | .adding _ _ _ => toLex (1, loop.cmdLoad + 4)
  | .stopped => toLex (0, 0)

theorem lower_phase {phase phase' count count' : Nat} (lower : phase < phase') :
    toLex (phase, count) < toLex (phase', count') :=
  Prod.Lex.toLex_lt_toLex.mpr (.inl lower)

theorem lower_count {phase count count' : Nat} (lower : count < count') :
    toLex (phase, count) < toLex (phase, count') :=
  Prod.Lex.toLex_lt_toLex.mpr (.inr ⟨rfl, lower⟩)

theorem stop_closeDue (loop : ConnLoop κ pq) : (loop.cmdSend .close).CloseDue :=
  fun _ => .inl (List.mem_append_right _ List.mem_cons_self)

theorem CloseDue.keep (due : loop.CloseDue) {old : LoopPc} (here : loop.pc = old)
    (pair : after.cmdSockpair = loop.cmdSockpair) (runs : old ≠ .stopped)
    (cmds : after.pc.cmdsLeft = old.cmdsLeft) : after.CloseDue := by
  intro _
  subst old
  rw [pair, cmds]
  exact due runs

/-- Outside a batch of commands it has not been read. -/
theorem CloseDue.unread (due : loop.CloseDue) {old : LoopPc} (here : loop.pc = old)
    (runs : old ≠ .stopped) (none : old.cmdsLeft = []) : .close ∈ loop.cmdSockpair := by
  subst old
  have sent := due runs
  rw [none] at sent
  exact sent.resolve_right List.not_mem_nil

theorem CloseDue.event (due : loop.CloseDue) {fd : Int} {flags : ReadyFlags}
    {rest : List ReadyEvent} (here : loop.pc = .going (.events (.sock fd flags :: rest)))
    (pair : after.cmdSockpair = loop.cmdSockpair)
    (pc : after.pc = .going (.events rest) ∨ after.pc = .closing fd (.events rest)) :
    after.CloseDue := by
  refine due.keep here pair nofun ?_
  rcases pc with pc | pc <;> rw [pc] <;> rfl

theorem CloseDue.cmdHandle (due : loop.CloseDue) {cmds : List ConnLoopCmd} {cmdRecvAddFd : Bool}
    {rest : List ReadyEvent} (here : loop.pc = .handling cmds cmdRecvAddFd rest) :
    (loop.cmdHandle cmds cmdRecvAddFd rest).CloseDue := by
  have sent := due (by simp [here])
  rw [here] at sent
  have behind {cmd : ConnLoopCmd} {later : List ConnLoopCmd} (shape : cmds = cmd :: later)
      (plain : cmd ≠ .close) : .close ∈ loop.cmdSockpair ∨ .close ∈ later := by
    subst shape
    exact sent.imp_right fun member => (List.mem_cons.mp member).resolve_left plain.symm
  intro runs
  cases cmds with
  | nil => exact .inl (sent.resolve_right List.not_mem_nil)
  | cons cmd cmds =>
      cases cmd with
      | close => exact absurd rfl runs
      | unknown => exact behind rfl (by simp)
      | addFd => cases cmdRecvAddFd <;> exact behind rfl (by simp)

/-- No step of the loop loses it. -/
theorem CloseDue.loopStep (due : loop.CloseDue)
    (stepped : loop.loopStep newConn choice = some (after, note)) : after.CloseDue := by
  have step := loopStep_step stepped
  cases step with
  | wait here | command here | expire here | dropExpired here | again here | close here
  | register here | registered here => exact due.keep here rfl (by simp) rfl
  | hangup here | drop here => exact due.event here rfl (.inr rfl)
  | serve here | ignore here => exact due.event here rfl (.inl rfl)
  | drained here empty =>
      have sent := due.unread here (by simp) rfl
      rw [empty] at sent
      cases sent
  | read here =>
      intro _
      have sent := due.unread here (by simp) rfl
      rw [← List.take_append_drop choice.count loop.cmdSockpair, List.mem_append] at sent
      exact sent.symm
  | handled here | stop here | swap here | skip here =>
      have kept := due.cmdHandle here
      simp only [ConnLoop.loopStep, here, Option.some.injEq, Prod.mk.injEq] at stepped
      rwa [stepped.1] at kept

theorem CloseDue.next (due : loop.CloseDue) {turn : LoopTurn}
    (stepped : next newConn loop turn = some (after, note)) : after.CloseDue := by
  rcases next_step stepped with step | ⟨choice, same, step⟩
  · cases step with
    | push => exact due
    | write | send => exact fun runs => (due runs).imp_left (List.mem_append_left _)
  · subst same
    exact due.loopStep stepped

/-! Each step behind it lowers the rank. -/

theorem event_lowers {fd : Int} {flags : ReadyFlags} {rest : List ReadyEvent}
    (here : loop.pc = .going (.events (.sock fd flags :: rest)))
    (pc : after.pc = .going (.events rest) ∨ after.pc = .closing fd (.events rest)) :
    after.closingRank < loop.closingRank := by
  have phase : (if ReadyEvent.cmd ∈ ReadyEvent.sock fd flags :: rest then 2 else 5) =
      if ReadyEvent.cmd ∈ rest then 2 else 5 := by simp
  rw [closingRank, closingRank, here]
  rcases pc with pc | pc
  · rw [pc]
    dsimp only
    rw [phase, List.length_cons]
    exact lower_count (by omega)
  · rw [pc]
    dsimp only
    rw [phase, List.length_cons]
    exact lower_count (by omega)

/-- A `read` takes some of the bytes on their way, which are not none. -/
theorem cmdRead_lowers {rest : List ReadyEvent} (here : loop.pc = .reading rest)
    (unread : loop.cmdSockpair ≠ []) (read : loop.cmdRead rest choice.count = some after) :
    after.closingRank < loop.closingRank := by
  unfold cmdRead at read
  rw [if_neg unread] at read
  split at read
  · rename_i bound
    cases read
    have within : choice.count ≤ loop.cmdSockpair.length := bound.2.trans (min_le_right _ _)
    have some : loop.cmdSockpair.take choice.count ≠ [] := by
      rw [ne_eq, List.take_eq_nil_iff, not_or]
      exact ⟨by omega, unread⟩
    rw [closingRank, closingRank, here]
    dsimp only
    rw [if_neg some]
    refine lower_count ?_
    simp only [cmdLoad, here, LoopPc.cmdsLeft, LoopPc.swapLeft, List.length_drop, List.length_take,
      List.length_nil]
    omega
  · cases read

theorem cmdHandle_lowers {cmds : List ConnLoopCmd} {cmdRecvAddFd : Bool} {rest : List ReadyEvent}
    (here : loop.pc = .handling cmds cmdRecvAddFd rest) :
    (loop.cmdHandle cmds cmdRecvAddFd rest).closingRank < loop.closingRank := by
  have rank : loop.closingRank = toLex (1, loop.cmdLoad + (if cmds = [] then 3 else 1)) := by
    rw [closingRank, here]
  have load : loop.cmdLoad = 5 * (loop.cmdSockpair.length + cmds.length + loop.newCliSocks.length) := by
    simp [cmdLoad, here, LoopPc.cmdsLeft, LoopPc.swapLeft]
  have skipped (cmd : ConnLoopCmd) (later : List ConnLoopCmd) (shape : cmds = cmd :: later) :
      closingRank { loop with pc := .handling later cmdRecvAddFd rest } < loop.closingRank := by
    subst shape
    rw [rank, load]
    refine lower_count ?_
    simp only [cmdLoad, LoopPc.cmdsLeft, LoopPc.swapLeft, List.length_cons, List.length_nil]
    split
    · simp
      omega
    · omega
  cases cmds with
  | nil =>
      rw [rank, load]
      exact lower_count (by simp [cmdHandle, cmdLoad, LoopPc.cmdsLeft, LoopPc.swapLeft])
  | cons cmd cmds =>
      cases cmd with
      | close =>
          rw [rank]
          exact lower_phase (by decide)
      | unknown => exact skipped _ _ rfl
      | addFd =>
          cases cmdRecvAddFd with
          | true => exact skipped _ _ rfl
          | false =>
              rw [rank, load]
              refine lower_count ?_
              simp only [cmdHandle, Bool.not_false, if_true, cmdLoad, LoopPc.cmdsLeft,
                LoopPc.swapLeft, List.length_cons, List.length_nil, reduceCtorEq, if_false]
              omega

theorem addClisockToEpoll_lowers {socks : List Int} {cmds : List ConnLoopCmd}
    {rest : List ReadyEvent} (here : loop.pc = .adding socks cmds rest) (now : TimePoint) :
    (loop.addClisockToEpoll socks cmds rest now).1.closingRank < loop.closingRank := by
  have rank : loop.closingRank = toLex (1, loop.cmdLoad + 4) := by rw [closingRank, here]
  have load : loop.cmdLoad =
      5 * (loop.cmdSockpair.length + cmds.length + loop.newCliSocks.length + socks.length) := by
    simp [cmdLoad, here, LoopPc.cmdsLeft, LoopPc.swapLeft]
  rw [rank, load]
  cases socks with
  | nil =>
      refine lower_count ?_
      simp only [addClisockToEpoll, cmdLoad, LoopPc.cmdsLeft, LoopPc.swapLeft, List.length_nil]
      split <;> omega
  | cons fd socks =>
      refine lower_count ?_
      simp only [addClisockToEpoll, addTimer, cmdLoad, LoopPc.cmdsLeft, LoopPc.swapLeft,
        List.length_cons]
      omega

/-- With bytes on their way every step of the loop leads it nearer to reading them. -/
theorem unread_lowers
    (unread : (loop.pc = .waiting ∨ ∃ rest, loop.pc = .reading rest) → loop.cmdSockpair ≠ [])
    (pending : loop.cmdSockpair ≠ [] → loop.edge = true ∨ loop.pc.WillRead)
    (prompt : loop.Prompt choice) (stepped : loop.loopStep newConn choice = some (after, note)) :
    after.closingRank < loop.closingRank := by
  have step := loopStep_step stepped
  cases step with
  | wait here reportable =>
      have edge := pending (unread (.inl here))
      rw [here] at edge
      have reported := prompt here (edge.resolve_right List.not_mem_nil)
      rw [closingRank, closingRank, here]
      dsimp only
      rw [if_pos reported]
      exact lower_phase (by decide)
  | command here =>
      rw [closingRank, closingRank, here]
      dsimp only
      rw [if_pos List.mem_cons_self]
      exact lower_phase (by decide)
  | hangup here | drop here => exact event_lowers here (.inr rfl)
  | serve here | ignore here => exact event_lowers here (.inl rfl)
  | expire here =>
      rw [closingRank, closingRank, here]
      dsimp only
      rw [if_neg List.not_mem_nil]
      exact lower_phase (by decide)
  | dropExpired here =>
      rw [closingRank, closingRank, here]
      refine lower_count ?_
      rw [List.length_cons]
      omega
  | again here =>
      rw [closingRank, closingRank, here]
      exact lower_phase (by decide)
  | @close fd todo here =>
      rw [closingRank, closingRank, here]
      cases todo <;> exact lower_count (Nat.lt_succ_self _)
  | drained here empty => exact absurd empty (unread (.inr ⟨_, here⟩))
  | read here =>
      simp only [ConnLoop.loopStep, here, Option.map_eq_some_iff, Prod.mk.injEq] at stepped
      obtain ⟨next, read, same, -⟩ := stepped
      rw [← same]
      exact cmdRead_lowers here (unread (.inr ⟨_, here⟩)) read
  | handled here | stop here | swap here | skip here =>
      have lower := cmdHandle_lowers here
      simp only [ConnLoop.loopStep, here, Option.some.injEq, Prod.mk.injEq] at stepped
      rwa [stepped.1] at lower
  | register here | registered here =>
      have lower := addClisockToEpoll_lowers here choice.now
      simp only [ConnLoop.loopStep, here, Option.some.injEq] at stepped
      rwa [stepped] at lower

/-- Every step of a loop that is to stop leads it there. -/
theorem CloseDue.lowers (due : loop.CloseDue)
    (pending : loop.cmdSockpair ≠ [] → loop.edge = true ∨ loop.pc.WillRead)
    (prompt : loop.Prompt choice) (stepped : loop.loopStep newConn choice = some (after, note)) :
    after.closingRank < loop.closingRank := by
  refine unread_lowers (fun awaits => ?_) pending prompt stepped
  rcases awaits with here | ⟨rest, here⟩
  · exact List.ne_nil_of_mem (due.unread here (by simp) rfl)
  · exact List.ne_nil_of_mem (due.unread here (by simp) rfl)

/-! A loop that is not to stop. -/

/-- No `CMD_CLOSE` was sent to the loop. -/
structure Going (loop : ConnLoop κ pq) : Prop where
  runs : loop.pc ≠ .stopped
  unsent : .close ∉ loop.cmdSockpair
  unread : .close ∉ loop.pc.cmdsLeft

theorem fresh_going : (fresh κ pq).Going := ⟨nofun, nofun, nofun⟩

theorem Going.pushed (going : loop.Going) (fd : Int) : (loop.addClisockToQueue fd).Going :=
  ⟨going.runs, going.unsent, going.unread⟩

theorem Going.written (going : loop.Going) (wrote : loop.cmdSendAddFd = some after) : after.Going := by
  unfold cmdSendAddFd at wrote
  split at wrote
  · cases wrote
  · cases wrote
    refine ⟨going.runs, fun member => ?_, going.unread⟩
    exact (List.mem_append.mp member).elim going.unsent (by simp)

theorem Going.loopStep (going : loop.Going)
    (stepped : loop.loopStep newConn choice = some (after, note)) : after.Going := by
  have left := going.unread
  cases loopStep_step stepped with
  | read here =>
      exact ⟨nofun, fun member => going.unsent (List.mem_of_mem_drop member),
        fun member => going.unsent (List.mem_of_mem_take member)⟩
  | stop here =>
      rw [here] at left
      exact absurd List.mem_cons_self left
  | swap here | skip here =>
      rw [here] at left
      exact ⟨nofun, going.unsent, fun member => left (List.mem_cons_of_mem _ member)⟩
  | register here | registered here =>
      rw [here] at left
      exact ⟨nofun, going.unsent, left⟩
  | _ => exact ⟨nofun, going.unsent, nofun⟩

/-- A loop that has not stopped can always move, and `epoll_wait` need not hold anything back. -/
theorem exists_prompt (newConn : Int → κ) (runs : loop.pc ≠ .stopped) :
    ∃ choice, loop.Prompt choice ∧ (loop.loopStep newConn choice).isSome := by
  let choice (events : List ReadyEvent) : LoopChoice := ⟨events, 1, 0, 0, .connClose⟩
  have idle (here : loop.pc ≠ .waiting) : loop.Prompt (choice []) := fun waits => absurd waits here
  cases here : loop.pc with
  | waiting =>
      by_cases edge : loop.edge = true
      · refine ⟨choice [.cmd], fun _ _ => List.mem_cons_self, ?_⟩
        have reportable : loop.Reportable [.cmd] :=
          ⟨List.nodup_singleton _, fun event member => by
            rw [List.mem_singleton.mp member]; exact edge⟩
        simp [ConnLoop.loopStep, here, epollWait, choice, reportable]
      · refine ⟨choice [], fun _ set => absurd set edge, ?_⟩
        have reportable : loop.Reportable [] := ⟨List.nodup_nil, nofun⟩
        simp [ConnLoop.loopStep, here, epollWait, choice, reportable]
  | reading rest =>
      refine ⟨choice [], idle (by simp [here]), ?_⟩
      by_cases empty : loop.cmdSockpair = []
      · simp [ConnLoop.loopStep, here, cmdRead, empty]
      · have some : 1 ≤ loop.cmdSockpair.length := List.length_pos_iff.mpr empty
        simp [ConnLoop.loopStep, here, cmdRead, empty, choice, some, defCmdBuffLen]
  | going todo =>
      refine ⟨choice [], idle (by simp [here]), ?_⟩
      cases todo with
      | events rest =>
          cases rest with
          | nil => simp [ConnLoop.loopStep, here]
          | cons event rest => cases event <;> simp [ConnLoop.loopStep, here]
      | expired rest => cases rest <;> simp [ConnLoop.loopStep, here]
  | handling cmds cmdRecvAddFd rest =>
      exact ⟨choice [], idle (by simp [here]), by simp [ConnLoop.loopStep, here]⟩
  | adding socks cmds rest => exact ⟨choice [], idle (by simp [here]), by simp [ConnLoop.loopStep, here]⟩
  | closing fd todo => exact ⟨choice [], idle (by simp [here]), by simp [ConnLoop.loopStep, here]⟩
  | stopped => exact absurd here runs

end ConnLoop

end LiteWebServer
