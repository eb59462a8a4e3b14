import LiteWebServer.ConnLoop.Model

namespace LiteWebServer

open Data

namespace ConnLoop

/-! What one step of a loop or of its callers can do, with the tests that lead there. -/

variable {κ : Type} {pq : PriorityQueue TimerNode TimerNode.expire} {newConn : Int → κ}

/-- The `emplace` of the loop over the events. -/
def emplaceConn (loop : ConnLoop κ pq) (newConn : Int → κ) (fd : Int) : ConnLoop κ pq :=
  { loop with conns := UnorderedMap.emplace loop.conns fd (newConn fd) }

/-- The connection whose method is called. -/
def connOf (loop : ConnLoop κ pq) (newConn : Int → κ) (fd : Int) : κ :=
  ((loop.emplaceConn newConn fd).conns.lookup fd).getD (newConn fd)

inductive LoopStep (newConn : Int → κ) (loop : ConnLoop κ pq) (choice : LoopChoice) :
    ConnLoop κ pq → LoopNote κ → Prop where
  | wait (here : loop.pc = .waiting) (reportable : loop.Reportable choice.events) :
      LoopStep newConn loop choice
        { loop with
          edge := loop.edge && !(ReadyEvent.cmd ∈ choice.events : Bool),
          pc := .going (.events choice.events) } .quiet
  | command {rest} (here : loop.pc = .going (.events (.cmd :: rest))) :
      LoopStep newConn loop choice { loop with pc := .reading rest } .quiet
  | hangup {fd flags rest} (here : loop.pc = .going (.events (.sock fd flags :: rest)))
      (gone : flags.hangup = true) :
      LoopStep newConn loop choice (loop.handleConnClose fd (.events rest)) .quiet
  | serve {fd flags rest} (here : loop.pc = .going (.events (.sock fd flags :: rest)))
      (goes : choice.call ≠ .connClose) :
      LoopStep newConn loop choice
        { ((loop.emplaceConn newConn fd).addTimer fd choice.now).addTimer fd choice.later with
          pc := .going (.events rest) } (.dispatched fd (loop.connOf newConn fd))
  | drop {fd flags rest} (here : loop.pc = .going (.events (.sock fd flags :: rest)))
      (closes : choice.call = .connClose) :
      LoopStep newConn loop choice
        (((loop.emplaceConn newConn fd).addTimer fd choice.now).handleConnClose fd (.events rest))
        (.dispatched fd (loop.connOf newConn fd))
  | ignore {fd flags rest} (here : loop.pc = .going (.events (.sock fd flags :: rest)))
      (calm : flags.hangup = false) :
      LoopStep newConn loop choice { loop.emplaceConn newConn fd with pc := .going (.events rest) } .quiet
  | expire (here : loop.pc = .going (.events [])) :
      LoopStep newConn loop choice
        { loop with
          timerMgr := (loop.timerMgr.handleExpiredTimers choice.now []).1,
          pc := .going (.expired (loop.timerMgr.handleExpiredTimers choice.now []).2) } .quiet
  | dropExpired {fd rest} (here : loop.pc = .going (.expired (fd :: rest))) :
      LoopStep newConn loop choice (loop.handleConnClose fd (.expired rest)) .quiet
  | again (here : loop.pc = .going (.expired [])) :
      LoopStep newConn loop choice { loop with pc := .waiting } .quiet
  | drained {rest} (here : loop.pc = .reading rest) (empty : loop.cmdSockpair = []) :
      LoopStep newConn loop choice { loop with pc := .going (.events rest) } .quiet
  | read {rest} (here : loop.pc = .reading rest) :
      LoopStep newConn loop choice
        { loop with
          cmdSockpair := loop.cmdSockpair.drop choice.count,
          pc := .handling (loop.cmdSockpair.take choice.count) false rest } .quiet
  | handled {cmdRecvAddFd rest} (here : loop.pc = .handling [] cmdRecvAddFd rest) :
      LoopStep newConn loop choice { loop with pc := .reading rest } .quiet
  | stop {cmds cmdRecvAddFd rest} (here : loop.pc = .handling (.close :: cmds) cmdRecvAddFd rest) :
      LoopStep newConn loop choice { loop with pc := .stopped } .quiet
  | swap {cmds rest} (here : loop.pc = .handling (.addFd :: cmds) false rest) :
      LoopStep newConn loop choice
        { loop with newCliSocks := [], pc := .adding loop.newCliSocks cmds rest } .quiet
  | skip {cmd cmds cmdRecvAddFd rest} (here : loop.pc = .handling (cmd :: cmds) cmdRecvAddFd rest)
      (idle : cmd = .unknown ∨ cmdRecvAddFd = true) :
      LoopStep newConn loop choice { loop with pc := .handling cmds cmdRecvAddFd rest } .quiet
  | register {fd socks cmds rest} (here : loop.pc = .adding (fd :: socks) cmds rest) :
      LoopStep newConn loop choice
        { loop.addTimer fd choice.now with
          epoll := loop.epollAdd fd, pc := .adding socks cmds rest } (.registered fd)
  | registered {cmds rest} (here : loop.pc = .adding [] cmds rest) :
      LoopStep newConn loop choice { loop with pc := .handling cmds true rest } .quiet
  | close {fd todo} (here : loop.pc = .closing fd todo) :
      LoopStep newConn loop choice { loop with pc := .going todo } (.closed fd)

inductive CallerStep (loop : ConnLoop κ pq) : ConnLoop κ pq → LoopNote κ → Prop where
  | push {fd} : CallerStep loop (loop.addClisockToQueue fd) (.pushed fd)
  | write (owes : loop.owed ≠ 0) :
      CallerStep loop { loop.cmdSend .addFd with owed := loop.owed - 1 } .quiet
  | send {cmd} : CallerStep loop (loop.cmdSend cmd) .quiet

variable {loop after : ConnLoop κ pq} {choice : LoopChoice} {note : LoopNote κ} {fd : Int}
  {rest : List ReadyEvent}

theorem handleConn_step {flags : ReadyFlags}
    (here : loop.pc = .going (.events (.sock fd flags :: rest))) :
    LoopStep newConn loop choice ((loop.emplaceConn newConn fd).handleConn fd rest choice)
      (.dispatched fd (loop.connOf newConn fd)) := by
  cases called : choice.call with
  | modConnEventRead =>
      have step : LoopStep newConn loop choice _ _ := .serve here (by rw [called]; nofun)
      simpa only [handleConn, called] using step
  | modConnEventWrite =>
      have step : LoopStep newConn loop choice _ _ := .serve here (by rw [called]; nofun)
      simpa only [handleConn, called] using step
  | connClose =>
      have step : LoopStep newConn loop choice _ _ := .drop here called
      simpa only [handleConn, called] using step

theorem handleEvent_step {flags : ReadyFlags}
    (here : loop.pc = .going (.events (.sock fd flags :: rest))) :
    LoopStep newConn loop choice (loop.handleEvent newConn fd flags rest choice).1
      (loop.handleEvent newConn fd flags rest choice).2 := by
  have reached : LoopStep newConn loop choice _ _ := handleConn_step here
  unfold handleEvent
  split
  · rename_i gone
    exact .hangup here gone
  · rename_i calm
    dsimp only
    split
    · exact reached
    · split
      · exact reached
      · exact .ignore here (Bool.eq_false_iff.mpr calm)

theorem cmdRead_step (here : loop.pc = .reading rest) (read : loop.cmdRead rest choice.count = some after) :
    LoopStep newConn loop choice after .quiet := by
  unfold cmdRead at read
  split at read
  · rename_i empty
    cases read
    exact .drained here empty
  · split at read
    · cases read
      exact .read here
    · cases read

theorem cmdHandle_step {cmds : List ConnLoopCmd} {cmdRecvAddFd : Bool}
    (here : loop.pc = .handling cmds cmdRecvAddFd rest) :
    LoopStep newConn loop choice (loop.cmdHandle cmds cmdRecvAddFd rest) .quiet := by
  cases cmds with
  | nil => exact .handled here
  | cons cmd cmds =>
      cases cmd with
      | close => exact .stop here
      | unknown => exact .skip here (.inl rfl)
      | addFd =>
          cases cmdRecvAddFd with
          | false => exact .swap here
          | true => exact .skip here (.inr rfl)

theorem loopStep_step (stepped : loop.loopStep newConn choice = some (after, note)) :
    LoopStep newConn loop choice after note := by
  unfold loopStep at stepped
  split at stepped
  · rename_i here
    obtain ⟨next, waited, same⟩ := Option.map_eq_some_iff.mp stepped
    cases same
    unfold epollWait at waited
    split at waited
    · rename_i reportable
      cases waited
      exact .wait here reportable
    · cases waited
  · rename_i rest here
    cases stepped
    exact .command here
  · rename_i fd flags rest here
    have step : LoopStep newConn loop choice _ _ := handleEvent_step here
    rwa [Option.some.inj stepped] at step
  · rename_i here
    cases stepped
    exact .expire here
  · rename_i fd rest here
    cases stepped
    exact .dropExpired here
  · rename_i here
    cases stepped
    exact .again here
  · rename_i rest here
    obtain ⟨next, read, same⟩ := Option.map_eq_some_iff.mp stepped
    cases same
    exact cmdRead_step here read
  · rename_i cmds cmdRecvAddFd rest here
    cases stepped
    exact cmdHandle_step here
  · rename_i socks cmds rest here
    cases socks with
    | nil =>
        cases stepped
        exact .registered here
    | cons fd socks =>
        cases stepped
        exact .register here
  · rename_i fd todo here
    cases stepped
    exact .close here
  · cases stepped

theorem cmdSendAddFd_step (sent : loop.cmdSendAddFd = some after) : CallerStep loop after .quiet := by
  unfold cmdSendAddFd at sent
  split at sent
  · cases sent
  · rename_i owes
    cases sent
    exact .write owes

theorem next_step {turn : LoopTurn} (stepped : next newConn loop turn = some (after, note)) :
    CallerStep loop after note ∨ ∃ choice, turn = .loop choice ∧ LoopStep newConn loop choice after note := by
  cases turn with
  | addClisockToQueue fd =>
      cases stepped
      exact .inl .push
  | cmdSendAddFd =>
      obtain ⟨next, sent, same⟩ := Option.map_eq_some_iff.mp stepped
      cases same
      exact .inl (cmdSendAddFd_step sent)
  | cmdSend cmd =>
      rw [next] at stepped
      split at stepped
      · cases stepped
      · cases stepped
        exact .inl .send
  | loop choice => exact .inr ⟨choice, rfl, loopStep_step stepped⟩

end ConnLoop

end LiteWebServer
