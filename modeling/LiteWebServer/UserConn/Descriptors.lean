import LiteWebServer.Data.Ledger
import LiteWebServer.UserConn.Phases

namespace LiteWebServer

open Data

/-! The descriptor of the file that a connection sends: where it is opened, how long it is
kept, and the four places that close it. -/

/-- What the system answers during one call of `process_out`.  As in `OutAnswers`, with the
descriptor that `open` returns. -/
structure FdAnswers where
  opens : Bytes → Except Errno (Nat × OpenFile × Int)
  sends : List Nat
  behind : Bytes → Nat → UInt8

def FdAnswers.answers (answers : FdAnswers) : OutAnswers where
  opens name := (answers.opens name).map Prod.snd
  sends := answers.sends
  behind := answers.behind

namespace UserConn

variable {conn after : UserConn} {errno errno' : Errno} {offer : Bytes} {behind : Bytes → Nat → UInt8}

theorem closeFileFd_fileFd : conn.closeFileFd.fileFd = none := by
  unfold closeFileFd
  split
  · rfl
  · rename_i open_
    exact not_not.mp open_

theorem closeFileFd_none (closed : conn.fileFd = none) : conn.closeFileFd = conn :=
  if_neg (not_not.mpr closed)

theorem processIn_fileFd {call : LoopCall}
    (ran : conn.processIn errno offer = .ok (after, call, errno')) : after.fileFd = conn.fileFd := by
  obtain ⟨bufferR, bufferRBytes, req, reqParsedBytes, rfl⟩ := processIn_frame ran
  rfl

theorem sendBaseRspBy_fileFd (sends : List Nat) (conn : UserConn) :
    (conn.sendBaseRspBy (.wrapping behind) sends).1.fileFd = conn.fileFd := by
  obtain ⟨rsp, baseRspSnd, rspBaseSndBytes, same⟩ := @sendBaseRspBy_frame behind sends conn
  rw [same]

theorem sendBinBodyBy_fileFd (sends : List Nat) (conn : UserConn) :
    (conn.sendBinBodyBy (.wrapping behind) sends).1.fileFd = conn.fileFd := by
  obtain ⟨bodySnd, rspBodySndBytes, same⟩ := @sendBinBodyBy_frame behind sends conn
  rw [same]

end UserConn

/-- A connection with the number in `file_fd_`, none for `-1`. -/
structure FdConn where
  conn : UserConn
  fileFd : Option Nat
  held : fileFd.isSome = conn.fileFd.isSome

namespace FdConn

/-! `open` and `close` in the order in which `process_out` and the destructor call them. -/

def setConn (fdConn : FdConn) (conn : UserConn) (same : conn.fileFd = fdConn.conn.fileFd) : FdConn where
  conn := conn
  fileFd := fdConn.fileFd
  held := same ▸ fdConn.held

def fresh (order : HashOrder Bytes Bytes) : FdConn where
  conn := .fresh order
  fileFd := none
  held := rfl

def closeFileFd (fdConn : FdConn) : FdConn × List (Use Nat) :=
  match fdConn.fileFd with
  | some fd =>
      ({ conn := fdConn.conn.closeFileFd, fileFd := none,
         held := by rw [UserConn.closeFileFd_fileFd]; rfl }, [.released fd])
  | none => (fdConn, [])

def connStateReset (order : HashOrder Bytes Bytes) (fdConn : FdConn) : FdConn × List (Use Nat) :=
  let conn := fdConn.conn
  closeFileFd <| fdConn.setConn
    { conn with
      bufferRBytes := 0, req := conn.req.reset, reqParsedBytes := 0, rsp := conn.rsp.reset order,
      baseRspSnd := false, bodySnd := false, rspBaseSndBytes := 0, rspBodySndBytes := 0 } rfl

def processIn (errno : Errno) (fdConn : FdConn) (offer : Bytes) : Except Fault FdConn :=
  match ran : fdConn.conn.processIn errno offer with
  | .ok (conn, _, _) => .ok (fdConn.setConn conn (UserConn.processIn_fileFd ran))
  | .error fault => .error fault

section

variable (order : HashOrder Bytes Bytes) (server : Server)

def setRsp (fdConn : FdConn) (rsp : HttpResponse) : FdConn :=
  fdConn.setConn { fdConn.conn with rsp } rfl

/-- The part of `process_out` that opens the file of the response. -/
def openBody (fdConn : FdConn) (answers : FdAnswers) : FdConn × List (Use Nat) :=
  if fdConn.conn.rsp.bodyIsFile ∧ fdConn.fileFd = none then
    match answers.opens (cStr (combineTwoPath server.docRoot fdConn.conn.rsp.body)) with
    | .ok (fd, file, size) =>
        let fdConn : FdConn := ⟨{ fdConn.conn with fileFd := some file }, some fd, rfl⟩
        if file.isDir then
          let (fdConn, calls) := fdConn.closeFileFd
          (fdConn.setRsp (server.errHandler .movedPermanently movedPermanently_answered fdConn.conn.req),
            .taken fd :: calls)
        else
          let conn := fdConn.conn
          (fdConn.setConn
            { conn with
                fileSize := size.toNat,
                rsp := conn.rsp.headerOper order .modify (bytes "Content-Length") (decimalOff size) }
            rfl, [.taken fd])
    | .error errno =>
        if errno = .enoent then
          (fdConn.setRsp (server.errHandler .notFound notFound_answered fdConn.conn.req), [])
        else
          (fdConn.setRsp
            (server.errHandler .internalServerError internalServerError_answered fdConn.conn.req), [])
  else (fdConn, [])

end

/-- The loop of `send_body` for a file. -/
def sendFileBody (fdConn : FdConn) : List Nat → FdConn × List (Use Nat)
  | [] =>
      if fdConn.conn.fileSize ≤ fdConn.conn.rspBodySndBytes then
        (fdConn.setConn { fdConn.conn with bodySnd := true } rfl).closeFileFd
      else (fdConn, [])
  | accepted :: sends =>
      let conn := fdConn.conn
      if conn.fileSize ≤ conn.rspBodySndBytes then
        (fdConn.setConn { conn with bodySnd := true } rfl).closeFileFd
      else
        let sendBytes := min (conn.fileSize - conn.rspBodySndBytes) UserConn.httpFileChunkSize
        let chunk := conn.fileChunk (min accepted sendBytes)
        if chunk = [] then (fdConn, [])
        else
          sendFileBody
            (fdConn.setConn { conn with rspBodySndBytes := conn.rspBodySndBytes + chunk.length } rfl) sends

section

variable (behind : Bytes → Nat → UInt8)

def sendBaseRsp (fdConn : FdConn) (sends : List Nat) : FdConn × List Nat :=
  let (_, _, rest) := (fdConn.conn.sendBaseRspBy (.wrapping behind) sends).run
  (fdConn.setConn (fdConn.conn.sendBaseRspBy (.wrapping behind) sends).1
    (UserConn.sendBaseRspBy_fileFd _ _), rest)

def sendBody (fdConn : FdConn) (sends : List Nat) : FdConn × List (Use Nat) :=
  if fdConn.conn.rsp.bodyIsFile then fdConn.sendFileBody sends
  else
    (fdConn.setConn (fdConn.conn.sendBinBodyBy (.wrapping behind) sends).1
      (UserConn.sendBinBodyBy_fileFd _ _), [])

def sendToCli (fdConn : FdConn) (sends : List Nat) : FdConn × List (Use Nat) × Bool :=
  let (fdConn, sends) :=
    if !fdConn.conn.baseRspSnd then fdConn.sendBaseRsp behind sends else (fdConn, sends)
  let (fdConn, calls) :=
    if fdConn.conn.baseRspSnd && !fdConn.conn.bodySnd then fdConn.sendBody behind sends else (fdConn, [])
  (fdConn, calls, fdConn.conn.baseRspSnd && fdConn.conn.bodySnd)

end

def processOut (order : HashOrder Bytes Bytes) (server : Server) (fdConn : FdConn) (answers : FdAnswers) :
    FdConn × List (Use Nat) :=
  let (fdConn, opening) :=
    (fdConn.setRsp (UserConn.routePath order server fdConn.conn.req)).openBody order server answers
  let (fdConn, sending, finished) := fdConn.sendToCli answers.behind answers.sends
  if finished && UserConn.keepAlive fdConn.conn.req then
    let (fdConn, resetting) := fdConn.connStateReset order
    (fdConn, opening ++ sending ++ resetting)
  else (fdConn, opening ++ sending)

/-! ## Every part accounts for the descriptor -/

/-- The calls account for what becomes of `file_fd_`, and the connection is what the part
leaves without the number. -/
structure Does (before : Option Nat) (ran : FdConn × List (Use Nat)) (conn : UserConn) : Prop where
  uses : Ledger before ran.2 ran.1.fileFd
  conn : ran.1.conn = conn

variable {order : HashOrder Bytes Bytes} {server : Server} {fdConn : FdConn}

theorem setRsp_conn (rsp : HttpResponse) : (fdConn.setRsp rsp).conn = { fdConn.conn with rsp } := rfl

theorem fileFd_none_iff : fdConn.fileFd = none ↔ fdConn.conn.fileFd = none := by
  rw [← Option.isSome_eq_false_iff.trans Option.isNone_iff_eq_none, fdConn.held,
    Option.isSome_eq_false_iff, Option.isNone_iff_eq_none]

theorem closeFileFd_does :
    Does fdConn.fileFd fdConn.closeFileFd fdConn.conn.closeFileFd ∧ fdConn.closeFileFd.1.fileFd = none := by
  unfold closeFileFd
  split
  · rename_i fd number
    refine ⟨⟨?_, rfl⟩, rfl⟩
    rw [number]
    exact .released .nil
  · rename_i number
    exact ⟨⟨.nil, (UserConn.closeFileFd_none (fileFd_none_iff.mp number)).symm⟩, number⟩

theorem openBody_does (answers : FdAnswers) :
    Does fdConn.fileFd (fdConn.openBody order server answers)
      (fdConn.conn.openBodyAny order server answers.answers) := by
  unfold openBody UserConn.openBodyAny
  simp only [fileFd_none_iff]
  split
  · rename_i due
    have number := fileFd_none_iff.mpr due.2
    unfold FdAnswers.answers
    dsimp only
    cases answers.opens (cStr (combineTwoPath server.docRoot fdConn.conn.rsp.body)) with
    | ok opened =>
        obtain ⟨fd, file, size⟩ := opened
        dsimp only [Except.map]
        split
        · obtain ⟨closes, closed⟩ :=
            @closeFileFd_does ⟨{ fdConn.conn with fileFd := some file }, some fd, rfl⟩
          refine ⟨?_, ?_⟩
          · rw [number]
            exact .taken closes.uses
          · rw [setRsp_conn, closes.conn]
        · refine ⟨?_, rfl⟩
          rw [number]
          exact .taken .nil
    | error errno =>
        dsimp only [Except.map]
        split <;> exact ⟨.nil, rfl⟩
  · exact ⟨.nil, rfl⟩

theorem sendFileBody_does (sends : List Nat) (fdConn : FdConn) :
    Does fdConn.fileFd (fdConn.sendFileBody sends) (fdConn.conn.sendFileBody sends).1 := by
  have closes (fdConn : FdConn) :
      Does fdConn.fileFd (fdConn.setConn { fdConn.conn with bodySnd := true } rfl).closeFileFd
        { fdConn.conn with bodySnd := true }.closeFileFd :=
    (@closeFileFd_does (fdConn.setConn { fdConn.conn with bodySnd := true } rfl)).1
  induction sends generalizing fdConn with
  | nil =>
      unfold sendFileBody UserConn.sendFileBody
      split
      · exact closes fdConn
      · exact ⟨.nil, rfl⟩
  | cons accepted sends ih =>
      unfold sendFileBody UserConn.sendFileBody
      dsimp only
      generalize fdConn.conn.fileChunk _ = chunk
      split
      · exact closes fdConn
      · split
        · exact ⟨.nil, rfl⟩
        · exact ih (fdConn.setConn
            { fdConn.conn with rspBodySndBytes := fdConn.conn.rspBodySndBytes + chunk.length } rfl)

theorem sendBody_does (behind : Bytes → Nat → UInt8) (sends : List Nat) :
    Does fdConn.fileFd (fdConn.sendBody behind sends)
      (fdConn.conn.sendBodyBy (.wrapping behind) sends).1 := by
  unfold sendBody UserConn.sendBodyBy
  split
  · exact sendFileBody_does sends fdConn
  · exact ⟨.nil, rfl⟩

theorem sendToCli_does (answers : OutAnswers) :
    Does fdConn.fileFd ((fdConn.sendToCli answers.behind answers.sends).1,
        (fdConn.sendToCli answers.behind answers.sends).2.1) (fdConn.conn.sendToCliAny answers).1 ∧
      (fdConn.sendToCli answers.behind answers.sends).2.2 = (fdConn.conn.sendToCliAny answers).2.2 := by
  obtain ⟨-, sends, behind⟩ := answers
  have body (fdConn : FdConn) (sends : List Nat) :
      Does fdConn.fileFd
        (if fdConn.conn.baseRspSnd && !fdConn.conn.bodySnd then fdConn.sendBody behind sends
          else (fdConn, []))
        (fdConn.conn.sendBodyIfDueBy (.wrapping behind) sends).1 := by
    unfold UserConn.sendBodyIfDueBy
    split
    · exact sendBody_does behind sends
    · exact ⟨.nil, rfl⟩
  unfold sendToCli UserConn.sendToCliAny UserConn.sendToCliBy UserConn.sendHeadIfDueBy
  dsimp only [bind, pure, Id.run]
  split
  · have sent := body (fdConn.sendBaseRsp behind sends).1 (fdConn.sendBaseRsp behind sends).2
    exact ⟨⟨sent.uses, sent.conn⟩, by rw [sent.conn]; rfl⟩
  · have sent := body fdConn sends
    exact ⟨⟨sent.uses, sent.conn⟩, by rw [sent.conn]⟩

theorem connStateReset_does :
    Does fdConn.fileFd (fdConn.connStateReset order) (fdConn.conn.connStateReset order) := by
  have closes := (@closeFileFd_does (fdConn.setConn
    { fdConn.conn with
      bufferRBytes := 0, req := fdConn.conn.req.reset, reqParsedBytes := 0,
      rsp := fdConn.conn.rsp.reset order, baseRspSnd := false, bodySnd := false, rspBaseSndBytes := 0,
      rspBodySndBytes := 0 } rfl)).1
  exact ⟨closes.uses, closes.conn⟩

/-- `process_out` with the number does what it does without, under any answers. -/
theorem processOut_does (answers : FdAnswers) :
    Does fdConn.fileFd (fdConn.processOut order server answers)
      (fdConn.conn.processOutAny order server answers.answers).conn := by
  have opens := @openBody_does order server
    (fdConn.setRsp (UserConn.routePath order server fdConn.conn.req)) answers
  obtain ⟨after, sends', input, did⟩ := UserConn.processOutAny_did answers.answers
    (rfl : fdConn.conn.processOutAny order server answers.answers = _)
  generalize fdConn.conn.processOutAny order server answers.answers = result at sends' did ⊢
  unfold processOut
  generalize openBody order server _ answers = opened at opens ⊢
  obtain ⟨middle, opening⟩ := opened
  obtain ⟨sends, ends⟩ : Does middle.fileFd ((middle.sendToCli answers.behind answers.sends).1,
        (middle.sendToCli answers.behind answers.sends).2.1)
        (middle.conn.sendToCliAny answers.answers).1 ∧
      (middle.sendToCli answers.behind answers.sends).2.2 =
        (middle.conn.sendToCliAny answers.answers).2.2 := sendToCli_does answers.answers
  have prepared : middle.conn = fdConn.conn.prepareAny order server answers.answers := opens.conn
  rw [prepared, sends'] at sends ends
  dsimp only
  generalize middle.sendToCli answers.behind answers.sends = sent at sends ends ⊢
  obtain ⟨last, sending, finished⟩ := sent
  have uses : Ledger fdConn.fileFd (opening ++ sending) last.fileFd := opens.uses.append sends.uses
  have left : last.conn = after := sends.conn
  have req : UserConn.keepAlive last.conn.req = UserConn.keepAlive fdConn.conn.req := by
    rw [left, input.req]
  dsimp only at ends ⊢
  rw [ends, req]
  rcases did with ⟨finished, same, -⟩ | ⟨finished, keep, same, -⟩ | ⟨finished, drop, same, -⟩
  · rw [finished, same]
    exact ⟨uses, left⟩
  · rw [finished, keep, same, ← left]
    have resets := @connStateReset_does order last
    exact ⟨uses.append resets.uses, resets.conn⟩
  · rw [finished, drop, same]
    exact ⟨uses, left⟩

end FdConn

/-- What happens to a connection: a call of a handler, with the tables as they answer in
this call, or its destructor. -/
inductive FdEvent where
  | processIn (errno : Errno) (offer : Bytes)
  | processOut (server : Server) (answers : FdAnswers)
  | destroy

namespace FdConn

variable (order : HashOrder Bytes Bytes)

/-- Behind the destructor there is no connection any more. -/
def next : Option FdConn → FdEvent → Option (Option FdConn × List (Use Nat))
  | none, _ => none
  | some fdConn, .processIn errno offer =>
      match fdConn.processIn errno offer with
      | .ok after => some (some after, [])
      | .error _ => none
  | some fdConn, .processOut server answers =>
      let (after, calls) := fdConn.processOut order server answers
      some (some after, calls)
  | some fdConn, .destroy => some (none, fdConn.closeFileFd.2)

/-- A connection in any order of calls, under any answers of the system and the tables. -/
def system : System (Option FdConn) (List (Use Nat)) :=
  .ofNext (fun state => state = some (fresh order)) (next order)

/-- The number in `file_fd_`, as long as there is one. -/
def fileFd? (state : Option FdConn) : Option Nat := state.bind FdConn.fileFd

variable {order}

theorem next_uses {state after : Option FdConn} {event : FdEvent} {calls : List (Use Nat)}
    (stepped : next order state event = some (after, calls)) :
    Ledger (fileFd? state) calls (fileFd? after) := by
  cases state with
  | none => cases stepped
  | some fdConn =>
      cases event with
      | processIn errno offer =>
          rw [next, processIn] at stepped
          split at stepped
          · rename_i ran
            split at ran
            · cases ran
              cases stepped
              exact .nil
            · cases ran
          · cases stepped
      | processOut server answers =>
          have does := @processOut_does order server fdConn answers
          cases stepped
          exact does.uses
      | destroy =>
          obtain ⟨closes, closed⟩ := @closeFileFd_does fdConn
          cases stepped
          have uses := closes.uses
          rw [closed] at uses
          exact uses

theorem uses_of_run {labels : List (List (Use Nat))} {state : Option FdConn}
    (run : (system order).Runs labels state) : Ledger none labels.flatten (fileFd? state) := by
  refine @System.Runs.invariant _ _ _ (fun labels state => Ledger none labels.flatten (fileFd? state))
    ?_ ?_ _ _ run
  · intro state started
    subst started
    exact .nil
  · intro labels before calls after uses step
    obtain ⟨event, stepped⟩ := step
    rw [List.flatten_append, List.flatten_singleton]
    exact uses.append (next_uses stepped)

/-- In every run as many descriptors are closed as were opened, but for the one in
`file_fd_`, and each close is of the one opened last and still open. -/
theorem descriptors_balanced {labels : List (List (Use Nat))} {state : Option FdConn}
    (run : (system order).Runs labels state) :
    (∀ fdConn, state = some fdConn →
      labels.flatten.countP Use.isTaken =
        labels.flatten.countP Use.isReleased + if fdConn.fileFd ≠ none then 1 else 0) ∧
      (state = none → labels.flatten.countP Use.isTaken = labels.flatten.countP Use.isReleased) ∧
      ∀ earlier fd later, labels.flatten = earlier ++ .released fd :: later → HeldLast earlier fd := by
  have uses := uses_of_run run
  have balance := uses.balance
  refine ⟨fun fdConn alive => ?_, fun dead => ?_, fun earlier fd later split => ?_⟩
  · subst alive
    change _ + 0 = _ + fdConn.fileFd.toList.length at balance
    rw [Nat.add_zero] at balance
    rw [balance]
    cases fdConn.fileFd <;> simp
  · subst dead
    exact balance
  · rw [split] at uses
    exact uses.released_last

/-- A file of two bytes of which one is sent, a second call that sends nothing, and the
destructor. -/
def partlySent : List FdEvent :=
  let server := Server.builtin (.front Bytes Bytes) (bytes "/www") fun _ => none
  let opens (fd : Nat) : Bytes → Except Errno (Nat × OpenFile × Int) := fun _ =>
    .ok (fd, ⟨false, bytes "hi"⟩, 2)
  [.processIn .clear (bytes "GET /a HTTP/1.1\r\n\r\n"), .processOut server ⟨opens 7, [1000, 1], fun _ _ => 0⟩,
    .processOut server ⟨opens 8, [], fun _ _ => 0⟩, .destroy]

theorem descriptors_balanced_partly_sent :
    ∃ labels, (system (.front Bytes Bytes)).Runs labels none ∧
      labels = [[], [.taken 7], [], [.released 7]] ∧ HeldLast [Use.taken 7] 7 := by
  have outcome : (System.follow (next (.front Bytes Bytes)) (some (fresh (.front Bytes Bytes)))
      partlySent).map
      (fun ran => (ran.1.isNone, ran.2)) = some (true, [[], [.taken 7], [], [.released 7]]) := by
    decide +kernel
  obtain ⟨⟨state, labels⟩, followed, read⟩ := Option.map_eq_some_iff.mp outcome
  obtain ⟨dead, rfl⟩ := Prod.mk.inj read
  obtain rfl := Option.isNone_iff_eq_none.mp dead
  have run : (system (.front Bytes Bytes)).Runs ([] ++ _) none := (System.Runs.start rfl).follow followed
  exact ⟨_, run, rfl, (descriptors_balanced run).2.2 [.taken 7] 7 [] rfl⟩

end FdConn

end LiteWebServer
