import LiteWebServer.UserConn.Output

namespace LiteWebServer

open Data

/-! `process_out` under any answers.  More sent than there is makes the differences wrap, and
the loops go on with what lies behind the text. -/

/-- What the system answers during one call of `process_out`.  As in `OutEvent`, but the
size from `fstat` need not be that of the file; a failed `fstat` leaves any. -/
structure OutAnswers where
  opens : Bytes → Except Errno (OpenFile × Int)
  sends : List Nat
  behind : Bytes → Nat → UInt8

def OutEvent.answers (event : OutEvent) : OutAnswers where
  opens name := (event.opens name).map fun file => (file, (file.content.length : Int))
  sends := event.sends
  behind := event.behind

/-- `std::to_string` of an `off_t`. -/
def decimalOff (value : Int) : Bytes :=
  if value < 0 then bytes "-" ++ decimal value.natAbs else decimal value.toNat

namespace UserConn

section Answers

variable (order : HashOrder Bytes Bytes) (server : Server)

def openBodyAny (conn : UserConn) (answers : OutAnswers) : UserConn :=
  if conn.rsp.bodyIsFile ∧ conn.fileFd = none then
    match answers.opens (cStr (combineTwoPath server.docRoot conn.rsp.body)) with
    | .ok (file, size) =>
        let conn := { conn with fileFd := some file }
        if file.isDir then
          let conn := conn.closeFileFd
          { conn with rsp := server.errHandler .movedPermanently movedPermanently_answered conn.req }
        else
          { conn with
              fileSize := size.toNat,
              rsp := conn.rsp.headerOper order .modify (bytes "Content-Length") (decimalOff size) }
    | .error errno =>
        if errno = .enoent then
          { conn with rsp := server.errHandler .notFound notFound_answered conn.req }
        else
          { conn with
              rsp := server.errHandler .internalServerError internalServerError_answered conn.req }
  else conn

def prepareAny (conn : UserConn) (answers : OutAnswers) : UserConn :=
  { conn with rsp := routePath order server conn.req }.openBodyAny order server answers

end Answers

/-- `send_to_cli` on any connection: the bytes sent, and whether the response is out. -/
def sendToCliAny (conn : UserConn) (answers : OutAnswers) : UserConn × Bytes × Bool :=
  (conn.sendToCliBy (.wrapping answers.behind) answers.sends).run

/-- The name that is passed to `open`, if it is called. -/
def openName (server : Server) (conn : UserConn) : Option Bytes :=
  if conn.rsp.bodyIsFile ∧ conn.fileFd = none then
    some (cStr (combineTwoPath server.docRoot conn.rsp.body))
  else none

def processOutAny (order : HashOrder Bytes Bytes) (server : Server) (conn : UserConn)
    (answers : OutAnswers) : OutResult :=
  let opened := { conn with rsp := routePath order server conn.req }.openName server
  let conn := conn.prepareAny order server answers
  let rsp := conn.rsp
  let (conn, sent, finished) := conn.sendToCliAny answers
  if !finished then { conn, opened, rsp, sent, finished, call := .modConnEventWrite }
  else if keepAlive conn.req then
    { conn := conn.connStateReset order, opened, rsp, sent, finished, call := .modConnEventRead }
  else { conn, opened, rsp, sent, finished, call := .connClose }

variable {order : HashOrder Bytes Bytes} {server : Server} {conn after : UserConn} {sent : Bytes}
  {rest : List Nat} {behind : Bytes → Nat → UInt8}

theorem openBodyAny_answers (event : OutEvent) :
    conn.openBodyAny order server event.answers = (conn.openBody order server event).1 := by
  unfold openBodyAny openBody OutEvent.answers
  split
  · dsimp only
    cases event.opens (cStr (combineTwoPath server.docRoot conn.rsp.body)) with
    | ok file =>
        dsimp only [Except.map]
        split
        · rfl
        · rw [decimalOff, if_neg (by omega), Int.toNat_natCast]
    | error errno =>
        dsimp only [Except.map]
        split <;> rfl
  · rfl

/-- Inside the text `send` takes what stands there. -/
theorem wrapping_take {text : Bytes} {pos count : Nat} (inside : pos + count ≤ text.length) :
    (Reach.wrapping behind).take text pos count = (text.drop pos).take count := by
  refine List.ext_getElem ?_ fun i left right => ?_
  · simp only [Reach.wrapping, List.length_map, List.length_range, List.length_take, List.length_drop]
    omega
  · simp only [Reach.wrapping, List.length_map, List.length_range] at left
    have within : pos + i < text.length := by omega
    simp [Reach.wrapping, List.getD_eq_getElem?_getD, List.getElem?_eq_getElem within]

theorem remain_ok {size sent left : Nat} (ran : remain size sent = .ok left) :
    sent ≤ size ∧ left = size - sent ∧ (Reach.wrapping behind).remain size sent = left := by
  unfold remain at ran
  split at ran
  · cases ran
  · rename_i ordered
    cases ran
    exact ⟨Nat.le_of_not_lt ordered, rfl, sizeSub_of_le (Nat.le_of_not_lt ordered)⟩

theorem sendBaseRsp_wrapping (sends : List Nat) {conn : UserConn} {sent : Bytes}
    (ran : conn.sendBaseRsp sends = .ok (after, sent, rest)) :
    conn.sendBaseRspBy (.wrapping behind) sends = (after, sent, rest) := by
  induction sends generalizing conn sent with
  | nil =>
      obtain ⟨remainSize, left, ends⟩ := bind_eq_ok.mp ran
      obtain ⟨-, -, same⟩ := @remain_ok behind _ _ _ left
      rw [sendBaseRspBy]
      dsimp only [bind, pure] at ends ⊢
      rw [same]
      split at ends
      · rename_i none
        cases ends
        exact if_pos none
      · rename_i some
        cases ends
        exact if_neg some
  | cons accepted sends ih =>
      obtain ⟨remainSize, left, turn⟩ := bind_eq_ok.mp ran
      obtain ⟨within, amount, same⟩ := @remain_ok behind _ _ _ left
      dsimp only at within amount
      rw [sendBaseRspBy]
      dsimp only [bind, pure] at turn ⊢
      rw [same]
      split at turn
      · rename_i none
        cases turn
        exact if_pos none
      · rename_i some
        rw [if_neg some]
        split at turn
        · rename_i refused
          cases turn
          exact if_pos refused
        · rename_i taken
          rw [if_neg taken]
          obtain ⟨⟨conn', sent', rest'⟩, loop, result⟩ := bind_eq_ok.mp turn
          cases result
          rw [ih loop, wrapping_take (by omega)]
          rfl

theorem sendBinBody_wrapping (sends : List Nat) {conn : UserConn} {sent : Bytes}
    (ran : conn.sendBinBody sends = .ok (after, sent, rest)) :
    conn.sendBinBodyBy (.wrapping behind) sends = (after, sent, rest) := by
  induction sends generalizing conn sent with
  | nil =>
      obtain ⟨remainSize, left, ends⟩ := bind_eq_ok.mp ran
      obtain ⟨-, -, same⟩ := @remain_ok behind _ _ _ left
      rw [sendBinBodyBy]
      dsimp only [bind, pure] at ends ⊢
      rw [same]
      split at ends
      · rename_i none
        cases ends
        exact if_pos none
      · rename_i some
        cases ends
        exact if_neg some
  | cons accepted sends ih =>
      obtain ⟨remainSize, left, turn⟩ := bind_eq_ok.mp ran
      obtain ⟨within, amount, same⟩ := @remain_ok behind _ _ _ left
      rw [sendBinBodyBy]
      dsimp only [bind, pure] at turn ⊢
      rw [same]
      split at turn
      · rename_i none
        cases turn
        exact if_pos none
      · rename_i some
        rw [if_neg some]
        split at turn
        · rename_i refused
          cases turn
          exact if_pos refused
        · rename_i taken
          rw [if_neg taken]
          obtain ⟨⟨conn', sent', rest'⟩, loop, result⟩ := bind_eq_ok.mp turn
          cases result
          rw [ih loop, wrapping_take (by omega)]
          rfl

theorem sendBody_wrapping {sends : List Nat}
    (ran : conn.sendBody sends = .ok (after, sent, rest)) :
    conn.sendBodyBy (.wrapping behind) sends = (after, sent, rest) := by
  unfold sendBody sendBodyBy at ran
  unfold sendBodyBy
  split at ran
  · rename_i file
    rw [if_pos file]
    exact Except.ok.inj ran
  · rename_i binary
    rw [if_neg binary]
    exact sendBinBody_wrapping sends ran

theorem sendHeadIfDue_wrapping {sends : List Nat}
    (ran : conn.sendHeadIfDue sends = .ok (after, sent, rest)) :
    conn.sendHeadIfDueBy (.wrapping behind) sends = (after, sent, rest) := by
  unfold sendHeadIfDue sendHeadIfDueBy at ran
  unfold sendHeadIfDueBy
  split at ran
  · rename_i due
    rw [if_pos due]
    exact sendBaseRsp_wrapping sends ran
  · rename_i done
    cases ran
    exact if_neg done

theorem sendBodyIfDue_wrapping {sends : List Nat}
    (ran : conn.sendBodyIfDue sends = .ok (after, sent, rest)) :
    conn.sendBodyIfDueBy (.wrapping behind) sends = (after, sent, rest) := by
  unfold sendBodyIfDue sendBodyIfDueBy at ran
  unfold sendBodyIfDueBy
  split at ran
  · rename_i due
    rw [if_pos due]
    exact sendBody_wrapping ran
  · rename_i none
    cases ran
    exact if_neg none

/-- Where `send_to_cli` reads nothing wild, it does the same on any connection. -/
theorem sendToCli_any (answers : OutAnswers) {finished : Bool}
    (ran : conn.sendToCli answers.sends = .ok (after, sent, finished)) :
    conn.sendToCliAny answers = (after, sent, finished) := by
  obtain ⟨⟨headConn, headSent, headRest⟩, head, ran⟩ := bind_eq_ok.mp ran
  obtain ⟨⟨bodyConn, bodySent, bodyRest⟩, body, ran⟩ := bind_eq_ok.mp ran
  cases ran
  rw [sendToCliAny, sendToCliBy, sendHeadIfDue_wrapping head]
  dsimp only [bind, pure, Id.run]
  rw [sendBodyIfDue_wrapping body]

/-! ## Sending leaves the receiving side alone -/

/-- The request and the receive buffer are those of the other connection. -/
structure SameInput (conn other : UserConn) : Prop where
  req : conn.req = other.req
  bufferR : conn.bufferR = other.bufferR
  bufferRBytes : conn.bufferRBytes = other.bufferRBytes
  reqParsedBytes : conn.reqParsedBytes = other.reqParsedBytes

theorem SameInput.trans {other third : UserConn} (first : conn.SameInput other)
    (second : other.SameInput third) : conn.SameInput third :=
  ⟨first.req.trans second.req, first.bufferR.trans second.bufferR,
    first.bufferRBytes.trans second.bufferRBytes, first.reqParsedBytes.trans second.reqParsedBytes⟩

theorem closeFileFd_input : conn.closeFileFd.SameInput conn := by
  unfold closeFileFd
  split <;> exact ⟨rfl, rfl, rfl, rfl⟩

theorem prepareAny_input (answers : OutAnswers) :
    (conn.prepareAny order server answers).SameInput conn := by
  unfold prepareAny openBodyAny
  split
  · split
    · rename_i file size _
      dsimp only
      have closed := @closeFileFd_input { { conn with rsp := routePath order server conn.req } with
        fileFd := some file }
      split
      · exact ⟨closed.req, closed.bufferR, closed.bufferRBytes, closed.reqParsedBytes⟩
      · exact ⟨rfl, rfl, rfl, rfl⟩
    · split <;> exact ⟨rfl, rfl, rfl, rfl⟩
  · exact ⟨rfl, rfl, rfl, rfl⟩

theorem sendFileBody_input (sends : List Nat) (conn : UserConn) :
    (conn.sendFileBody sends).1.SameInput conn := by
  induction sends generalizing conn with
  | nil =>
      unfold sendFileBody
      split
      · exact closeFileFd_input.trans ⟨rfl, rfl, rfl, rfl⟩
      · exact ⟨rfl, rfl, rfl, rfl⟩
  | cons accepted sends ih =>
      unfold sendFileBody
      split
      · exact closeFileFd_input.trans ⟨rfl, rfl, rfl, rfl⟩
      · dsimp only
        split
        · exact ⟨rfl, rfl, rfl, rfl⟩
        · exact (ih _).trans ⟨rfl, rfl, rfl, rfl⟩

theorem sendBaseRspBy_frame (sends : List Nat) (conn : UserConn) :
    ∃ rsp baseRspSnd rspBaseSndBytes, (conn.sendBaseRspBy (.wrapping behind) sends).1 =
      { conn with rsp, baseRspSnd, rspBaseSndBytes } := by
  induction sends generalizing conn with
  | nil =>
      unfold sendBaseRspBy
      dsimp only [bind, pure]
      split <;> exact ⟨_, _, _, rfl⟩
  | cons accepted sends ih =>
      unfold sendBaseRspBy
      dsimp only [bind, pure]
      split
      · exact ⟨_, _, _, rfl⟩
      · split
        · exact ⟨_, _, _, rfl⟩
        · obtain ⟨rsp, baseRspSnd, rspBaseSndBytes, same⟩ := ih
            { conn with
              rsp := conn.rsp.getBaseRsp,
              rspBaseSndBytes := u32 (conn.rspBaseSndBytes +
                min accepted (sizeSub conn.rsp.getBaseRsp.baseRsp.length conn.rspBaseSndBytes)) }
          exact ⟨rsp, baseRspSnd, rspBaseSndBytes, same⟩

theorem sendBinBodyBy_frame (sends : List Nat) (conn : UserConn) :
    ∃ bodySnd rspBodySndBytes, (conn.sendBinBodyBy (.wrapping behind) sends).1 =
      { conn with bodySnd, rspBodySndBytes } := by
  induction sends generalizing conn with
  | nil =>
      unfold sendBinBodyBy
      dsimp only [bind, pure]
      split <;> exact ⟨_, _, rfl⟩
  | cons accepted sends ih =>
      unfold sendBinBodyBy
      dsimp only [bind, pure]
      split
      · exact ⟨_, _, rfl⟩
      · split
        · exact ⟨_, _, rfl⟩
        · obtain ⟨bodySnd, rspBodySndBytes, same⟩ := ih
            { conn with
              rspBodySndBytes := conn.rspBodySndBytes +
                min accepted (sizeSub conn.rsp.body.length conn.rspBodySndBytes) }
          exact ⟨bodySnd, rspBodySndBytes, same⟩

theorem sendHeadIfDueBy_input (sends : List Nat) (conn : UserConn) :
    (conn.sendHeadIfDueBy (.wrapping behind) sends).1.SameInput conn := by
  unfold sendHeadIfDueBy
  split
  · obtain ⟨rsp, baseRspSnd, rspBaseSndBytes, same⟩ := @sendBaseRspBy_frame behind sends conn
    rw [same]
    exact ⟨rfl, rfl, rfl, rfl⟩
  · exact ⟨rfl, rfl, rfl, rfl⟩

theorem sendBodyIfDueBy_input (sends : List Nat) (conn : UserConn) :
    (conn.sendBodyIfDueBy (.wrapping behind) sends).1.SameInput conn := by
  unfold sendBodyIfDueBy
  split
  · unfold sendBodyBy
    split
    · exact sendFileBody_input sends conn
    · obtain ⟨bodySnd, rspBodySndBytes, same⟩ := @sendBinBodyBy_frame behind sends conn
      rw [same]
      exact ⟨rfl, rfl, rfl, rfl⟩
  · exact ⟨rfl, rfl, rfl, rfl⟩

theorem sendToCliAny_input (answers : OutAnswers) :
    (conn.sendToCliAny answers).1.SameInput conn :=
  (sendBodyIfDueBy_input _ _).trans (sendHeadIfDueBy_input answers.sends conn)

theorem openBody_name (event : OutEvent) : (conn.openBody order server event).2 = conn.openName server := by
  unfold openBody openName
  split
  · dsimp only
    split
    · split <;> rfl
    · split <;> rfl
  · rfl

/-- `process_out` does the same under the answers of an event, where it reads nothing wild. -/
theorem processOut_any {event : OutEvent} {result : OutResult}
    (ran : conn.processOut order server event = .ok result) :
    conn.processOutAny order server event.answers = result := by
  have prepared : conn.prepare order server event = (conn.prepareAny order server event.answers,
      { conn with rsp := routePath order server conn.req }.openName server) :=
    Prod.ext (openBodyAny_answers event).symm (openBody_name event)
  rw [processOut, prepared] at ran
  obtain ⟨⟨after, sent, finished⟩, sends, ran⟩ := bind_eq_ok.mp ran
  rw [processOutAny, sendToCli_any event.answers sends]
  dsimp only at ran ⊢
  cases finished with
  | false =>
      cases ran
      rfl
  | true =>
      simp only [Bool.not_true, Bool.false_eq_true, if_false] at ran ⊢
      split at ran
      · rename_i keep
        cases ran
        exact if_pos keep
      · rename_i close
        cases ran
        exact if_neg close

theorem processOutAny_rsp (answers : OutAnswers) :
    (conn.processOutAny order server answers).rsp = (conn.prepareAny order server answers).rsp := by
  unfold processOutAny
  dsimp only
  split
  · rfl
  · split <;> rfl

/-- What a call of `process_out` has done. -/
theorem processOutAny_did (answers : OutAnswers) {result : OutResult}
    (ran : conn.processOutAny order server answers = result) :
    ∃ after, (conn.prepareAny order server answers).sendToCliAny answers =
        (after, result.sent, result.finished) ∧ after.SameInput conn ∧
      (result.finished = false ∧ result.conn = after ∧ result.call = .modConnEventWrite ∨
        result.finished = true ∧ keepAlive conn.req = true ∧
            result.conn = after.connStateReset order ∧ result.call = .modConnEventRead ∨
          result.finished = true ∧ keepAlive conn.req = false ∧ result.conn = after ∧
            result.call = .connClose) := by
  have input := (@sendToCliAny_input (conn.prepareAny order server answers) answers).trans
    (prepareAny_input answers)
  subst ran
  unfold processOutAny
  dsimp only
  generalize (conn.prepareAny order server answers).sendToCliAny answers = sending at input ⊢
  obtain ⟨after, sent, finished⟩ := sending
  refine ⟨after, ?_⟩
  cases finished with
  | false => exact ⟨rfl, input, .inl ⟨rfl, rfl, rfl⟩⟩
  | true =>
      simp only [Bool.not_true, Bool.false_eq_true, if_false]
      rw [input.req]
      split
      · rename_i keep
        exact ⟨rfl, input, .inr (.inl ⟨rfl, keep, rfl, rfl⟩)⟩
      · rename_i drop
        exact ⟨rfl, input, .inr (.inr ⟨rfl, Bool.eq_false_of_not_eq_true drop, rfl, rfl⟩)⟩

/-- What `process_out` leaves behind: the receiving side as it was, or all of it reset. -/
theorem processOut_input {event : OutEvent} {result : OutResult}
    (ran : conn.processOut order server event = .ok result) :
    (result.finished = false → result.conn.SameInput conn) ∧
      (result.finished = true →
        keepAlive conn.req = true ∧ result.call = .modConnEventRead ∧
            (∃ before : UserConn, before.SameInput conn ∧ result.conn = before.connStateReset order) ∨
          keepAlive conn.req = false ∧ result.call = .connClose) := by
  obtain ⟨after, -, input, did⟩ := processOutAny_did event.answers (processOut_any ran)
  rcases did with ⟨finished, left, -⟩ | ⟨finished, keep, left, call⟩ | ⟨finished, drop, -, call⟩
  · rw [left]
    exact ⟨fun _ => input, fun done => by simp [finished] at done⟩
  · exact ⟨fun goesOn => by simp [finished] at goesOn, fun _ => .inl ⟨keep, call, after, input, left⟩⟩
  · exact ⟨fun goesOn => by simp [finished] at goesOn, fun _ => .inr ⟨drop, call⟩⟩

end UserConn

end LiteWebServer
