import LiteWebServer.UserConn.Output

namespace LiteWebServer

open Data

namespace UserConn

/-! Sending a response with a file body over any number of calls: what one call adds,
and when the bytes of all of them are the head followed by the file. -/

/-- How much the results up to the first that is not positive add up to. -/
def taken (sends : List Nat) : Nat := (sends.takeWhile (0 < ·)).sum

theorem taken_cons_pos {accepted : Nat} (positive : 0 < accepted) (sends : List Nat) :
    taken (accepted :: sends) = accepted + taken sends := by
  simp [taken, positive]

theorem remain_of_le {size sent : Nat} (within : sent ≤ size) : remain size sent = .ok (size - sent) :=
  if_neg (Nat.not_lt.mpr within)

variable {conn : UserConn}

/-! ## The head -/

def rendered (conn : UserConn) : UserConn := { conn with rsp := conn.rsp.getBaseRsp }

theorem sendBaseRsp_done (sends : List Nat) (done : conn.rspBaseSndBytes = conn.rsp.head.length) :
    conn.sendBaseRsp sends = .ok ({ conn.rendered with baseRspSnd := true }, [], sends) := by
  cases sends <;>
    simp only [sendBaseRspBy, Reach.guarded_remain, HttpResponse.getBaseRsp_baseRsp, done,
      remain_of_le (Nat.le_refl _), bind, Except.bind, Nat.sub_self, if_true, pure, Except.pure, rendered]

theorem sendBaseRsp_nil (short : conn.rspBaseSndBytes < conn.rsp.head.length) :
    conn.sendBaseRsp [] = .ok (conn.rendered, [], []) := by
  have some : conn.rsp.head.length - conn.rspBaseSndBytes ≠ 0 := by omega
  simp only [sendBaseRspBy, Reach.guarded_remain, HttpResponse.getBaseRsp_baseRsp,
    remain_of_le (Nat.le_of_lt short), bind, Except.bind, if_neg some, pure, Except.pure, rendered]

theorem sendBaseRsp_refused (sends : List Nat) (short : conn.rspBaseSndBytes < conn.rsp.head.length) :
    conn.sendBaseRsp (0 :: sends) = .ok (conn.rendered, [], sends) := by
  have some : conn.rsp.head.length - conn.rspBaseSndBytes ≠ 0 := by omega
  simp only [sendBaseRspBy, Reach.guarded_remain, HttpResponse.getBaseRsp_baseRsp,
    remain_of_le (Nat.le_of_lt short), bind, Except.bind, if_neg some, Nat.zero_min, if_true, pure,
    Except.pure, rendered]

theorem sendBaseRsp_accepted {accepted m : Nat} (sends : List Nat)
    (amount : min accepted (conn.rsp.head.length - conn.rspBaseSndBytes) = m) (positive : 0 < m)
    (small : conn.rsp.head.length < 2 ^ 32) {after : UserConn} {sent : Bytes} {rest : List Nat}
    (next : { conn.rendered with rspBaseSndBytes := conn.rspBaseSndBytes + m }.sendBaseRsp sends =
      .ok (after, sent, rest)) :
    conn.sendBaseRsp (accepted :: sends) =
      .ok (after, (conn.rsp.head.drop conn.rspBaseSndBytes).take m ++ sent, rest) := by
  have some : conn.rsp.head.length - conn.rspBaseSndBytes ≠ 0 := by omega
  have offset : u32 (conn.rspBaseSndBytes + m) = conn.rspBaseSndBytes + m := u32_of_lt (by omega)
  simp only [rendered] at next
  simp only [sendBaseRspBy, Reach.guarded_remain, Reach.guarded_take, HttpResponse.getBaseRsp_baseRsp,
    remain_of_le (by omega : conn.rspBaseSndBytes ≤ conn.rsp.head.length), bind, Except.bind,
    if_neg some, amount, if_neg (Nat.ne_of_gt positive), offset, next, pure, Except.pure]

/-- The connection after `k` more bytes of the head have gone out. -/
def headSent (conn : UserConn) (k : Nat) : UserConn :=
  { conn.rendered with
    rspBaseSndBytes := conn.rspBaseSndBytes + k,
    baseRspSnd := decide (conn.rspBaseSndBytes + k = conn.rsp.head.length) }

theorem headSent_zero (unsent : conn.baseRspSnd = false)
    (short : conn.rspBaseSndBytes < conn.rsp.head.length) : conn.headSent 0 = conn.rendered := by
  rw [headSent, Nat.add_zero, decide_eq_false (Nat.ne_of_lt short), ← unsent]
  rfl

theorem headSent_done (done : conn.rspBaseSndBytes = conn.rsp.head.length) :
    conn.headSent 0 = { conn.rendered with baseRspSnd := true } := by
  rw [headSent, Nat.add_zero, decide_eq_true done]
  rfl

/-- One call of `send_base_rsp` sends the next bytes of the head, as many as the results
before the first refusal add up to. -/
theorem sendBaseRsp_spec (sends : List Nat) {conn : UserConn} (unsent : conn.baseRspSnd = false)
    (small : conn.rsp.head.length < 2 ^ 32) (within : conn.rspBaseSndBytes ≤ conn.rsp.head.length) :
    ∃ k rest, conn.sendBaseRsp sends =
        .ok (conn.headSent k, (conn.rsp.head.drop conn.rspBaseSndBytes).take k, rest) ∧
      conn.rspBaseSndBytes + k ≤ conn.rsp.head.length ∧
      k = min (taken sends) (conn.rsp.head.length - conn.rspBaseSndBytes) := by
  induction sends generalizing conn with
  | nil =>
      refine ⟨0, [], ?_, within, (Nat.zero_min _).symm⟩
      rcases Nat.eq_or_lt_of_le within with done | short
      · rw [sendBaseRsp_done [] done, headSent_done done, List.take_zero]
      · rw [sendBaseRsp_nil short, headSent_zero unsent short, List.take_zero]
  | cons accepted sends ih =>
      rcases Nat.eq_or_lt_of_le within with done | short
      · refine ⟨0, accepted :: sends, ?_, within, by omega⟩
        rw [sendBaseRsp_done _ done, headSent_done done, List.take_zero]
      · by_cases refused : accepted = 0
        · subst accepted
          refine ⟨0, sends, ?_, within, (Nat.zero_min _).symm⟩
          rw [sendBaseRsp_refused sends short, headSent_zero unsent short, List.take_zero]
        · have positive : 0 < accepted := Nat.pos_of_ne_zero refused
          let m := min accepted (conn.rsp.head.length - conn.rspBaseSndBytes)
          have amount : min accepted (conn.rsp.head.length - conn.rspBaseSndBytes) = m := rfl
          let next : UserConn := { conn.rendered with rspBaseSndBytes := conn.rspBaseSndBytes + m }
          have sameHead : next.rsp.head = conn.rsp.head := HttpResponse.getBaseRsp_head
          have offset : next.rspBaseSndBytes = conn.rspBaseSndBytes + m := rfl
          obtain ⟨k, rest, sent, bound, counted⟩ := @ih next unsent
            (sameHead ▸ small) (by rw [sameHead, offset]; omega)
          rw [sameHead, offset] at bound counted sent
          refine ⟨m + k, rest, ?_, by omega, ?_⟩
          · rw [sendBaseRsp_accepted sends amount (by omega) small sent, ← List.drop_drop,
              ← List.take_add]
            simp only [headSent, rendered, next, HttpResponse.getBaseRsp_getBaseRsp,
              HttpResponse.getBaseRsp_head, Nat.add_assoc]
          · rw [taken_cons_pos positive]
            omega

/-- The conditional call goes on in a head whose beginning is out. -/
theorem sendHeadIfDue_spec {head sent : Bytes} (unsent : conn.baseRspSnd = false)
    (same : conn.rsp.head = head) (small : head.length < 2 ^ 32)
    (within : conn.rspBaseSndBytes ≤ head.length) (soFar : sent = head.take conn.rspBaseSndBytes)
    (sends : List Nat) :
    ∃ k rest, conn.sendHeadIfDue sends =
        .ok (conn.headSent k, (head.drop conn.rspBaseSndBytes).take k, rest) ∧
      conn.rspBaseSndBytes + k ≤ head.length ∧
      sent ++ (head.drop conn.rspBaseSndBytes).take k = head.take (conn.rspBaseSndBytes + k) ∧
      (conn.headSent k).baseRspSnd = decide (conn.rspBaseSndBytes + k = head.length) ∧
      k = min (taken sends) (head.length - conn.rspBaseSndBytes) := by
  subst same
  obtain ⟨k, rest, loop, bound, counted⟩ := sendBaseRsp_spec sends unsent small within
  refine ⟨k, rest, ?_, bound, ?_, rfl, counted⟩
  · rw [sendHeadIfDue, sendHeadIfDueBy, unsent]
    exact loop
  · rw [soFar, ← List.take_add]

/-! ## The file -/

/-- The connection after `k` more bytes of its file have gone out; the last of them
closes the descriptor. -/
def fileSent (conn : UserConn) (k : Nat) : UserConn :=
  if conn.rspBodySndBytes + k = conn.fileSize then
    { conn with
      rspBodySndBytes := conn.rspBodySndBytes + k, bodySnd := true, fileFd := none, fileSize := 0 }
  else { conn with rspBodySndBytes := conn.rspBodySndBytes + k }

variable {file : OpenFile}

theorem sendFileBody_done (sends : List Nat) (fd : conn.fileFd = some file)
    (done : conn.rspBodySndBytes = conn.fileSize) :
    conn.sendFileBody sends = (conn.fileSent 0, [], sends) := by
  have last : conn.fileSize ≤ conn.rspBodySndBytes := Nat.le_of_eq done.symm
  rw [fileSent, if_pos (by omega), Nat.add_zero]
  cases sends <;>
    simp only [sendFileBody, if_pos last, closeFileFd, fd, ne_eq, reduceCtorEq, not_false_eq_true,
      if_true]

theorem sendFileBody_nil (short : conn.rspBodySndBytes < conn.fileSize) :
    conn.sendFileBody [] = (conn.fileSent 0, [], []) := by
  rw [fileSent, if_neg (by omega), sendFileBody, if_neg (by omega)]
  rfl

theorem sendFileBody_refused (sends : List Nat) (short : conn.rspBodySndBytes < conn.fileSize) :
    conn.sendFileBody (0 :: sends) = (conn.fileSent 0, [], sends) := by
  have nothing : conn.fileChunk 0 = [] := by
    unfold fileChunk
    split
    · exact List.take_zero
    · rfl
  simp only [sendFileBody, if_neg (Nat.not_le.mpr short), Nat.zero_min, nothing, if_true]
  rw [fileSent, if_neg (by omega)]
  rfl

theorem sendFileBody_spec (sends : List Nat) {conn : UserConn} (fd : conn.fileFd = some file)
    (size : conn.fileSize = file.content.length) (within : conn.rspBodySndBytes ≤ conn.fileSize) :
    ∃ k rest, conn.sendFileBody sends =
        (conn.fileSent k, (file.content.drop conn.rspBodySndBytes).take k, rest) ∧
      conn.rspBodySndBytes + k ≤ conn.fileSize := by
  induction sends generalizing conn with
  | nil =>
      refine ⟨0, [], ?_, within⟩
      rcases Nat.eq_or_lt_of_le within with done | short
      · rw [sendFileBody_done [] fd done, List.take_zero]
      · rw [sendFileBody_nil short, List.take_zero]
  | cons accepted sends ih =>
      rcases Nat.eq_or_lt_of_le within with done | short
      · exact ⟨0, accepted :: sends, by rw [sendFileBody_done _ fd done, List.take_zero], within⟩
      · by_cases refused : accepted = 0
        · subst accepted
          exact ⟨0, sends, by rw [sendFileBody_refused _ short, List.take_zero], within⟩
        · let m := min accepted (min (conn.fileSize - conn.rspBodySndBytes) httpFileChunkSize)
          have chunk : conn.fileChunk m = (file.content.drop conn.rspBodySndBytes).take m := by
            rw [fileChunk, fd]
          have width : ((file.content.drop conn.rspBodySndBytes).take m).length = m := by
            rw [List.length_take, List.length_drop]
            omega
          have positive : 0 < m := by
            have unit : 0 < httpFileChunkSize := by decide
            omega
          let next : UserConn := { conn with rspBodySndBytes := conn.rspBodySndBytes + m }
          have offset : next.rspBodySndBytes = conn.rspBodySndBytes + m := rfl
          obtain ⟨k, rest, sent, bound⟩ := @ih next fd size (by
            change conn.rspBodySndBytes + m ≤ conn.fileSize
            omega)
          rw [offset] at bound sent
          refine ⟨m + k, rest, ?_, by
            change _ ≤ conn.fileSize at bound
            omega⟩
          have nonempty : (file.content.drop conn.rspBodySndBytes).take m ≠ [] := by
            intro empty
            rw [empty, List.length_nil] at width
            omega
          simp only [sendFileBody, if_neg (Nat.not_le.mpr short)]
          change (if conn.fileChunk m = [] then _ else _) = _
          rw [chunk, if_neg nonempty, width]
          change ((next.sendFileBody sends).1, _ ++ (next.sendFileBody sends).2.1,
            (next.sendFileBody sends).2.2) = _
          rw [sent, ← List.drop_drop, ← List.take_add]
          simp only [fileSent, next, Nat.add_assoc]

/-! ## One call -/

/-- A response with a file body under way: `sent` has gone out so far, and it is the
beginning of `head` and the file. -/
structure Unfinished (head : Bytes) (file : OpenFile) (conn : UserConn) (sent : Bytes) : Prop where
  fd : conn.fileFd = some file
  size : conn.fileSize = file.content.length
  bodySnd : conn.bodySnd = false
  inHead : conn.baseRspSnd = false → conn.rspBodySndBytes = 0 ∧
    conn.rspBaseSndBytes ≤ head.length ∧ sent = head.take conn.rspBaseSndBytes
  inFile : conn.baseRspSnd = true → conn.rspBodySndBytes ≤ file.content.length ∧
    sent = head ++ file.content.take conn.rspBodySndBytes

variable {head sent : Bytes}

/-- With the head behind it, only the part of the file counts. -/
theorem Unfinished.behindHead (fd : conn.fileFd = some file)
    (size : conn.fileSize = file.content.length) (bodySnd : conn.bodySnd = false)
    (headDone : conn.baseRspSnd = true) (within : conn.rspBodySndBytes ≤ file.content.length)
    (soFar : sent = head ++ file.content.take conn.rspBodySndBytes) :
    Unfinished head file conn sent where
  fd := fd
  size := size
  bodySnd := bodySnd
  inHead notDone := by simp [headDone] at notDone
  inFile _ := ⟨within, soFar⟩

theorem Unfinished.isPrefix (state : Unfinished head file conn sent) :
    sent <+: head ++ file.content := by
  cases headDone : conn.baseRspSnd with
  | false =>
      rw [(state.inHead headDone).2.2]
      exact (List.take_prefix _ _).trans (List.prefix_append _ _)
  | true =>
      rw [(state.inFile headDone).2]
      exact (List.prefix_append_right_inj head).mpr (List.take_prefix _ _)

theorem Unfinished.sendBody (state : Unfinished head file conn sent)
    (headDone : conn.baseRspSnd = true) (isFile : conn.rsp.bodyIsFile = true) (sends : List Nat) :
    ∃ after new rest, conn.sendBody sends = .ok (after, new, rest) ∧ after.req = conn.req ∧
      after.baseRspSnd = true ∧
      (after.bodySnd = true → sent ++ new = head ++ file.content) ∧
      (after.bodySnd = false → Unfinished head file after (sent ++ new)) := by
  obtain ⟨within, soFar⟩ := state.inFile headDone
  rw [← state.size] at within
  obtain ⟨k, rest, loop, bound⟩ := sendFileBody_spec sends state.fd state.size within
  have joined : sent ++ (file.content.drop conn.rspBodySndBytes).take k =
      head ++ file.content.take (conn.rspBodySndBytes + k) := by
    rw [soFar, List.append_assoc, ← List.take_add]
  refine ⟨_, _, _, by rw [UserConn.sendBody, sendBodyBy, if_pos isFile, loop]; rfl, ?_⟩
  by_cases last : conn.rspBodySndBytes + k = conn.fileSize
  · rw [fileSent, if_pos last]
    refine ⟨rfl, headDone, fun _ => ?_, nofun⟩
    rw [joined, last, state.size, List.take_length]
  · rw [fileSent, if_neg last]
    exact ⟨rfl, headDone, fun done => by simp [state.bodySnd] at done, fun _ =>
      .behindHead state.fd state.size state.bodySnd headDone (state.size ▸ bound) joined⟩

theorem Unfinished.sendToCli (state : Unfinished head file conn sent)
    (isFile : conn.rsp.bodyIsFile = true) (same : conn.baseRspSnd = false → conn.rsp.head = head)
    (small : head.length < 2 ^ 32) (sends : List Nat) :
    ∃ after new, conn.sendToCli sends = .ok (after, new, after.bodySnd) ∧ after.req = conn.req ∧
      (after.bodySnd = true → sent ++ new = head ++ file.content) ∧
      (after.bodySnd = false → Unfinished head file after (sent ++ new)) ∧
      (conn.baseRspSnd = true ∨ head.length ≤ conn.rspBaseSndBytes + taken sends →
        after.baseRspSnd = true) := by
  cases headDone : conn.baseRspSnd with
  | true =>
      obtain ⟨after, new, rest, loop, req, base, full, more⟩ := state.sendBody headDone isFile sends
      refine ⟨after, new, ?_, req, full, more, fun _ => base⟩
      simp [UserConn.sendToCli, sendToCliBy, sendHeadIfDueBy, sendBodyIfDueBy, headDone, state.bodySnd, loop, base,
        bind, Except.bind, pure, Except.pure]
  | false =>
      obtain ⟨noBody, within, soFar⟩ := state.inHead headDone
      obtain ⟨k, rest, loop, bound, joined, decided, counted⟩ :=
        sendHeadIfDue_spec headDone (same headDone) small within soFar sends
      by_cases last : conn.rspBaseSndBytes + k = head.length
      · have base : (conn.headSent k).baseRspSnd = true := decided.trans (decide_eq_true last)
        have between : Unfinished head file (conn.headSent k)
            (sent ++ (head.drop conn.rspBaseSndBytes).take k) := by
          have start : (conn.headSent k).rspBodySndBytes = 0 := noBody
          refine .behindHead state.fd state.size state.bodySnd base ?_ ?_
          · rw [start]
            exact Nat.zero_le _
          · rw [start, joined, last, List.take_length, List.take_zero, List.append_nil]
        obtain ⟨after, new, rest', body, req, base', full, more⟩ :=
          between.sendBody base (HttpResponse.getBaseRsp_bodyIsFile.trans isFile) rest
        rw [List.append_assoc] at full more
        refine ⟨after, _, ?_, req, full, more, fun _ => base'⟩
        simp [UserConn.sendToCli, sendToCliBy, sendBodyIfDueBy, loop, base, between.bodySnd, body, base', bind,
          Except.bind, pure, Except.pure]
      · have base : (conn.headSent k).baseRspSnd = false := decided.trans (decide_eq_false last)
        have body : (conn.headSent k).bodySnd = false := state.bodySnd
        refine ⟨conn.headSent k, (head.drop conn.rspBaseSndBytes).take k, ?_, rfl,
          fun done => by simp [body] at done, fun _ => ?_,
          fun enough => absurd (by have := enough.resolve_left Bool.false_ne_true; omega) last⟩
        · simp [UserConn.sendToCli, sendToCliBy, sendBodyIfDueBy, loop, base, body, bind, Except.bind, pure,
            Except.pure]
        · constructor
          · exact state.fd
          · exact state.size
          · exact state.bodySnd
          · exact fun _ => ⟨noBody, bound, joined⟩
          · intro done
            simp [base] at done

end UserConn

/-- Calls of `process_out` until the response is out: the connection, all bytes handed
to the socket, and whether `send_to_cli` has returned true. -/
structure OutRun where
  conn : UserConn
  sent : Bytes
  finished : Bool

namespace UserConn

variable (order : HashOrder Bytes Bytes) (server : Server)

def outRun (conn : UserConn) : List OutEvent → Except Fault OutRun
  | [] => .ok ⟨conn, [], false⟩
  | event :: later => do
      let result ← conn.processOut order server event
      if result.finished then return ⟨result.conn, result.sent, true⟩
      else
        let rest ← result.conn.outRun later
        return ⟨rest.conn, result.sent ++ rest.sent, rest.finished⟩

/-- Nothing of a response has been sent, and no file is open. -/
structure Idle (conn : UserConn) : Prop where
  baseRspSnd : conn.baseRspSnd = false
  bodySnd : conn.bodySnd = false
  rspBaseSndBytes : conn.rspBaseSndBytes = 0
  rspBodySndBytes : conn.rspBodySndBytes = 0
  fileFd : conn.fileFd = none

theorem fresh_idle : (fresh order).Idle := ⟨rfl, rfl, rfl, rfl, rfl⟩

theorem connStateReset_idle (conn : UserConn) : (conn.connStateReset order).Idle := by
  unfold connStateReset closeFileFd
  split
  · exact ⟨rfl, rfl, rfl, rfl, rfl⟩
  · rename_i closed
    exact ⟨rfl, rfl, rfl, rfl, by simpa using closed⟩

/-- The response of the first call to a request for a file. -/
def fileRsp (req : HttpRequest) (file : OpenFile) : HttpResponse :=
  (routePath order server req).headerOper order .modify (bytes "Content-Length")
    (decimal file.content.length)

variable {order server} {conn : UserConn} {file : OpenFile} {event : OutEvent}

theorem Idle.prepare_file (idle : conn.Idle)
    (isFile : (routePath order server conn.req).bodyIsFile = true)
    (opens : event.opens (fileName order server conn.req) = .ok file) (regular : file.isDir = false) :
    conn.prepare order server event =
      ({ conn with
          rsp := fileRsp order server conn.req file, fileFd := some file,
          fileSize := file.content.length }, some (fileName order server conn.req)) := by
  unfold fileName at opens
  simp only [prepare, openBody, isFile, idle.fileFd, and_self, if_true, opens, regular, fileRsp,
    Bool.false_eq_true, if_false, fileName]

theorem prepare_open (isFile : (routePath order server conn.req).bodyIsFile = true)
    (fd : conn.fileFd = some file) :
    conn.prepare order server event = ({ conn with rsp := routePath order server conn.req }, none) := by
  simp [prepare, openBody, isFile, fd]

theorem processOut_sent {prepared after : UserConn} {opened : Option Bytes} {new : Bytes}
    {finished : Bool} (prepares : conn.prepare order server event = (prepared, opened))
    (sends : prepared.sendToCli event.sends = .ok (after, new, finished)) :
    ∃ result, conn.processOut order server event = .ok result ∧ result.sent = new ∧
      result.finished = finished ∧ (finished = false → result.conn = after) := by
  cases finished with
  | false =>
      exact ⟨_, by simp only [processOut, prepares, sends, bind, Except.bind, Bool.not_false, if_true]; rfl,
        rfl, rfl, fun _ => rfl⟩
  | true =>
      simp only [processOut, prepares, sends, bind, Except.bind, Bool.not_true, Bool.false_eq_true,
        if_false]
      split
      · exact ⟨_, rfl, rfl, rfl, by simp⟩
      · exact ⟨_, rfl, rfl, rfl, by simp⟩

variable {head sent : Bytes}

/-- With `sent` out already, the calls to come go on in `head` and the file. -/
def SendsOn (order : HashOrder Bytes Bytes) (server : Server) (head : Bytes) (file : OpenFile)
    (conn : UserConn) (sent : Bytes) (events : List OutEvent) : Prop :=
  ∃ run, conn.outRun order server events = .ok run ∧
    sent ++ run.sent <+: head ++ file.content ∧
    (run.finished = true → sent ++ run.sent = head ++ file.content) ∧
    (run.finished = false → run.conn.baseRspSnd = false →
      run.conn.rspBaseSndBytes ≤ (routePath order server run.conn.req).head.length)

/-- One call, whatever it has prepared, and those behind it. -/
theorem Unfinished.sendsOn_cons {prepared : UserConn} {opened : Option Bytes}
    (state : Unfinished head file prepared sent)
    (prepares : conn.prepare order server event = (prepared, opened))
    (isFile : prepared.rsp.bodyIsFile = true)
    (same : prepared.baseRspSnd = false → prepared.rsp.head = head) (small : head.length < 2 ^ 32)
    {later : List OutEvent}
    (goesOn : ∀ after new, Unfinished head file after (sent ++ new) → after.req = prepared.req →
      (prepared.baseRspSnd = true ∨ head.length ≤ prepared.rspBaseSndBytes + taken event.sends →
        after.baseRspSnd = true) →
      SendsOn order server head file after (sent ++ new) later) :
    SendsOn order server head file conn sent (event :: later) := by
  obtain ⟨after, new, sends, req, full, more, base⟩ :=
    state.sendToCli isFile same small event.sends
  obtain ⟨result, out, resultSent, resultFinished, resultConn⟩ := processOut_sent prepares sends
  cases done : after.bodySnd with
  | true =>
      have finished : result.finished = true := resultFinished.trans done
      refine ⟨⟨result.conn, result.sent, true⟩, ?_, ?_, fun _ => ?_, by simp⟩
      · simp [UserConn.outRun, out, finished, bind, Except.bind, pure, Except.pure]
      · rw [resultSent, full done]
      · rw [resultSent, full done]
  | false =>
      have unfinished : result.finished = false := resultFinished.trans done
      obtain ⟨run, runs, inOrder, whole, offset⟩ := goesOn after new (more done) req base
      rw [List.append_assoc] at inOrder whole
      refine ⟨⟨run.conn, result.sent ++ run.sent, run.finished⟩, ?_, ?_, ?_, offset⟩
      · simp [UserConn.outRun, out, unfinished, resultConn done, runs, bind, Except.bind, pure,
          Except.pure]
      · rwa [resultSent]
      · rwa [resultSent]

/-- Later calls, when the head is out or routing gives the same head again. -/
theorem Unfinished.sendsOn (later : List OutEvent) {conn : UserConn} {sent : Bytes}
    (state : Unfinished head file conn sent)
    (isFile : (routePath order server conn.req).bodyIsFile = true) (small : head.length < 2 ^ 32)
    (same : conn.baseRspSnd = true ∨ (routePath order server conn.req).head = head) :
    SendsOn order server head file conn sent later := by
  induction later generalizing conn sent with
  | nil =>
      refine ⟨_, rfl, ?_, by simp, fun _ inHead => ?_⟩
      · rw [List.append_nil]
        exact state.isPrefix
      · dsimp only at inHead ⊢
        rw [same.resolve_left (by simp [inHead])]
        exact (state.inHead inHead).2.1
  | cons event later ih =>
      have routed : Unfinished head file { conn with rsp := routePath order server conn.req } sent :=
        ⟨state.fd, state.size, state.bodySnd, state.inHead, state.inFile⟩
      refine routed.sendsOn_cons (prepare_open isFile state.fd) isFile
        (fun inHead => same.resolve_left fun done => by simp [done] at inHead) small ?_
      intro after new more req base
      exact ih more (by rwa [req]) (same.imp (fun done => base (.inl done)) fun again => by rwa [req])

theorem Idle.unfinished (idle : conn.Idle) (rsp : HttpResponse) (head : Bytes) :
    Unfinished head file
      { conn with rsp, fileFd := some file, fileSize := file.content.length } [] where
  fd := rfl
  size := rfl
  bodySnd := idle.bodySnd
  inHead _ := by
    refine ⟨idle.rspBodySndBytes, ?_⟩
    change conn.rspBaseSndBytes ≤ head.length ∧ [] = head.take conn.rspBaseSndBytes
    rw [idle.rspBaseSndBytes, List.take_zero]
    exact ⟨Nat.zero_le _, rfl⟩
  inFile done := by simp [idle.baseRspSnd] at done

/-- When the whole head is accepted in the first call, or the handler has announced the
size of the file itself, every run sends the head and then the file. -/
theorem processOut_sends_head_then_file (idle : conn.Idle)
    (isFile : (routePath order server conn.req).bodyIsFile = true)
    (opens : event.opens (fileName order server conn.req) = .ok file) (regular : file.isDir = false)
    (small : (fileRsp order server conn.req file).head.length < 2 ^ 32)
    (whole : (fileRsp order server conn.req file).head.length ≤ taken event.sends ∨
      (routePath order server conn.req).getHeader (bytes "Content-Length") =
        some (decimal file.content.length)) (later : List OutEvent) :
    (fileRsp order server conn.req file).getHeader (bytes "Content-Length") =
        some (decimal file.content.length) ∧
      ∃ run, conn.outRun order server (event :: later) = .ok run ∧
        run.sent <+: (fileRsp order server conn.req file).head ++ file.content ∧
        (run.finished = true → run.sent = (fileRsp order server conn.req file).head ++ file.content) ∧
        (run.finished = false → run.conn.baseRspSnd = false →
          run.conn.rspBaseSndBytes ≤ (routePath order server run.conn.req).head.length) := by
  refine ⟨(HttpResponse.getHeader_modify _ _ _).trans (if_pos rfl), ?_⟩
  refine (idle.unfinished (fileRsp order server conn.req file) _).sendsOn_cons
    (idle.prepare_file isFile opens regular) isFile (fun _ => rfl) small ?_
  intro after new more req base
  refine more.sendsOn later (by rwa [req]) small
    (whole.imp (fun enough => base (.inr ?_)) fun announced => ?_)
  · exact Nat.le_trans enough (Nat.le_add_left _ _)
  · rw [req]
    exact (HttpResponse.head_modify_same announced).symm

/-! ## The head cut short -/

/-- A server without routes, and a connection that has read `GET /a.html`. -/
def pageServer : Server := .builtin (.front Bytes Bytes) (bytes "/www") fun _ => none

def pageReq : HttpRequest :=
  { HttpRequest.fresh with state := .parseSuccess, method := .get, path := bytes "/a.html" }

def pageConn : UserConn := { fresh (.front Bytes Bytes) with req := pageReq }

def page : OpenFile := ⟨false, bytes "hello"⟩

/-- The page is there, and the socket takes what `sends` says. -/
def pageEvent (sends : List Nat) : OutEvent := ⟨fun _ => .ok page, sends, fun _ _ => 0⟩

def pageRun (events : List OutEvent) : Except Fault OutRun :=
  pageConn.outRun (.front Bytes Bytes) pageServer events

theorem processOut_sends_page :
    ∃ run, pageRun [pageEvent [100, 100, 2], pageEvent [100]] = .ok run ∧
      run.sent <+: (fileRsp (.front Bytes Bytes) pageServer pageReq page).head ++ page.content ∧
      (run.finished = true →
        run.sent = (fileRsp (.front Bytes Bytes) pageServer pageReq page).head ++ page.content) ∧
      (run.finished = false → run.conn.baseRspSnd = false →
        run.conn.rspBaseSndBytes ≤
          (routePath (.front Bytes Bytes) pageServer run.conn.req).head.length) :=
  (@processOut_sends_head_then_file (.front Bytes Bytes) pageServer pageConn page
    (pageEvent [100, 100, 2]) ⟨rfl, rfl, rfl, rfl, rfl⟩ rfl rfl rfl (by decide +kernel)
    (.inl (by decide +kernel)) [pageEvent [100]]).2

/-- Twenty bytes into the head the socket is full: the second call goes on in a head
without `Content-Length`, so what is sent is no beginning of the response.  Further
in, the offset lies behind the end of the new head. -/
theorem head_cut_short :
    (∃ run, pageRun [pageEvent [20], pageEvent [1000, 1000]] = .ok run ∧ run.finished = true ∧
      ¬ run.sent <+: (fileRsp (.front Bytes Bytes) pageServer pageReq page).head ++ page.content) ∧
      pageRun [pageEvent [120], pageEvent [1000, 1000]] = .error .wildRead := by
  constructor
  · have outcome : (pageRun [pageEvent [20], pageEvent [1000, 1000]]).toOption.map (fun run =>
        (run.finished, decide (run.sent <+:
          (fileRsp (.front Bytes Bytes) pageServer pageReq page).head ++ page.content))) =
        some (true, false) := by decide +kernel
    obtain ⟨run, ran, read⟩ := ok_of_map outcome
    simp only [Prod.mk.injEq, decide_eq_false_iff_not] at read
    exact ⟨run, ran, read⟩
  · have outcome : (match pageRun [pageEvent [120], pageEvent [1000, 1000]] with
        | .error fault => some fault
        | .ok _ => none) = some .wildRead := by decide +kernel
    cases result : pageRun [pageEvent [120], pageEvent [1000, 1000]] with
    | error fault =>
        rw [result] at outcome
        rw [Option.some.inj outcome]
    | ok run =>
        rw [result] at outcome
        cases outcome

end UserConn

end LiteWebServer
