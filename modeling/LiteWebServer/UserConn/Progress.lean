import LiteWebServer.UserConn.Reply

namespace LiteWebServer

open Data

/-! A call in which the socket takes something brings its answer forward. -/

namespace UserConn

variable {conn after : UserConn} {order : HashOrder Bytes Bytes} {server : Server} {sent : Bytes}
  {rest sends : List Nat} {accepted : Nat}

/-! ## The counted size -/

/-- The size that is counted is that of the open file, and zero without one. -/
def Counted (conn : UserConn) : Prop := conn.fileSize = conn.fileContent.length

theorem Counted.of_same (counted : conn.Counted) (size : after.fileSize = conn.fileSize)
    (fd : after.fileFd = conn.fileFd) : after.Counted := by
  unfold Counted fileContent at *
  rw [size, fd, counted]

theorem Counted.closeFileFd (counted : conn.Counted) : conn.closeFileFd.Counted := by
  unfold UserConn.closeFileFd
  split
  · rfl
  · exact counted

theorem Counted.openBody (counted : conn.Counted) (event : OutEvent) :
    (conn.openBody order server event).1.Counted := by
  unfold UserConn.openBody
  split
  · dsimp only
    split
    · split
      · -- A directory is closed again.
        rfl
      · rfl
    · split
      · exact counted
      · exact counted
  · exact counted

theorem Counted.prepare (counted : conn.Counted) (event : OutEvent) :
    (conn.prepare order server event).1.Counted := by
  have routed : Counted { conn with rsp := routePath order server conn.req } :=
    counted.of_same rfl rfl
  exact routed.openBody event

theorem Counted.sendFileBody (sends : List Nat) {conn : UserConn} (counted : conn.Counted) :
    (conn.sendFileBody sends).1.Counted := by
  induction sends generalizing conn with
  | nil =>
      rw [UserConn.sendFileBody]
      split
      · exact Counted.closeFileFd (counted.of_same rfl rfl)
      · exact counted
  | cons accepted sends ih =>
      rw [UserConn.sendFileBody]
      split
      · exact Counted.closeFileFd (counted.of_same rfl rfl)
      · dsimp only
        split
        · exact counted
        · exact ih (counted.of_same rfl rfl)

theorem Counted.sendHeadIfDue (counted : conn.Counted)
    (ran : conn.sendHeadIfDue sends = .ok (after, sent, rest)) : after.Counted := by
  have wrapping := @sendHeadIfDue_wrapping conn after sent rest (fun _ _ => 0) sends ran
  unfold sendHeadIfDueBy at wrapping
  split at wrapping
  · obtain ⟨_, _, _, frame⟩ := @sendBaseRspBy_frame (fun _ _ => 0) sends conn
    rw [wrapping] at frame
    rw [show after = _ from frame]
    exact counted.of_same rfl rfl
  · cases wrapping
    exact counted

theorem Counted.sendBodyIfDue (counted : conn.Counted)
    (ran : conn.sendBodyIfDue sends = .ok (after, sent, rest)) : after.Counted := by
  have wrapping := @sendBodyIfDue_wrapping conn after sent rest (fun _ _ => 0) sends ran
  unfold sendBodyIfDueBy sendBodyBy at wrapping
  split at wrapping
  · split at wrapping
    · have left : (conn.sendFileBody sends).1 = after := congrArg Prod.fst wrapping
      exact left ▸ counted.sendFileBody sends
    · obtain ⟨_, _, frame⟩ := @sendBinBodyBy_frame (fun _ _ => 0) sends conn
      rw [wrapping] at frame
      rw [show after = _ from frame]
      exact counted.of_same rfl rfl
  · cases wrapping
    exact counted

theorem Counted.sendToCli {finished : Bool} (counted : conn.Counted)
    (ran : conn.sendToCli sends = .ok (after, sent, finished)) : after.Counted := by
  obtain ⟨⟨between, head, sends'⟩, sendsHead, ran⟩ := bind_eq_ok.mp ran
  obtain ⟨⟨last, body, rest⟩, sendsBody, same⟩ := bind_eq_ok.mp ran
  cases same
  exact (counted.sendHeadIfDue sendsHead).sendBodyIfDue sendsBody

theorem Counted.connStateReset (counted : conn.Counted) : (conn.connStateReset order).Counted :=
  Counted.closeFileFd (counted.of_same rfl rfl)

/-- What a call of `process_out` has done. -/
theorem processOut_did {event : OutEvent} {result : OutResult}
    (ran : conn.processOut order server event = .ok result) :
    ∃ after, (conn.prepare order server event).1.sendToCli event.sends =
        .ok (after, result.sent, result.finished) ∧
      (result.finished = false ∧ result.conn = after ∧ result.call = .modConnEventWrite ∨
        result.finished = true ∧ keepAlive after.req = true ∧
            result.conn = after.connStateReset order ∧ result.call = .modConnEventRead ∨
          result.finished = true ∧ keepAlive after.req = false ∧ result.conn = after ∧
            result.call = .connClose) := by
  obtain ⟨⟨after, sent, finished⟩, sends, ran⟩ := bind_eq_ok.mp ran
  dsimp only at ran
  cases finished with
  | false =>
      cases ran
      exact ⟨after, sends, .inl ⟨rfl, rfl, rfl⟩⟩
  | true =>
      rw [Bool.not_true, if_neg Bool.false_ne_true] at ran
      split at ran
      · rename_i keep
        cases ran
        exact ⟨after, sends, .inr (.inl ⟨rfl, keep, rfl, rfl⟩)⟩
      · rename_i drop
        cases ran
        exact ⟨after, sends, .inr (.inr ⟨rfl, Bool.eq_false_of_not_eq_true drop, rfl, rfl⟩)⟩

theorem Counted.processOut (counted : conn.Counted) {event : OutEvent} {result : OutResult}
    (ran : conn.processOut order server event = .ok result) : result.conn.Counted := by
  obtain ⟨after, sends, did⟩ := processOut_did ran
  have kept : after.Counted := (counted.prepare event).sendToCli sends
  rcases did with ⟨-, left, -⟩ | ⟨-, -, left, -⟩ | ⟨-, -, left, -⟩
  · exact left ▸ kept
  · exact left ▸ kept.connStateReset
  · exact left ▸ kept

theorem Counted.outRun (events : List OutEvent) {conn : UserConn} (counted : conn.Counted)
    {run : OutRun} (ran : conn.outRun order server events = .ok run) : run.conn.Counted := by
  induction events generalizing conn run with
  | nil =>
      cases ran
      exact counted
  | cons event later ih =>
      obtain ⟨result, out, rest⟩ := bind_eq_ok.mp ran
      have kept := counted.processOut out
      split at rest
      · cases rest
        exact kept
      · obtain ⟨run', later', same⟩ := bind_eq_ok.mp rest
        cases same
        have last : run'.conn.Counted := ih kept later'
        exact last

/-! ## What one call adds -/

/-- What a loop of `send` left: it sent something, or there was nothing left to send. -/
theorem chunk_ne_nil {text : Bytes} {pos count : Nat} (short : pos < text.length) (some : count ≠ 0) :
    (text.drop pos).take count ≠ [] := by
  intro empty
  have none := congrArg List.length empty
  rw [List.length_take, List.length_drop, List.length_nil] at none
  omega

theorem remain_spec {size sent left : Nat} (ran : remain size sent = .ok left) :
    sent ≤ size ∧ left = size - sent := by
  unfold remain at ran
  split at ran
  · cases ran
  · rename_i within
    cases ran
    exact ⟨Nat.le_of_not_lt within, rfl⟩

theorem sendBaseRsp_advances (positive : 0 < accepted)
    (ran : conn.sendBaseRsp (accepted :: sends) = .ok (after, sent, rest)) :
    sent ≠ [] ∨ sent = [] ∧ after.baseRspSnd = true ∧ rest = accepted :: sends := by
  rw [sendBaseRsp, sendBaseRspBy] at ran
  obtain ⟨left, remains, ran⟩ := bind_eq_ok.mp ran
  obtain ⟨within, rfl⟩ := remain_spec remains
  split at ran
  · cases ran
    exact .inr ⟨rfl, rfl, rfl⟩
  · rename_i some
    have enough : min accepted (conn.rsp.getBaseRsp.baseRsp.length - conn.rspBaseSndBytes) ≠ 0 :=
      Nat.ne_of_gt (Nat.lt_min.mpr ⟨positive, Nat.pos_of_ne_zero some⟩)
    dsimp only at ran
    rw [if_neg enough] at ran
    obtain ⟨⟨last, sent', rest'⟩, -, same⟩ := bind_eq_ok.mp ran
    cases same
    exact .inl (List.append_ne_nil_of_left_ne_nil
      (chunk_ne_nil (Nat.lt_of_sub_pos (Nat.pos_of_ne_zero some)) enough) _)

theorem sendBinBody_advances (positive : 0 < accepted)
    (ran : conn.sendBinBody (accepted :: sends) = .ok (after, sent, rest)) :
    sent ≠ [] ∨ after.bodySnd = true := by
  rw [sendBinBody, sendBinBodyBy] at ran
  obtain ⟨left, remains, ran⟩ := bind_eq_ok.mp ran
  obtain ⟨within, rfl⟩ := remain_spec remains
  split at ran
  · cases ran
    exact .inr rfl
  · rename_i some
    have enough : min accepted (conn.rsp.body.length - conn.rspBodySndBytes) ≠ 0 :=
      Nat.ne_of_gt (Nat.lt_min.mpr ⟨positive, Nat.pos_of_ne_zero some⟩)
    dsimp only at ran
    rw [if_neg enough] at ran
    obtain ⟨⟨last, sent', rest'⟩, -, same⟩ := bind_eq_ok.mp ran
    cases same
    exact .inl (List.append_ne_nil_of_left_ne_nil
      (chunk_ne_nil (Nat.lt_of_sub_pos (Nat.pos_of_ne_zero some)) enough) _)

theorem closeFileFd_bodySnd : conn.closeFileFd.bodySnd = conn.bodySnd := by
  unfold closeFileFd
  split <;> rfl

theorem sendFileBody_advances (counted : conn.Counted) (positive : 0 < accepted)
    (ran : conn.sendFileBody (accepted :: sends) = (after, sent, rest)) :
    sent ≠ [] ∨ after.bodySnd = true := by
  rw [sendFileBody] at ran
  split at ran
  · cases ran
    exact .inr closeFileFd_bodySnd
  · rename_i short
    have window : 0 < httpFileChunkSize := by decide
    have chunk : conn.fileChunk (min accepted
        (min (conn.fileSize - conn.rspBodySndBytes) httpFileChunkSize)) ≠ [] := by
      unfold Counted fileContent at counted
      unfold fileChunk
      cases fd : conn.fileFd with
      | none =>
          rw [fd] at counted
          dsimp only [List.length_nil] at counted
          omega
      | some file =>
          rw [fd] at counted
          dsimp only at counted ⊢
          exact chunk_ne_nil (by omega) (by omega)
    dsimp only at ran
    rw [if_neg chunk] at ran
    cases ran
    exact .inl (List.append_ne_nil_of_left_ne_nil chunk _)

theorem sendBody_advances (counted : conn.Counted) (positive : 0 < accepted)
    (ran : conn.sendBody (accepted :: sends) = .ok (after, sent, rest)) :
    sent ≠ [] ∨ after.bodySnd = true := by
  unfold sendBody sendBodyBy at ran
  split at ran
  · exact sendFileBody_advances counted positive (Except.ok.inj ran)
  · exact sendBinBody_advances positive ran

theorem closeFileFd_baseRspSnd : conn.closeFileFd.baseRspSnd = conn.baseRspSnd := by
  unfold closeFileFd
  split <;> rfl

theorem sendFileBody_baseRspSnd (sends : List Nat) (conn : UserConn) :
    (conn.sendFileBody sends).1.baseRspSnd = conn.baseRspSnd := by
  induction sends generalizing conn with
  | nil =>
      rw [sendFileBody]
      split
      · exact closeFileFd_baseRspSnd
      · rfl
  | cons accepted sends ih =>
      rw [sendFileBody]
      split
      · exact closeFileFd_baseRspSnd
      · dsimp only
        split
        · rfl
        · exact ih _

theorem sendBody_baseRspSnd (ran : conn.sendBody sends = .ok (after, sent, rest)) :
    after.baseRspSnd = conn.baseRspSnd := by
  have wrapping := @sendBody_wrapping conn after sent rest (fun _ _ => 0) sends ran
  unfold sendBodyBy at wrapping
  split at wrapping
  · have left : (conn.sendFileBody sends).1 = after := congrArg Prod.fst wrapping
    exact left ▸ sendFileBody_baseRspSnd sends conn
  · obtain ⟨_, _, frame⟩ := @sendBinBodyBy_frame (fun _ _ => 0) sends conn
    rw [wrapping] at frame
    rw [show after = _ from frame]

/-- A call that does not finish a response sends something of it. -/
theorem sendToCli_advances (counted : conn.Counted) (positive : 0 < accepted)
    (ran : conn.sendToCli (accepted :: sends) = .ok (after, sent, false)) : sent ≠ [] := by
  unfold sendToCli at ran
  obtain ⟨⟨between, head, sends'⟩, sendsHead, ran⟩ := bind_eq_ok.mp ran
  obtain ⟨⟨last, body, rest⟩, sendsBody, same⟩ := bind_eq_ok.mp ran
  dsimp only at sendsBody same
  obtain ⟨rfl, rfl, unfinished⟩ : last = after ∧ head ++ body = sent ∧
      (last.baseRspSnd && last.bodySnd) = false := by
    simpa [pure, Except.pure] using same
  -- Without a byte of the head, the head was out and the body has its turn with all results.
  have turn : head ≠ [] ∨ between.baseRspSnd = true ∧ sends' = accepted :: sends ∧
      between.Counted := by
    have counted' := counted.sendHeadIfDue sendsHead
    unfold sendHeadIfDueBy at sendsHead
    split at sendsHead
    · rcases sendBaseRsp_advances positive sendsHead with some | ⟨-, done, all⟩
      · exact .inl some
      · exact .inr ⟨done, all, counted'⟩
    · rename_i done
      cases sendsHead
      exact .inr ⟨by simpa using done, rfl, counted⟩
  rcases turn with some | ⟨headDone, rfl, counted'⟩
  · exact List.append_ne_nil_of_left_ne_nil some _
  · unfold sendBodyIfDueBy at sendsBody
    rw [headDone, Bool.true_and] at sendsBody
    have kept : last.baseRspSnd = true := by
      split at sendsBody
      · exact (sendBody_baseRspSnd sendsBody).trans headDone
      · cases sendsBody
        exact headDone
    rw [kept, Bool.true_and] at unfinished
    split at sendsBody
    · refine List.append_ne_nil_of_right_ne_nil _ ?_
      exact (sendBody_advances counted' positive sendsBody).resolve_right (by simp [unfinished])
    · rename_i done
      cases sendsBody
      rw [unfinished] at done
      exact absurd rfl done

theorem processOut_advances (counted : conn.Counted) {event : OutEvent} (takes : 0 < taken event.sends)
    {result : OutResult} (ran : conn.processOut order server event = .ok result)
    (unfinished : result.finished = false) : 0 < result.sent.length := by
  obtain ⟨after, sends, -⟩ := processOut_did ran
  rw [unfinished] at sends
  cases results : event.sends with
  | nil => simp [taken, results] at takes
  | cons accepted later =>
      rw [results] at sends takes
      have positive : 0 < accepted := by
        rcases Nat.eq_zero_or_pos accepted with refused | positive
        · simp [taken, refused] at takes
        · exact positive
      exact List.length_pos_iff.mpr (sendToCli_advances (counted.prepare event) positive sends)

/-- As long as a run has not finished, each of its calls has sent something. -/
theorem outRun_advances (events : List OutEvent) {conn : UserConn} (counted : conn.Counted)
    (takes : ∀ event ∈ events, 0 < taken event.sends) {run : OutRun}
    (ran : conn.outRun order server events = .ok run) (unfinished : run.finished = false) :
    events.length ≤ run.sent.length := by
  induction events generalizing conn run with
  | nil => exact Nat.zero_le _
  | cons event later ih =>
      obtain ⟨result, out, rest⟩ := bind_eq_ok.mp ran
      split at rest
      · cases rest
        cases unfinished
      · rename_i more
        obtain ⟨run', later', same⟩ := bind_eq_ok.mp rest
        cases same
        have here := processOut_advances counted (takes event List.mem_cons_self) out
          (Bool.eq_false_iff.mpr more)
        have further : later.length ≤ run'.sent.length :=
          ih (counted.processOut out) (fun event member => takes event (List.mem_cons_of_mem _ member))
            later' unfinished
        rw [List.length_cons, List.length_append]
        omega

variable {outcome : Except Errno OpenFile}

/-- More calls than the answer has bytes finish it, if the socket takes something in each. -/
theorem Idle.answers_whole (idle : conn.Idle) (counted : conn.Counted) {events : List OutEvent}
    (undisturbed : Undisturbed order server conn.req outcome events)
    (takes : ∀ event ∈ events, 0 < taken event.sends)
    (enough : (answerText order server conn.req outcome).length < events.length) :
    ∃ run, conn.outRun order server events = .ok run ∧ run.finished = true ∧
      run.sent = answerText order server conn.req outcome := by
  obtain ⟨run, ran, inOrder, all⟩ := idle.answers undisturbed
  have finished : run.finished = true := by
    by_contra unfinished
    have sent := outRun_advances events counted takes ran (Bool.eq_false_iff.mpr unfinished)
    have bound := inOrder.length_le
    omega
  exact ⟨run, ran, finished, all finished⟩

end UserConn

end LiteWebServer
