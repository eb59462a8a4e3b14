import LiteWebServer.UserConn.Sending

namespace LiteWebServer

open Data

namespace UserConn

/-! Sending a response with a body in memory over any number of calls, each of which
builds the response anew. -/

variable {conn : UserConn}

/-! ## The body -/

/-- The connection after `k` more bytes of a body in memory have gone out. -/
def binSent (conn : UserConn) (k : Nat) : UserConn :=
  { conn with
    rspBodySndBytes := conn.rspBodySndBytes + k,
    bodySnd := decide (conn.rspBodySndBytes + k = conn.rsp.body.length) }

theorem binSent_zero (unsent : conn.bodySnd = false)
    (short : conn.rspBodySndBytes < conn.rsp.body.length) : conn.binSent 0 = conn := by
  rw [binSent, Nat.add_zero, decide_eq_false (Nat.ne_of_lt short), ← unsent]

theorem sendBinBody_done (sends : List Nat) (done : conn.rspBodySndBytes = conn.rsp.body.length) :
    conn.sendBinBody sends = .ok (conn.binSent 0, [], sends) := by
  cases sends <;>
    simp only [sendBinBodyBy, Reach.guarded_remain, done, remain_of_le (Nat.le_refl _), bind, Except.bind,
      Nat.sub_self, if_true, pure, Except.pure, binSent, Nat.add_zero, decide_true]

theorem sendBinBody_nil (unsent : conn.bodySnd = false)
    (short : conn.rspBodySndBytes < conn.rsp.body.length) :
    conn.sendBinBody [] = .ok (conn.binSent 0, [], []) := by
  have some : conn.rsp.body.length - conn.rspBodySndBytes ≠ 0 := by omega
  rw [binSent_zero unsent short]
  simp only [sendBinBodyBy, Reach.guarded_remain, remain_of_le (Nat.le_of_lt short), bind, Except.bind,
    if_neg some, pure, Except.pure]

theorem sendBinBody_refused (sends : List Nat) (unsent : conn.bodySnd = false)
    (short : conn.rspBodySndBytes < conn.rsp.body.length) :
    conn.sendBinBody (0 :: sends) = .ok (conn.binSent 0, [], sends) := by
  have some : conn.rsp.body.length - conn.rspBodySndBytes ≠ 0 := by omega
  rw [binSent_zero unsent short]
  simp only [sendBinBodyBy, Reach.guarded_remain, remain_of_le (Nat.le_of_lt short), bind, Except.bind,
    if_neg some, Nat.zero_min, if_true, pure, Except.pure]

theorem sendBinBody_accepted {accepted m : Nat} (sends : List Nat)
    (amount : min accepted (conn.rsp.body.length - conn.rspBodySndBytes) = m) (positive : 0 < m)
    {after : UserConn} {sent : Bytes} {rest : List Nat}
    (next : { conn with rspBodySndBytes := conn.rspBodySndBytes + m }.sendBinBody sends =
      .ok (after, sent, rest)) :
    conn.sendBinBody (accepted :: sends) =
      .ok (after, (conn.rsp.body.drop conn.rspBodySndBytes).take m ++ sent, rest) := by
  have some : conn.rsp.body.length - conn.rspBodySndBytes ≠ 0 := by omega
  simp only [sendBinBodyBy, Reach.guarded_remain, Reach.guarded_take,
    remain_of_le (by omega : conn.rspBodySndBytes ≤ conn.rsp.body.length), bind, Except.bind,
    if_neg some, amount, if_neg (Nat.ne_of_gt positive), next, pure, Except.pure]

/-- One call of `send_body` sends the next bytes of the body. -/
theorem sendBinBody_spec (sends : List Nat) {conn : UserConn} (unsent : conn.bodySnd = false)
    (within : conn.rspBodySndBytes ≤ conn.rsp.body.length) :
    ∃ k rest, conn.sendBinBody sends =
        .ok (conn.binSent k, (conn.rsp.body.drop conn.rspBodySndBytes).take k, rest) ∧
      conn.rspBodySndBytes + k ≤ conn.rsp.body.length := by
  induction sends generalizing conn with
  | nil =>
      refine ⟨0, [], ?_, within⟩
      rcases Nat.eq_or_lt_of_le within with done | short
      · rw [sendBinBody_done [] done, List.take_zero]
      · rw [sendBinBody_nil unsent short, List.take_zero]
  | cons accepted sends ih =>
      rcases Nat.eq_or_lt_of_le within with done | short
      · exact ⟨0, accepted :: sends, by rw [sendBinBody_done _ done, List.take_zero], within⟩
      · by_cases refused : accepted = 0
        · subst accepted
          refine ⟨0, sends, ?_, within⟩
          rw [sendBinBody_refused sends unsent short, List.take_zero]
        · let m := min accepted (conn.rsp.body.length - conn.rspBodySndBytes)
          have amount : min accepted (conn.rsp.body.length - conn.rspBodySndBytes) = m := rfl
          have positive : 0 < m := by omega
          let next : UserConn := { conn with rspBodySndBytes := conn.rspBodySndBytes + m }
          have offset : next.rspBodySndBytes = conn.rspBodySndBytes + m := rfl
          have body : next.rsp.body = conn.rsp.body := rfl
          obtain ⟨k, rest, sent, bound⟩ := @ih next unsent (by rw [offset, body]; omega)
          rw [offset, body] at sent bound
          refine ⟨m + k, rest, ?_, by omega⟩
          rw [sendBinBody_accepted sends amount positive sent, ← List.drop_drop, ← List.take_add]
          simp only [binSent, next, Nat.add_assoc]

/-! ## One call -/

/-- A response with a body in memory under way: `sent` has gone out so far, and it is
the beginning of `head` and `body`. -/
structure Delivering (head body : Bytes) (conn : UserConn) (sent : Bytes) : Prop where
  fd : conn.fileFd = none
  bodySnd : conn.bodySnd = false
  inHead : conn.baseRspSnd = false → conn.rspBodySndBytes = 0 ∧
    conn.rspBaseSndBytes ≤ head.length ∧ sent = head.take conn.rspBaseSndBytes
  inBody : conn.baseRspSnd = true → conn.rspBodySndBytes ≤ body.length ∧
    sent = head ++ body.take conn.rspBodySndBytes

variable {head body sent : Bytes}

theorem Delivering.isPrefix (state : Delivering head body conn sent) : sent <+: head ++ body := by
  cases headDone : conn.baseRspSnd with
  | false =>
      rw [(state.inHead headDone).2.2]
      exact (List.take_prefix _ _).trans (List.prefix_append _ _)
  | true =>
      rw [(state.inBody headDone).2]
      exact (List.prefix_append_right_inj head).mpr (List.take_prefix _ _)

theorem Delivering.sendBody (state : Delivering head body conn sent)
    (headDone : conn.baseRspSnd = true) (inMemory : conn.rsp.bodyIsFile = false)
    (same : conn.rsp.body = body) (sends : List Nat) :
    ∃ after new rest, conn.sendBody sends = .ok (after, new, rest) ∧ after.req = conn.req ∧
      after.baseRspSnd = true ∧
      (after.bodySnd = true → sent ++ new = head ++ body) ∧
      (after.bodySnd = false → Delivering head body after (sent ++ new)) := by
  obtain ⟨within, soFar⟩ := state.inBody headDone
  rw [← same] at within
  obtain ⟨k, rest, loop, bound⟩ := sendBinBody_spec sends state.bodySnd within
  rw [same] at loop bound
  have joined : sent ++ (body.drop conn.rspBodySndBytes).take k =
      head ++ body.take (conn.rspBodySndBytes + k) := by
    rw [soFar, List.append_assoc, ← List.take_add]
  have notFile : ¬ conn.rsp.bodyIsFile = true := by simp [inMemory]
  refine ⟨conn.binSent k, _, rest, (if_neg notFile).trans loop, rfl, headDone, fun done => ?_,
    fun more => ?_⟩
  · have last : conn.rspBodySndBytes + k = body.length := same ▸ of_decide_eq_true done
    rw [joined, last, List.take_length]
  · constructor
    · exact state.fd
    · exact more
    · intro notDone
      exact absurd (headDone.symm.trans notDone) (by simp)
    · exact fun _ => ⟨bound, joined⟩

theorem Delivering.sendToCli (state : Delivering head body conn sent)
    (inMemory : conn.rsp.bodyIsFile = false) (sameHead : conn.rsp.head = head)
    (sameBody : conn.rsp.body = body) (small : head.length < 2 ^ 32) (sends : List Nat) :
    ∃ after new, conn.sendToCli sends = .ok (after, new, after.bodySnd) ∧ after.req = conn.req ∧
      (after.bodySnd = true → sent ++ new = head ++ body) ∧
      (after.bodySnd = false → Delivering head body after (sent ++ new)) := by
  cases headDone : conn.baseRspSnd with
  | true =>
      obtain ⟨after, new, rest, loop, req, base, full, more⟩ :=
        state.sendBody headDone inMemory sameBody sends
      refine ⟨after, new, ?_, req, full, more⟩
      simp [UserConn.sendToCli, sendToCliBy, sendHeadIfDueBy, sendBodyIfDueBy, headDone, state.bodySnd, loop, base,
        bind, Except.bind, pure, Except.pure]
  | false =>
      obtain ⟨noBody, within, soFar⟩ := state.inHead headDone
      obtain ⟨k, rest, loop, bound, joined, base, -⟩ :=
        sendHeadIfDue_spec headDone sameHead small within soFar sends
      have state' : Delivering head body (conn.headSent k)
          (sent ++ (head.drop conn.rspBaseSndBytes).take k) := by
        constructor
        · exact state.fd
        · exact state.bodySnd
        · exact fun _ => ⟨noBody, bound, joined⟩
        · intro done
          have last : conn.rspBaseSndBytes + k = head.length := of_decide_eq_true (base ▸ done)
          have start : (conn.headSent k).rspBodySndBytes = 0 := noBody
          rw [start, joined, last, List.take_length, List.take_zero, List.append_nil]
          exact ⟨Nat.zero_le _, rfl⟩
      cases headSent : (conn.headSent k).baseRspSnd with
      | true =>
          obtain ⟨after, new, rest', body', req, base', full, more⟩ :=
            state'.sendBody headSent (HttpResponse.getBaseRsp_bodyIsFile.trans inMemory)
              (HttpResponse.getBaseRsp_body.trans sameBody) rest
          rw [List.append_assoc] at full more
          refine ⟨after, _, ?_, req, full, more⟩
          simp [UserConn.sendToCli, sendToCliBy, sendBodyIfDueBy, loop, headSent, state'.bodySnd, body', base', bind,
            Except.bind, pure, Except.pure]
      | false =>
          refine ⟨conn.headSent k, _, ?_, rfl, fun done => ?_, fun _ => state'⟩
          · simp [UserConn.sendToCli, sendToCliBy, sendBodyIfDueBy, loop, headSent, state'.bodySnd, bind,
              Except.bind, pure, Except.pure]
          · exact absurd (done.symm.trans state'.bodySnd) (by simp)

/-! ## All calls -/

variable {order : HashOrder Bytes Bytes} {server : Server} {event : OutEvent}
  {outcome : Except Errno OpenFile}

/-- The response of a call in which `open` and `fstat` give `outcome`, if it opens a file. -/
def chosen (order : HashOrder Bytes Bytes) (server : Server) (conn : UserConn)
    (outcome : Except Errno OpenFile) : HttpResponse :=
  (conn.prepare order server ⟨fun _ => outcome, [], fun _ _ => 0⟩).1.rsp

/-- Without an open file, a call whose response is in memory chooses it by the request
and the outcome alone, and leaves no file open. -/
theorem prepare_inMemory (closed : conn.fileFd = none)
    (opens : event.opens (fileName order server conn.req) = outcome)
    (inMemory : (chosen order server conn outcome).bodyIsFile = false) :
    ∃ fileSize opened, conn.prepare order server event =
      ({ conn with rsp := chosen order server conn outcome, fileSize }, opened) := by
  unfold fileName at opens
  cases routed : (routePath order server conn.req).bodyIsFile with
  | false =>
      refine ⟨conn.fileSize, none, ?_⟩
      simp [chosen, prepare, openBody, routed]
  | true =>
      cases outcome with
      | error errno =>
          refine ⟨conn.fileSize, some (fileName order server conn.req), ?_⟩
          simp only [chosen, prepare, openBody, routed, closed, and_self, if_true, opens, fileName]
          split <;> rfl
      | ok file =>
          cases isDir : file.isDir with
          | true =>
              refine ⟨0, some (fileName order server conn.req), ?_⟩
              simp [chosen, prepare, openBody, routed, closed, opens, isDir, fileName, closeFileFd]
          | false =>
              simp [chosen, prepare, openBody, routed, closed, isDir,
                (HttpResponse.headerOper_body _ _ _).2] at inMemory

/-- Without an open file, the response chosen depends on the request and the outcome alone. -/
theorem chosen_eq (closed : conn.fileFd = none) :
    chosen order server conn outcome =
      if (routePath order server conn.req).bodyIsFile = true then
        match outcome with
        | .ok file =>
            if file.isDir = true then server.errHandler .movedPermanently (by decide) conn.req
            else
              (routePath order server conn.req).headerOper order .modify (bytes "Content-Length")
                (decimal file.content.length)
        | .error errno =>
            if errno = .enoent then server.errHandler .notFound (by decide) conn.req
            else server.errHandler .internalServerError (by decide) conn.req
      else routePath order server conn.req := by
  cases routed : (routePath order server conn.req).bodyIsFile with
  | false => simp [chosen, prepare, openBody, routed]
  | true =>
      cases outcome with
      | error errno =>
          simp only [chosen, prepare, openBody, routed, closed, and_self, if_true]
          split <;> rfl
      | ok file =>
          cases isDir : file.isDir <;>
            simp [chosen, prepare, openBody, routed, closed, isDir, closeFileFd]

/-- What the calls send is the head and then the body, each byte once and in order. -/
def Delivers (order : HashOrder Bytes Bytes) (server : Server) (conn : UserConn) (head body : Bytes)
    (events : List OutEvent) : Prop :=
  ∃ run, conn.outRun order server events = .ok run ∧ run.sent <+: head ++ body ∧
    (run.finished = true → run.sent = head ++ body)

theorem Delivering.delivers (later : List OutEvent) {conn : UserConn} {sent : Bytes}
    (state : Delivering (chosen order server conn outcome).head
      (chosen order server conn outcome).body conn sent)
    (inMemory : (chosen order server conn outcome).bodyIsFile = false)
    (small : (chosen order server conn outcome).head.length < 2 ^ 32)
    (again : ∀ event ∈ later, event.opens (fileName order server conn.req) = outcome) :
    ∃ run, conn.outRun order server later = .ok run ∧
      sent ++ run.sent <+:
        (chosen order server conn outcome).head ++ (chosen order server conn outcome).body ∧
      (run.finished = true → sent ++ run.sent =
        (chosen order server conn outcome).head ++ (chosen order server conn outcome).body) := by
  induction later generalizing conn sent with
  | nil =>
      refine ⟨_, rfl, ?_, nofun⟩
      rw [List.append_nil]
      exact state.isPrefix
  | cons event later ih =>
      obtain ⟨fileSize, opened, prepares⟩ :=
        prepare_inMemory state.fd (again event List.mem_cons_self) inMemory
      have prepared : Delivering (chosen order server conn outcome).head
          (chosen order server conn outcome).body
          { conn with rsp := chosen order server conn outcome, fileSize } sent :=
        ⟨state.fd, state.bodySnd, state.inHead, state.inBody⟩
      obtain ⟨after, new, sends, req, full, more⟩ :=
        prepared.sendToCli inMemory rfl rfl small event.sends
      obtain ⟨result, out, resultSent, resultFinished, resultConn⟩ := processOut_sent prepares sends
      cases done : after.bodySnd with
      | true =>
          have finished : result.finished = true := resultFinished.trans done
          refine ⟨⟨result.conn, result.sent, true⟩, ?_, ?_, fun _ => ?_⟩
          · simp [UserConn.outRun, out, finished, bind, Except.bind, pure, Except.pure]
          · rw [resultSent, full done]
          · rw [resultSent, full done]
      | false =>
          have unfinished : result.finished = false := resultFinished.trans done
          have state' := more done
          have same : chosen order server after outcome = chosen order server conn outcome := by
            rw [chosen_eq state.fd, chosen_eq state'.fd, req]
          rw [← same] at state' inMemory small
          obtain ⟨run, runs, inOrder, whole⟩ := ih state' inMemory small fun event member => by
            rw [req]
            exact again event (List.mem_cons_of_mem _ member)
          rw [List.append_assoc, same] at inOrder whole
          refine ⟨⟨run.conn, result.sent ++ run.sent, run.finished⟩, ?_, ?_, ?_⟩
          · simp [UserConn.outRun, out, unfinished, resultConn done, runs, bind, Except.bind, pure,
              Except.pure]
          · rwa [resultSent]
          · rwa [resultSent]

theorem Idle.delivering (idle : conn.Idle) (head body : Bytes) : Delivering head body conn [] where
  fd := idle.fileFd
  bodySnd := idle.bodySnd
  inHead _ := by
    rw [idle.rspBaseSndBytes, List.take_zero]
    exact ⟨idle.rspBodySndBytes, Nat.zero_le _, rfl⟩
  inBody done := absurd (idle.baseRspSnd.symm.trans done) Bool.false_ne_true

/-! ## A head too long for its counter -/

/-- The counter of the bytes of the head never reaches the end of such a head, and every
positive result sends another byte. -/
theorem sendBaseRsp_endless (sends : List Nat) {conn : UserConn} (unsent : conn.baseRspSnd = false)
    (huge : 2 ^ 32 ≤ conn.rsp.head.length) (wrapped : conn.rspBaseSndBytes < 2 ^ 32) :
    ∃ after sent rest, conn.sendBaseRsp sends = .ok (after, sent, rest) ∧
      after.baseRspSnd = false ∧ ((∀ accepted ∈ sends, 0 < accepted) → sends.length ≤ sent.length) := by
  have short : conn.rspBaseSndBytes < conn.rsp.head.length := Nat.lt_of_lt_of_le wrapped huge
  induction sends generalizing conn with
  | nil => exact ⟨conn.rendered, [], [], sendBaseRsp_nil short, unsent, fun _ => Nat.le_refl _⟩
  | cons accepted sends ih =>
      by_cases refused : accepted = 0
      · subst accepted
        refine ⟨conn.rendered, [], sends, sendBaseRsp_refused sends short, unsent, fun all => ?_⟩
        exact absurd (all 0 List.mem_cons_self) (Nat.lt_irrefl 0)
      · let m := min accepted (conn.rsp.head.length - conn.rspBaseSndBytes)
        let next : UserConn :=
          { conn.rendered with rspBaseSndBytes := u32 (conn.rspBaseSndBytes + m) }
        have sameHead : next.rsp.head = conn.rsp.head := HttpResponse.getBaseRsp_head
        have below : next.rspBaseSndBytes < 2 ^ 32 := Nat.mod_lt _ (Nat.two_pow_pos 32)
        obtain ⟨after, sent, rest, loop, base, grows⟩ := @ih next unsent (sameHead ▸ huge) below
          (sameHead ▸ Nat.lt_of_lt_of_le below huge)
        have some : conn.rsp.head.length - conn.rspBaseSndBytes ≠ 0 := by omega
        have positive : m ≠ 0 := by omega
        refine ⟨after, (conn.rsp.head.drop conn.rspBaseSndBytes).take m ++ sent, rest, ?_, base,
          fun all => ?_⟩
        · simp only [next, rendered, sendBaseRsp] at loop
          simp only [sendBaseRspBy, Reach.guarded_remain, Reach.guarded_take,
            HttpResponse.getBaseRsp_baseRsp, remain_of_le (Nat.le_of_lt short), bind, Except.bind,
            if_neg some]
          rw [if_neg positive, loop]
          rfl
        · have rest := grows fun accepted member => all accepted (List.mem_cons_of_mem _ member)
          simp only [List.length_cons, List.length_append, List.length_take, List.length_drop]
          omega

theorem Idle.floods (idle : conn.Idle)
    (inMemory : (chosen order server conn outcome).bodyIsFile = false)
    (huge : 2 ^ 32 ≤ (chosen order server conn outcome).head.length) (head body : Bytes) :
    ∃ events, (∀ event ∈ events, event.opens (fileName order server conn.req) = outcome) ∧
      ¬ Delivers order server conn head body events := by
  let event : OutEvent := ⟨fun _ => outcome, List.replicate (head.length + body.length + 1) 1, fun _ _ => 0⟩
  refine ⟨[event], fun other member => by rw [List.mem_singleton.mp member], fun delivers => ?_⟩
  obtain ⟨fileSize, opened, prepares⟩ :=
    @prepare_inMemory conn order server event outcome idle.fileFd rfl inMemory
  let prepared : UserConn := { conn with rsp := chosen order server conn outcome, fileSize }
  have unsent : prepared.baseRspSnd = false := idle.baseRspSnd
  obtain ⟨after, sent, rest, loop, base, grows⟩ :=
    sendBaseRsp_endless event.sends unsent huge
      (by change conn.rspBaseSndBytes < _; rw [idle.rspBaseSndBytes]; decide)
  have sends : prepared.sendToCli event.sends = .ok (after, sent, false) := by
    simp [sendToCli, sendToCliBy, sendHeadIfDueBy, sendBodyIfDueBy, unsent, loop, base, bind, Except.bind, pure,
      Except.pure]
  obtain ⟨result, out, resultSent, unfinished, -⟩ := processOut_sent prepares sends
  obtain ⟨run, ran, inOrder, -⟩ := delivers
  have whole : run.sent = sent := by
    simp only [outRun, out, unfinished, bind, Except.bind, Bool.false_eq_true, if_false, pure,
      Except.pure, Except.ok.injEq] at ran
    rw [← ran, resultSent, List.append_nil]
  have length := inOrder.length_le
  have positive : ∀ accepted ∈ event.sends, 0 < accepted := fun accepted member => by
    rw [List.eq_of_mem_replicate member]
    exact Nat.one_pos
  have enough := grows positive
  rw [List.length_replicate] at enough
  rw [whole, List.length_append] at length
  omega

/-- A response in memory goes out right in every run exactly when the counter can hold
the length of its head. -/
theorem in_memory_sent_iff (idle : conn.Idle)
    (inMemory : (chosen order server conn outcome).bodyIsFile = false) :
    (∀ events, (∀ event ∈ events, event.opens (fileName order server conn.req) = outcome) →
      Delivers order server conn (chosen order server conn outcome).head
        (chosen order server conn outcome).body events) ↔
      (chosen order server conn outcome).head.length < 2 ^ 32 := by
  constructor
  · intro all
    by_contra long
    obtain ⟨events, same, lost⟩ := idle.floods inMemory (Nat.not_lt.mp long) _ _
    exact lost (all events same)
  · intro small events same
    exact (idle.delivering _ _).delivers events inMemory small same

/-- The page that says that a file is not there, in two calls. -/
theorem not_found_delivered :
    Delivers (.front Bytes Bytes) pageServer pageConn
      (chosen (.front Bytes Bytes) pageServer pageConn (.error .enoent)).head
      (chosen (.front Bytes Bytes) pageServer pageConn (.error .enoent)).body
      [⟨fun _ => .error .enoent, [20], fun _ _ => 0⟩, ⟨fun _ => .error .enoent, [1000, 1000], fun _ _ => 0⟩] :=
  (in_memory_sent_iff ⟨rfl, rfl, rfl, rfl, rfl⟩ rfl).mpr (by decide +kernel) _ (by simp)

/-- A handler that sets a header with a value of `size` bytes. -/
def longHeader (size : Nat) (req : HttpRequest) : HttpResponse :=
  ((HttpResponse.ofRequest (.front Bytes Bytes) req).headerOper (.front Bytes Bytes) .add
    (bytes "X-Long") (List.replicate size 97)).setNoBody (.front Bytes Bytes)

theorem length_longHeader (size : Nat) (req : HttpRequest) :
    size ≤ (longHeader size req).head.length := by
  have found : (longHeader size req).getHeader (bytes "X-Long") = some (List.replicate size 97) := by
    rw [longHeader, HttpResponse.setNoBody, HttpResponse.getHeader_del, if_neg (by decide),
      HttpResponse.getHeader_modify, if_neg (by decide)]
    exact (HttpResponse.getHeader_modify _ _ _).trans (if_pos rfl)
  simpa using HttpResponse.length_getHeader_le found

/-- That handler at `/a.html`. -/
def longServer (size : Nat) : Server :=
  .builtin (.front Bytes Bytes) (bytes "/www") fun path =>
    if path = bytes "/a.html" then some fun _ => some (longHeader size) else none

/-- A header of four gibibytes. -/
theorem long_head_floods :
    ∃ events, (∀ event ∈ events,
        event.opens (fileName (.front Bytes Bytes) (longServer (2 ^ 32)) pageConn.req) =
          .error .enoent) ∧
      ¬ Delivers (.front Bytes Bytes) (longServer (2 ^ 32)) pageConn
        (chosen (.front Bytes Bytes) (longServer (2 ^ 32)) pageConn (.error .enoent)).head
        (chosen (.front Bytes Bytes) (longServer (2 ^ 32)) pageConn (.error .enoent)).body events := by
  have routed (size : Nat) :
      chosen (.front Bytes Bytes) (longServer size) pageConn (.error .enoent) =
        longHeader size pageReq := by
    have route : routePath (.front Bytes Bytes) (longServer size) pageReq =
        longHeader size pageReq := by
      simp [routePath, longServer, Server.builtin, pageReq, HttpRequest.fresh]
    have inMemory : ¬ (longHeader size pageReq).bodyIsFile = true := by
      simp [longHeader, HttpResponse.setNoBody_body.2]
    rw [chosen_eq rfl]
    change (if (routePath _ _ pageReq).bodyIsFile = true then _ else routePath _ _ pageReq) = _
    rw [route, if_neg inMemory]
  refine Idle.floods ⟨rfl, rfl, rfl, rfl, rfl⟩ ?_ ?_ _ _
  · rw [routed]
    exact HttpResponse.setNoBody_body.2
  · rw [routed]
    exact length_longHeader _ _

end UserConn

end LiteWebServer
