import LiteWebServer.UserConn.Answers
import LiteWebServer.UserConn.Handlers
import LiteWebServer.UserConn.InMemory
import LiteWebServer.UserConn.Input

namespace LiteWebServer

open Data

/-! Whether the announced length of a response is the length of what follows its head. -/

namespace HandlerCall

/-- The call leaves the body and its announced length alone. -/
def leavesBody : HandlerCall → Bool
  | .setCode _ => true
  | .headerOper .clear _ _ => false
  | .headerOper _ key _ => key ≠ bytes "Content-Length"
  | _ => false

def setsBody : HandlerCall → Bool
  | .setBodyFile _ _ _ | .setBodyBin _ _ _ | .setNoBody => true
  | _ => false

/-- One call that sets the body, among others that leave it alone. -/
def OneBody (calls : List HandlerCall) : Prop :=
  ∃ front body back, calls = front ++ body :: back ∧ (∀ call ∈ front, leavesBody call = true) ∧
    setsBody body = true ∧ ∀ call ∈ back, leavesBody call = true

end HandlerCall

namespace HttpResponse

def announcedLength (rsp : HttpResponse) : Option Bytes := rsp.getHeader (bytes "Content-Length")

/-- A body in memory is announced with its length, a file not at all yet. -/
structure Announced (rsp : HttpResponse) : Prop where
  file : rsp.bodyIsFile = true → rsp.announcedLength = none
  inMemory : rsp.bodyIsFile = false → rsp.announcedLength = some (decimal rsp.body.length)

variable {order : HashOrder Bytes Bytes} {rsp : HttpResponse}

theorem ofRequest_announcedLength (req : HttpRequest) :
    (ofRequest order req).announcedLength = none := by
  have initial : (initialHeaders order).lookup (bytes "Content-Length") = none := by
    simp only [initialHeaders, UnorderedMap.lookup_assign]
    rw [if_neg (by decide), if_neg (by decide), if_neg (by decide)]
    rfl
  rw [announcedLength, getHeader, ofRequest_headers]
  cases req.getHeader (bytes "Connection") with
  | none => exact initial
  | some value =>
      refine (UnorderedMap.lookup_assign _ _ _ _ _).trans ?_
      rw [if_neg (by decide)]
      exact initial

theorem updateContentType_announcedLength (type : HttpContentType) (charset : Bytes) :
    (rsp.updateContentType order type charset).announcedLength = rsp.announcedLength := by
  unfold updateContentType
  dsimp only
  split
  · exact (getHeader_del _ _ _).trans (if_neg (by decide))
  · split
    · exact (getHeader_modify _ _ _).trans (if_neg (by decide))
    · exact (getHeader_modify _ _ _).trans (if_neg (by decide))

/-- The three things that matter for the length are those of the other response. -/
structure SameLength (rsp other : HttpResponse) : Prop where
  body : rsp.body = other.body
  bodyIsFile : rsp.bodyIsFile = other.bodyIsFile
  announced : rsp.announcedLength = other.announcedLength

theorem SameLength.announced_iff {other : HttpResponse} (same : rsp.SameLength other) :
    rsp.Announced ↔ other.Announced := by
  constructor
  · intro announced
    constructor
    · rw [← same.bodyIsFile, ← same.announced]
      exact announced.file
    · rw [← same.bodyIsFile, ← same.announced, ← same.body]
      exact announced.inMemory
  · intro announced
    constructor
    · rw [same.bodyIsFile, same.announced]
      exact announced.file
    · rw [same.bodyIsFile, same.announced, same.body]
      exact announced.inMemory

end HttpResponse

namespace HandlerCall

variable {order : HashOrder Bytes Bytes} {rsp : HttpResponse}

theorem apply_leaves {call : HandlerCall} (leaves : call.leavesBody = true) :
    (call.apply order rsp).SameLength rsp := by
  cases call with
  | setCode code => exact ⟨rfl, rfl, rfl⟩
  | headerOper oper key value =>
      obtain ⟨body, isFile⟩ := @HttpResponse.headerOper_body order rsp oper key value
      refine ⟨body, isFile, ?_⟩
      cases oper with
      | clear => cases leaves
      | add =>
          exact (HttpResponse.getHeader_modify key value _).trans
            (if_neg (Ne.symm (of_decide_eq_true leaves)))
      | modify =>
          exact (HttpResponse.getHeader_modify key value _).trans
            (if_neg (Ne.symm (of_decide_eq_true leaves)))
      | del =>
          exact (@HttpResponse.getHeader_del order rsp key value _).trans
            (if_neg (Ne.symm (of_decide_eq_true leaves)))
  | setBodyFile path type charset => cases leaves
  | setBodyBin data type charset => cases leaves
  | setNoBody => cases leaves

theorem apply_all_leave (calls : List HandlerCall) (leave : ∀ call ∈ calls, leavesBody call = true)
    (rsp : HttpResponse) : (calls.foldl (HandlerCall.apply order) rsp).SameLength rsp := by
  induction calls generalizing rsp with
  | nil => exact ⟨rfl, rfl, rfl⟩
  | cons call later ih =>
      have rest := ih (fun call member => leave call (List.mem_cons_of_mem _ member))
        (call.apply order rsp)
      have first := @apply_leaves order rsp call (leave call List.mem_cons_self)
      exact ⟨rest.body.trans first.body, rest.bodyIsFile.trans first.bodyIsFile,
        rest.announced.trans first.announced⟩

theorem apply_sets {call : HandlerCall} (sets : call.setsBody = true) (empty : rsp.body = [])
    (unannounced : rsp.announcedLength = none) : (call.apply order rsp).Announced := by
  cases call with
  | setCode code => cases sets
  | headerOper oper key value => cases sets
  | setBodyFile path type charset =>
      obtain ⟨-, isFile⟩ := @HttpResponse.setBodyFile_body order rsp path type charset
      refine ⟨fun _ => ?_, fun inMemory => by simp [apply, isFile] at inMemory⟩
      exact (HttpResponse.updateContentType_announcedLength type charset).trans unannounced
  | setBodyBin data type charset =>
      obtain ⟨body, inMemory⟩ := @HttpResponse.setBodyBin_body order rsp data type charset
      refine ⟨fun isFile => by simp [apply, inMemory] at isFile, fun _ => ?_⟩
      rw [apply, body]
      exact (HttpResponse.updateContentType_announcedLength type charset).trans
        ((HttpResponse.getHeader_modify _ _ _).trans (if_pos rfl))
  | setNoBody =>
      obtain ⟨body, inMemory⟩ := @HttpResponse.setNoBody_body order rsp
      refine ⟨fun isFile => by simp [apply, inMemory] at isFile, fun _ => ?_⟩
      rw [apply, body, empty]
      rw [HttpResponse.announcedLength, HttpResponse.setNoBody, HttpResponse.getHeader_del,
        if_neg (by decide)]
      exact (HttpResponse.getHeader_modify _ _ _).trans (if_pos rfl)

/-- What a handler with one body builds. -/
theorem OneBody.announced {calls : List HandlerCall} (one : OneBody calls) (req : HttpRequest) :
    (HttpResponse.build order req calls).Announced := by
  obtain ⟨front, body, back, rfl, frontLeaves, sets, backLeaves⟩ := one
  have before := @apply_all_leave order front frontLeaves (.ofRequest order req)
  rw [HttpResponse.build, List.foldl_append, List.foldl_cons,
    (apply_all_leave back backLeaves _).announced_iff]
  exact apply_sets sets before.body
    (before.announced.trans (HttpResponse.ofRequest_announcedLength req))

end HandlerCall

namespace UserConn

variable {conn after : UserConn} {order : HashOrder Bytes Bytes} {server : Server}
  {answers : OutAnswers}

/-! ## A response that goes out in one call -/

/-- The content of the open file, of which there is none without one. -/
def fileContent (conn : UserConn) : Bytes :=
  match conn.fileFd with
  | some file => file.content
  | none => []

/-- The bytes that stand behind the head when `send_body` has sent everything: of a file as
many as are counted. -/
def bodyBytes (conn : UserConn) : Bytes :=
  if conn.rsp.bodyIsFile then conn.fileContent.take conn.fileSize else conn.rsp.body

/-- Nothing of a response has been sent, and no file is open or counted. -/
structure Unserved (conn : UserConn) : Prop extends Idle conn where
  fileSize : conn.fileSize = 0

theorem fileChunk_eq (sendBytes : Nat) :
    conn.fileChunk sendBytes = (conn.fileContent.drop conn.rspBodySndBytes).take sendBytes := by
  unfold fileChunk fileContent
  cases conn.fileFd with
  | some file => rfl
  | none => rw [List.drop_nil, List.take_nil]

theorem closeFileFd_counted (counted : conn.fileFd = none → conn.fileSize = 0) :
    conn.closeFileFd.fileSize = 0 := by
  unfold closeFileFd
  split
  · rfl
  · rename_i none
    exact counted (Classical.not_not.mp none)

/-- The loop comes to its end when it has sent as much of the file as is counted. -/
theorem sendFileBody_whole (sends : List Nat) {conn : UserConn} {sent : Bytes} {rest : List Nat}
    (unsent : conn.bodySnd = false) (within : conn.rspBodySndBytes ≤ conn.fileSize)
    (counted : conn.fileFd = none → conn.fileSize = 0)
    (ran : conn.sendFileBody sends = (after, sent, rest)) (done : after.bodySnd = true) :
    sent = (conn.fileContent.drop conn.rspBodySndBytes).take
        (conn.fileSize - conn.rspBodySndBytes) ∧
      (after.fileFd = none → after.fileSize = 0) := by
  induction sends generalizing conn sent with
  | nil =>
      unfold sendFileBody at ran
      split at ran
      · rename_i last
        cases ran
        rw [Nat.sub_eq_zero_of_le last]
        exact ⟨List.take_zero.symm, fun _ => @closeFileFd_counted { conn with bodySnd := true } counted⟩
      · cases ran
        simp [unsent] at done
  | cons accepted sends ih =>
      unfold sendFileBody at ran
      split at ran
      · rename_i last
        cases ran
        rw [Nat.sub_eq_zero_of_le last]
        exact ⟨List.take_zero.symm, fun _ => @closeFileFd_counted { conn with bodySnd := true } counted⟩
      · rename_i short
        dsimp only at ran
        split at ran
        · cases ran
          simp [unsent] at done
        · rw [fileChunk_eq] at ran
          generalize amount : min accepted
            (min (conn.fileSize - conn.rspBodySndBytes) httpFileChunkSize) = m at ran
          generalize took : (conn.fileContent.drop conn.rspBodySndBytes).take m = chunk at ran
          have width : chunk.length ≤ m := by
            rw [← took]
            exact List.length_take_le m _
          generalize loop : sendFileBody _ sends = turn at ran
          obtain ⟨after', sent', rest'⟩ := turn
          cases ran
          let next : UserConn := { conn with rspBodySndBytes := conn.rspBodySndBytes + chunk.length }
          obtain ⟨later, closed⟩ := @ih next sent' unsent
            (show conn.rspBodySndBytes + chunk.length ≤ conn.fileSize by omega) counted loop
          have cut : chunk = (conn.fileContent.drop conn.rspBodySndBytes).take chunk.length := by
            rw [← took, List.length_take, List.take_eq_take_iff]
            omega
          refine ⟨?_, closed⟩
          have split : conn.fileSize - conn.rspBodySndBytes =
              chunk.length + (conn.fileSize - (conn.rspBodySndBytes + chunk.length)) := by omega
          rw [split, List.take_add, ← cut, List.drop_drop]
          exact congrArg (chunk ++ ·) later

theorem sendBody_whole {sends rest : List Nat} {sent : Bytes} (unsent : conn.bodySnd = false)
    (start : conn.rspBodySndBytes = 0) (counted : conn.fileFd = none → conn.fileSize = 0)
    (ran : conn.sendBody sends = .ok (after, sent, rest)) (done : after.bodySnd = true) :
    sent = conn.bodyBytes ∧ (after.fileFd = none → after.fileSize = 0) := by
  unfold sendBody sendBodyBy at ran
  unfold bodyBytes
  split at ran
  · rename_i isFile
    obtain ⟨whole, closed⟩ := sendFileBody_whole sends unsent (by omega) counted
      (Except.ok.inj ran) done
    rw [start, List.drop_zero, Nat.sub_zero] at whole
    exact ⟨by rw [if_pos isFile, whole], closed⟩
  · rename_i inMemory
    rw [if_neg inMemory]
    obtain ⟨k, rest', loop, -⟩ := sendBinBody_spec sends unsent (by omega)
    rw [sendBinBody] at loop
    rw [loop, start, List.drop_zero] at ran
    cases ran
    have last : conn.rspBodySndBytes + k = conn.rsp.body.length := of_decide_eq_true done
    rw [start, Nat.zero_add] at last
    exact ⟨List.take_of_length_le (Nat.le_of_eq last.symm), counted⟩

/-- Nothing of the response has been sent. -/
structure Unbegun (conn : UserConn) : Prop where
  baseRspSnd : conn.baseRspSnd = false
  bodySnd : conn.bodySnd = false
  rspBaseSndBytes : conn.rspBaseSndBytes = 0
  rspBodySndBytes : conn.rspBodySndBytes = 0

/-- A response begun and sent in one call is not read past its end, and when the call
finishes it, its head and all that stands behind have been sent. -/
theorem Unbegun.sendToCli (unbegun : conn.Unbegun)
    (counted : conn.fileFd = none → conn.fileSize = 0) (sends : List Nat) :
    ∃ after sent finished, conn.sendToCli sends = .ok (after, sent, finished) ∧
      (finished = true → sent = conn.rsp.head ++ conn.bodyBytes ∧
        (after.fileFd = none → after.fileSize = 0)) := by
  rcases Nat.lt_or_ge conn.rsp.head.length (2 ^ 32) with small | huge
  · obtain ⟨k, rest, loop, -, joined, decided, -⟩ := sendHeadIfDue_spec unbegun.baseRspSnd rfl small
      (by rw [unbegun.rspBaseSndBytes]; exact Nat.zero_le _)
      (by rw [unbegun.rspBaseSndBytes, List.take_zero]) sends
    rw [sendHeadIfDue] at loop
    have unsent : (conn.headSent k).bodySnd = false := unbegun.bodySnd
    cases headDone : (conn.headSent k).baseRspSnd with
    | false =>
        refine ⟨conn.headSent k, (conn.rsp.head.drop conn.rspBaseSndBytes).take k ++ [], false, ?_,
          fun finished => Bool.noConfusion finished⟩
        simp only [UserConn.sendToCli, sendToCliBy, loop, bind, Except.bind, sendBodyIfDueBy, headDone,
          Bool.false_and, Bool.false_eq_true, if_false, pure, Except.pure]
    | true =>
        have all : conn.rspBaseSndBytes + k = conn.rsp.head.length :=
          of_decide_eq_true (decided.symm.trans headDone)
        rw [List.nil_append, all, List.take_length] at joined
        obtain ⟨after, sent, rest', body⟩ : ∃ after sent rest',
            (conn.headSent k).sendBody rest = .ok (after, sent, rest') := by
          unfold sendBody sendBodyBy
          split
          · exact ⟨_, _, _, rfl⟩
          · obtain ⟨k', rest', binary, -⟩ := @sendBinBody_spec rest (conn.headSent k) unsent
              (by rw [show (conn.headSent k).rspBodySndBytes = 0 from unbegun.rspBodySndBytes]
                  exact Nat.zero_le _)
            exact ⟨_, _, _, binary⟩
        refine ⟨after, conn.rsp.head ++ sent, after.baseRspSnd && after.bodySnd, ?_, fun finished => ?_⟩
        · simp only [UserConn.sendToCli, sendToCliBy, loop, bind, Except.bind, sendBodyIfDueBy, headDone,
            unsent, Bool.not_false, Bool.and_self, if_true, body, joined, pure, Except.pure]
        · obtain ⟨-, bodyDone⟩ := (Bool.and_eq_true _ _).mp finished
          obtain ⟨whole, closed⟩ :=
            sendBody_whole unsent unbegun.rspBodySndBytes counted body bodyDone
          have sameBody : (conn.headSent k).bodyBytes = conn.bodyBytes :=
            congrArg₂ (fun isFile body => if isFile = true then conn.fileContent.take conn.fileSize else body)
              HttpResponse.getBaseRsp_bodyIsFile HttpResponse.getBaseRsp_body
          exact ⟨by rw [whole, sameBody], closed⟩
  · obtain ⟨stuck, sent, rest, loop, unsent, -⟩ := sendBaseRsp_endless sends unbegun.baseRspSnd huge
      (by rw [unbegun.rspBaseSndBytes]; exact Nat.two_pow_pos 32)
    rw [sendBaseRsp] at loop
    refine ⟨stuck, sent ++ [], false, ?_, fun finished => Bool.noConfusion finished⟩
    simp only [UserConn.sendToCli, sendToCliBy, sendHeadIfDueBy, unbegun.baseRspSnd, Bool.not_false, if_true,
      loop, bind, Except.bind, sendBodyIfDueBy, unsent, Bool.false_and, Bool.false_eq_true, if_false,
      pure, Except.pure]

/-! ## What is sent -/

variable (order server)

/-- The response to `req` when `open` and `fstat` give `outcome` for its file, and the file
that stays open for it with its size. -/
def answerOf (req : HttpRequest) (outcome : Except Errno (OpenFile × Int)) :
    HttpResponse × Option (OpenFile × Int) :=
  let rsp := routePath order server req
  if rsp.bodyIsFile then
    match outcome with
    | .ok (file, size) =>
        if file.isDir then (server.errHandler .movedPermanently movedPermanently_answered req, none)
        else
          (rsp.headerOper order .modify (bytes "Content-Length") (decimalOff size), some (file, size))
    | .error errno =>
        if errno = .enoent then (server.errHandler .notFound notFound_answered req, none)
        else (server.errHandler .internalServerError internalServerError_answered req, none)
  else (rsp, none)

variable {order server}

/-- As much of an open file as is counted. -/
def countedContent (opened : Option (OpenFile × Int)) : Bytes :=
  (opened.map fun file => file.1.content.take file.2.toNat).getD []

theorem Unserved.prepareAny (unserved : conn.Unserved) (answers : OutAnswers) :
    let answer := answerOf order server conn.req (answers.opens (fileName order server conn.req))
    conn.prepareAny order server answers =
      { conn with
        rsp := answer.1,
        fileFd := answer.2.map Prod.fst,
        fileSize := (answer.2.map fun file => file.2.toNat).getD 0 } := by
  have closed := unserved.fileFd
  have zero := unserved.fileSize
  unfold answerOf UserConn.prepareAny openBodyAny fileName
  cases isFile : (routePath order server conn.req).bodyIsFile with
  | false => simp [isFile, closed, zero]
  | true =>
      cases opened : answers.opens (cStr (combineTwoPath server.docRoot
          (routePath order server conn.req).body)) with
      | error errno =>
          simp only [isFile, closed, and_self, if_true]
          split <;> simp [zero]
      | ok found =>
          obtain ⟨file, size⟩ := found
          cases isDir : file.isDir with
          | true => simp [isFile, closed, isDir, closeFileFd]
          | false => simp [isFile, closed, isDir]

/-- A finished call has sent the head of its response and then the whole body. -/
theorem Unserved.processOutAny (unserved : conn.Unserved) {result : OutResult}
    (ran : conn.processOutAny order server answers = result) (finished : result.finished = true) :
    let answer := answerOf order server conn.req (answers.opens (fileName order server conn.req))
    result.rsp = answer.1 ∧
      result.sent = result.rsp.head ++
        (if result.rsp.bodyIsFile then countedContent answer.2 else result.rsp.body) ∧
      (result.call = .modConnEventRead → result.conn.Unserved) := by
  intro answer
  have prepares := @Unserved.prepareAny conn order server unserved answers
  have rsp : result.rsp = answer.1 := by
    rw [← ran, processOutAny_rsp, prepares]
  obtain ⟨after, sends, -, did⟩ := processOutAny_did answers ran
  rw [finished] at sends did
  generalize conn.prepareAny order server answers = prepared at prepares sends
  have unbegun : prepared.Unbegun := by
    rw [prepares]
    exact ⟨unserved.baseRspSnd, unserved.bodySnd, unserved.rspBaseSndBytes, unserved.rspBodySndBytes⟩
  have counted : prepared.fileFd = none → prepared.fileSize = 0 := by
    rw [prepares]
    intro closed
    exact congrArg (·.getD 0) (Option.map_eq_none_iff.mpr (Option.map_eq_none_iff.mp closed))
  have content : prepared.fileContent.take prepared.fileSize = countedContent answer.2 := by
    rw [prepares, fileContent, countedContent]
    cases answer.2 <;> rfl
  obtain ⟨after', sent, finished', sending, whole⟩ := unbegun.sendToCli counted answers.sends
  have same := (sendToCli_any answers sending).symm.trans sends
  cases same
  obtain ⟨sent, closed⟩ := whole rfl
  have shown : prepared.rsp = result.rsp := by rw [rsp, prepares]
  rw [shown] at sent
  refine ⟨rsp, ?_, fun read => ?_⟩
  · rw [sent, bodyBytes, shown, content]
  · rcases did with ⟨goesOn, -⟩ | ⟨-, -, left, -⟩ | ⟨-, -, -, close⟩
    · cases goesOn
    · rw [left]
      refine ⟨connStateReset_idle order after, ?_⟩
      unfold connStateReset
      exact closeFileFd_counted closed
    · rw [close] at read
      cases read

/-- The head announces the number of bytes behind it, and they are the file's if the
response is a file that can be opened. -/
def CorrectlyDelimited (server : Server) (answers : OutAnswers) (result : OutResult) : Prop :=
  ∃ body, result.sent = result.rsp.head ++ body ∧
    result.rsp.announcedLength = some (decimal body.length) ∧
    (result.rsp.bodyIsFile = true → ∀ file size,
      answers.opens (cStr (combineTwoPath server.docRoot result.rsp.body)) = .ok (file, size) →
        file.isDir = false → body = file.content)

/-- The response is a file that does not open as one, and the page about that is a file
too. -/
def FallsBackToFile (order : HashOrder Bytes Bytes) (server : Server) (req : HttpRequest)
    (answers : OutAnswers) : Prop :=
  (routePath order server req).bodyIsFile = true ∧
    match answers.opens (fileName order server req) with
    | .ok (file, _) =>
        file.isDir = true ∧ (server.errHandler .movedPermanently movedPermanently_answered req).bodyIsFile = true
    | .error errno =>
        if errno = .enoent then (server.errHandler .notFound notFound_answered req).bodyIsFile = true
        else (server.errHandler .internalServerError internalServerError_answered req).bodyIsFile = true

/-- If the response is a file and opens as one, `st_size` is the number of its bytes. -/
def CountsFile (order : HashOrder Bytes Bytes) (server : Server) (req : HttpRequest)
    (answers : OutAnswers) : Prop :=
  (routePath order server req).bodyIsFile = true → ∀ file size,
    answers.opens (fileName order server req) = .ok (file, size) → file.isDir = false →
      size = file.content.length

theorem Builds.announced {func : HandleFunc} (builds : Builds order HandlerCall.OneBody func)
    (req : HttpRequest) : (func req).Announced := by
  obtain ⟨calls, one, same⟩ := builds req
  rw [same]
  exact one.announced req

/-- The connections whose responses went out in one call each. -/
inductive Prompt (order : HashOrder Bytes Bytes) (server : Server) : UserConn → Prop where
  | fresh : Prompt order server (.fresh order)
  | processIn {conn after offer errno errno' call} (prompt : Prompt order server conn)
      (ran : conn.processIn errno offer = .ok (after, call, errno')) : Prompt order server after
  | processOut {conn answers result} (prompt : Prompt order server conn)
      (ran : conn.processOutAny order server answers = result) (finished : result.finished = true)
      (kept : result.call = .modConnEventRead) : Prompt order server result.conn

theorem Prompt.unserved (prompt : Prompt order server conn) : conn.Unserved := by
  induction prompt with
  | fresh => exact ⟨fresh_idle order, rfl⟩
  | processIn _ ran unserved =>
      obtain ⟨bufferR, bufferRBytes, req, reqParsedBytes, rfl⟩ := processIn_frame ran
      exact ⟨⟨unserved.baseRspSnd, unserved.bodySnd, unserved.rspBaseSndBytes,
        unserved.rspBodySndBytes, unserved.fileFd⟩, unserved.fileSize⟩
  | processOut _ ran finished kept unserved =>
      obtain ⟨-, -, reset⟩ := unserved.processOutAny ran finished
      exact reset kept

/-- A page that is sent without a file is delimited exactly when it is in memory. -/
theorem page_delimited_iff {page : HttpResponse} {result : OutResult} (announced : page.Announced)
    (rsp : result.rsp = page)
    (sent : result.sent = page.head ++ if page.bodyIsFile then [] else page.body) :
    CorrectlyDelimited server answers result ↔ ¬ page.bodyIsFile = true := by
  subst rsp
  constructor
  · intro delimited isFile
    obtain ⟨body, -, length, -⟩ := delimited
    rw [announced.file isFile] at length
    cases length
  · intro inMemory
    rw [if_neg inMemory] at sent
    exact ⟨result.rsp.body, sent, announced.inMemory (Bool.eq_false_of_not_eq_true inMemory),
      fun isFile => absurd isFile inMemory⟩

/-- The size of a file is announced as the number of the bytes that follow only if it is
not negative. -/
theorem decimalOff_eq {size : Int} {length : Nat} (same : decimalOff size = decimal length) :
    size = length := by
  unfold decimalOff at same
  split at same
  · -- A minus sign is no digit.
    have sign : 45 ∈ decimal length := same ▸ List.mem_append_left _ (by decide)
    exact absurd (decimal_isDigit sign) (by decide)
  · have value : decimalValue (decimal size.toNat) = decimalValue (decimal length) := by rw [same]
    rw [decimalValue_decimal, decimalValue_decimal] at value
    omega

/-- An open file is delimited exactly when `fstat` gives the number of its bytes. -/
theorem file_delimited_iff {routed : HttpResponse} {file : OpenFile} {size : Int} {result : OutResult}
    (isFile : routed.bodyIsFile = true) (regular : file.isDir = false)
    (opens : answers.opens (cStr (combineTwoPath server.docRoot routed.body)) = .ok (file, size))
    (rsp : result.rsp = routed.headerOper order .modify (bytes "Content-Length") (decimalOff size))
    (sent : result.sent = result.rsp.head ++ file.content.take size.toNat) :
    CorrectlyDelimited server answers result ↔ size = file.content.length := by
  obtain ⟨body, bodyIsFile⟩ := @HttpResponse.headerOper_body order routed .modify
    (bytes "Content-Length") (decimalOff size)
  rw [← rsp] at body bodyIsFile
  rw [← body] at opens
  have length : result.rsp.announcedLength = some (decimalOff size) := by
    rw [rsp]
    exact (HttpResponse.getHeader_modify _ _ _).trans (if_pos rfl)
  constructor
  · intro delimited
    obtain ⟨bytes, -, announces, content⟩ := delimited
    rw [length, content (bodyIsFile.trans isFile) file size opens regular] at announces
    exact decimalOff_eq (Option.some.inj announces)
  · intro counted
    subst counted
    refine ⟨file.content, ?_, ?_, fun _ found size same _ => ?_⟩
    · rw [sent, Int.toNat_natCast, List.take_length]
    · rw [length, decimalOff, if_neg (by omega), Int.toNat_natCast]
    · cases opens.symm.trans same
      rfl

/-- A finished response is delimited correctly exactly when it does not fall back to a
page that is a file, and a file is as long as `fstat` says. -/
theorem processOut_delimited_iff (registers : server.Registers (Builds order HandlerCall.OneBody))
    (prompt : Prompt order server conn) {result : OutResult}
    (ran : conn.processOutAny order server answers = result) (finished : result.finished = true) :
    CorrectlyDelimited server answers result ↔
      ¬ FallsBackToFile order server conn.req answers ∧ CountsFile order server conn.req answers := by
  have unserved := prompt.unserved
  have file (path : Bytes) (type : HttpContentType) (charset : Bytes) :
      HandlerCall.OneBody [.setBodyFile path type charset] :=
    ⟨[], _, [], rfl, by simp, rfl, by simp⟩
  obtain ⟨func, builds, routed⟩ := routePath_registered registers (rootHandler_builds file)
    (staticFileHandler_builds file) conn.req
  have announced : (routePath order server conn.req).Announced := routed ▸ Builds.announced builds conn.req
  have page (code : HttpCode) (answered : code ∈ answeredCodes) :
      (server.errHandler code answered conn.req).Announced :=
    Builds.announced (errHandler_registered registers code answered) conn.req
  obtain ⟨rsp, sent, -⟩ := unserved.processOutAny ran finished
  unfold answerOf at rsp sent
  unfold FallsBackToFile CountsFile
  cases isFile : (routePath order server conn.req).bodyIsFile with
  | false =>
      simp only [isFile, Bool.false_eq_true, if_false] at rsp sent
      rw [page_delimited_iff announced rsp (by rw [sent, rsp]; rfl), isFile]
      simp
  | true =>
      simp only [isFile, if_true] at rsp sent
      cases opened : answers.opens (fileName order server conn.req) with
      | error errno =>
          rw [opened] at rsp sent
          by_cases missing : errno = .enoent
          · simp only [if_pos missing] at rsp sent ⊢
            rw [page_delimited_iff (page _ _) rsp (by rw [sent, rsp]; rfl)]
            simp
          · simp only [if_neg missing] at rsp sent ⊢
            rw [page_delimited_iff (page _ _) rsp (by rw [sent, rsp]; rfl)]
            simp
      | ok found =>
          obtain ⟨found, size⟩ := found
          rw [opened] at rsp sent
          cases isDir : found.isDir with
          | true =>
              simp only [isDir, if_true] at rsp sent ⊢
              rw [page_delimited_iff (page _ _) rsp (by rw [sent, rsp]; rfl)]
              simp [isDir]
          | false =>
              simp only [isDir, Bool.false_eq_true, if_false] at rsp sent
              have bodyIsFile : result.rsp.bodyIsFile = true := by
                rw [rsp, (HttpResponse.headerOper_body _ _ _).2, isFile]
              rw [if_pos bodyIsFile] at sent
              rw [file_delimited_iff isFile isDir opened rsp sent]
              simp [isDir]

/-- A new connection asks for a page and is answered in one call. -/
def askOnce (server : Server) (answers : OutAnswers) : Except Fault (UserConn × OutResult) := do
  let (conn, _, _) ← (fresh (.front Bytes Bytes)).processIn .clear
    (bytes "GET /a.html HTTP/1.1\r\n\r\n")
  return (conn, conn.processOutAny (.front Bytes Bytes) server answers)

theorem askOnce_prompt {server : Server} {conn : UserConn} {result : OutResult}
    (ran : askOnce server answers = .ok (conn, result)) :
    Prompt (.front Bytes Bytes) server conn ∧
      conn.processOutAny (.front Bytes Bytes) server answers = result := by
  obtain ⟨⟨asked, call, errno⟩, into, same⟩ := bind_eq_ok.mp ran
  cases same
  exact ⟨.processIn .fresh into, rfl⟩

/-- The page opens, `fstat` gives `size`, and the socket takes everything. -/
def pageAnswers (size : Int) : OutAnswers where
  opens _ := .ok (page, size)
  sends := [1000, 1000]
  behind _ _ := 0

theorem pageServer_oneBody :
    pageServer.Registers (Builds (.front Bytes Bytes) HandlerCall.OneBody) :=
  builtin_registers
    (fun code data => ⟨[.setCode code, .headerOper .modify (bytes "Connection") (bytes "close")],
      .setBodyBin data .htmlType [], [], rfl, by simp [HandlerCall.leavesBody]; decide, rfl, by simp⟩)
    (fun location => ⟨[.setCode .movedPermanently, .headerOper .add (bytes "Location") location],
      .setNoBody, [], rfl, by simp [HandlerCall.leavesBody]; decide, rfl, by simp⟩)
    (fun _ _ _ _ routed => by cases routed)

/-- With five bytes and a size of five the page is delimited; with a size of three it is cut. -/
theorem page_delimited :
    (∃ conn result, askOnce pageServer (pageAnswers 5) = .ok (conn, result) ∧
      CorrectlyDelimited pageServer (pageAnswers 5) result) ∧
    ∃ conn result, askOnce pageServer (pageAnswers 3) = .ok (conn, result) ∧
      result.finished = true ∧ ¬ CorrectlyDelimited pageServer (pageAnswers 3) result := by
  constructor
  · have outcome : (askOnce pageServer (pageAnswers 5)).toOption.map
        (fun asked => asked.2.finished) = some true := by
      decide +kernel
    obtain ⟨⟨conn, result⟩, ran, finished⟩ := ok_of_map outcome
    obtain ⟨prompt, out⟩ := askOnce_prompt ran
    refine ⟨conn, result, ran,
      (processOut_delimited_iff pageServer_oneBody prompt out finished).mpr ⟨?_, ?_⟩⟩
    · intro falls
      exact Bool.false_ne_true falls.2.1
    · intro _ file size same _
      cases same
      rfl
  · have outcome : (askOnce pageServer (pageAnswers 3)).toOption.map
        (fun asked => (asked.2.finished, (routePath (.front Bytes Bytes) pageServer asked.1.req).bodyIsFile)) =
          some (true, true) := by
      decide +kernel
    obtain ⟨⟨conn, result⟩, ran, both⟩ := ok_of_map outcome
    obtain ⟨finished, isFile⟩ := Prod.mk.inj both
    obtain ⟨prompt, out⟩ := askOnce_prompt ran
    refine ⟨conn, result, ran, finished, fun delimited => ?_⟩
    obtain ⟨-, counts⟩ := (processOut_delimited_iff pageServer_oneBody prompt out finished).mp delimited
    exact absurd (counts isFile page 3 rfl rfl) (by decide)

/-- The page about a missing file, in a file. -/
def missingPage (req : HttpRequest) : HttpResponse :=
  ((HttpResponse.ofRequest (.front Bytes Bytes) req).setCode .notFound).setBodyFile
    (.front Bytes Bytes) (bytes "/404.html") .htmlType []

def missingPageServer : Server := pageServer.registerErrHandler .notFound missingPage

def missingAnswers : OutAnswers where
  opens _ := .error .enoent
  sends := [1000, 1000]
  behind _ _ := 0

/-- Nothing announces the length of that page, and nothing of it is sent. -/
theorem missing_page_not_delimited :
    ∃ conn result, askOnce missingPageServer missingAnswers = .ok (conn, result) ∧
      result.finished = true ∧ ¬ CorrectlyDelimited missingPageServer missingAnswers result := by
  have outcome : (askOnce missingPageServer missingAnswers).toOption.map
      (fun asked => (asked.2.finished, asked.2.rsp.announcedLength)) = some (true, none) := by
    decide +kernel
  obtain ⟨⟨conn, result⟩, ran, both⟩ := ok_of_map outcome
  obtain ⟨finished, unannounced⟩ := Prod.mk.inj both
  refine ⟨conn, result, ran, finished, fun delimited => ?_⟩
  obtain ⟨_, -, length, -⟩ := delimited
  rw [unannounced] at length
  cases length

end UserConn

end LiteWebServer
