import LiteWebServer.UserConn.Reply

namespace LiteWebServer

open Data

/-! Whether the connection is kept, as the response announces it and as `process_out`
does it. -/

namespace HttpResponse

variable {order : HashOrder Bytes Bytes} {rsp : HttpResponse} {req : HttpRequest}

def announcesKeepAlive (rsp : HttpResponse) : Bool :=
  match rsp.getHeader (bytes "Connection") with
  | some connState => strToLower connState = bytes "keep-alive"
  | none => false

theorem announcesKeepAlive_congr {other : HttpResponse}
    (same : rsp.getHeader (bytes "Connection") = other.getHeader (bytes "Connection")) :
    rsp.announcesKeepAlive = other.announcesKeepAlive := by
  rw [announcesKeepAlive, same, announcesKeepAlive]

theorem initialHeaders_connection :
    (initialHeaders order).lookup (bytes "Connection") = some (bytes "close") := by
  simp only [initialHeaders, UnorderedMap.lookup_assign]
  rw [if_neg (by decide), if_pos trivial]

theorem ofRequest_connection : (ofRequest order req).getHeader (bytes "Connection") =
    some ((req.getHeader (bytes "Connection")).getD (bytes "close")) := by
  rw [getHeader, ofRequest_headers]
  cases req.getHeader (bytes "Connection") with
  | some value => exact (UnorderedMap.lookup_assign _ _ _ _ _).trans (if_pos rfl)
  | none => exact initialHeaders_connection

theorem ofRequest_announces : (ofRequest order req).announcesKeepAlive = UserConn.keepAlive req := by
  rw [announcesKeepAlive, ofRequest_connection, UserConn.keepAlive]
  cases req.getHeader (bytes "Connection") with
  | some value => rfl
  | none => decide

theorem updateContentType_connection (type : HttpContentType) (charset : Bytes) :
    (rsp.updateContentType order type charset).getHeader (bytes "Connection") =
      rsp.getHeader (bytes "Connection") := by
  unfold updateContentType
  dsimp only
  split
  · exact (getHeader_del _ _ _).trans (if_neg (by decide))
  · split
    · exact (getHeader_modify _ _ _).trans (if_neg (by decide))
    · exact (getHeader_modify _ _ _).trans (if_neg (by decide))

theorem setBodyFile_announces (path : Bytes) (type : HttpContentType) (charset : Bytes) :
    (rsp.setBodyFile order path type charset).announcesKeepAlive = rsp.announcesKeepAlive :=
  announcesKeepAlive_congr (updateContentType_connection type charset)

theorem setBodyBin_connection (data : Bytes) (type : HttpContentType) (charset : Bytes) :
    (rsp.setBodyBin order data type charset).getHeader (bytes "Connection") =
      rsp.getHeader (bytes "Connection") :=
  (updateContentType_connection type charset).trans
    ((getHeader_add _ _ _).trans (if_neg (by decide)))

theorem setNoBody_connection :
    (rsp.setNoBody order).getHeader (bytes "Connection") = rsp.getHeader (bytes "Connection") := by
  unfold setNoBody
  rw [getHeader_del, if_neg (by decide), getHeader_modify, if_neg (by decide)]
  rfl

end HttpResponse

section

variable {order : HashOrder Bytes Bytes} {req : HttpRequest}

theorem rootHandler_announces : (rootHandler order req).announcesKeepAlive = UserConn.keepAlive req :=
  (HttpResponse.setBodyFile_announces _ _ _).trans HttpResponse.ofRequest_announces

theorem staticFileHandler_announces :
    (staticFileHandler order req).announcesKeepAlive = UserConn.keepAlive req :=
  (HttpResponse.setBodyFile_announces _ _ _).trans HttpResponse.ofRequest_announces

theorem defErrHandler_announces (code : HttpCode) :
    (defErrHandler order code req).announcesKeepAlive = false := by
  have connection : (defErrHandler order code req).getHeader (bytes "Connection") =
      some (bytes "close") :=
    (HttpResponse.setBodyBin_connection _ _ _).trans
      ((HttpResponse.getHeader_modify _ _ _).trans (if_pos rfl))
  rw [HttpResponse.announcesKeepAlive, connection]
  decide

theorem errHandler301_announces :
    (errHandler301 order req).announcesKeepAlive = UserConn.keepAlive req := by
  rw [← @HttpResponse.ofRequest_announces order]
  apply HttpResponse.announcesKeepAlive_congr
  unfold errHandler301
  rw [HttpResponse.setNoBody_connection, HttpResponse.getHeader_add, if_neg (by decide)]
  rfl

end

/-! ## What a client reads -/

/-- The Connection header that a client reads in the head at the front of a text. -/
def readConnection (text : Bytes) : Option Bytes := do
  let (lines, _) ← readLines text
  (lines.tail.filterMap readHeader).lookup (bytes "Connection")

def readsKeepAlive (text : Bytes) : Bool :=
  match readConnection text with
  | some connState => strToLower connState = bytes "keep-alive"
  | none => false

theorem readLines_ends (text : Bytes) : (readLines (text ++ (crlf ++ crlf))).isSome = true := by
  induction length : text.length using Nat.strong_induction_on generalizing text with
  | _ size ih =>
      subst length
      cases found : find? crlf text with
      | none =>
          have free : ¬ crlf <:+: text := find?_eq_none_iff.mp found
          have found' : find? crlf (text ++ crlf ++ crlf) = some text.length :=
            find?_piece crlf_unbordered free
          rw [List.append_assoc] at found'
          by_cases empty : text.length = 0
          · rw [readLines_end (found'.trans (congrArg some empty))]
            rfl
          · rw [readLines_line found' empty, Option.isSome_map, ← List.append_assoc,
              drop_joined (by rfl), readLines_end (by decide)]
            rfl
      | some k =>
          have bound := find?_bound found
          have width : crlf.length = 2 := rfl
          have found' : find? crlf (text ++ (crlf ++ crlf)) = some k := find?_append_of_some found
          by_cases last : k = 0
          · rw [readLines_end (found'.trans (congrArg some last))]
            rfl
          · rw [readLines_line found' last, Option.isSome_map, List.drop_append_of_le_length (by omega)]
            refine ih _ ?_ (text.drop (k + 2)) rfl
            rw [List.length_drop]
            omega

namespace HttpResponse

variable {rsp : HttpResponse}

theorem head_ends : ∃ text, rsp.head = text ++ (crlf ++ crlf) := by
  have line (front : Bytes) (entries : List (Sigma fun _ : Bytes => Bytes)) :
      ∃ text, front ++ crlf ++ (entries.flatMap fun kv => kv.1 ++ bytes ": " ++ kv.2 ++ crlf) =
        text ++ crlf := by
    induction entries generalizing front with
    | nil => exact ⟨front, by rw [List.flatMap_nil, List.append_nil]⟩
    | cons kv later ih =>
        obtain ⟨text, shape⟩ := ih (front ++ crlf ++ (kv.1 ++ bytes ": " ++ kv.2))
        exact ⟨text, by rw [← shape, List.flatMap_cons]; simp only [List.append_assoc]⟩
  obtain ⟨text, shape⟩ := line rsp.statusLine rsp.headers.entries
  refine ⟨text, ?_⟩
  rw [← List.append_assoc, ← shape]
  simp only [head, baseText, statusLine, List.append_assoc]

/-- What stands behind a head does not matter. -/
theorem readsKeepAlive_head (more : Bytes) :
    readsKeepAlive (rsp.head ++ more) = readsKeepAlive rsp.head := by
  obtain ⟨text, shape⟩ := @head_ends rsp
  obtain ⟨⟨lines, rest⟩, ran⟩ := Option.isSome_iff_exists.mp (readLines_ends text)
  rw [← shape] at ran
  have onward := readLines_onward rsp.head ran more
  simp only [readsKeepAlive, readConnection, ran, onward, bind, Option.bind]

/-- A client reads in a head that no header breaks what it announces. -/
theorem CleanHead.readsKeepAlive (clean : rsp.CleanHead) :
    readsKeepAlive rsp.head = rsp.announcesKeepAlive := by
  have lines := clean.readLines []
  rw [List.append_nil] at lines
  have headers : (rsp.headers.entries.map fun kv => kv.1 ++ bytes ": " ++ kv.2).filterMap readHeader =
      rsp.headers.entries.map fun kv => (kv.1, kv.2) := by
    rw [List.filterMap_map, ← List.filterMap_eq_map]
    refine List.filterMap_congr fun kv member => ?_
    exact readHeader_joined (clean.headers kv.1 kv.2 (AList.mem_lookup_iff.mpr member)).colon
  have found : readConnection rsp.head = rsp.getHeader (bytes "Connection") := by
    simp only [readConnection, lines, bind, Option.bind, List.tail_cons, headers]
    exact lookup_pairs _ _
  rw [LiteWebServer.readsKeepAlive, found, announcesKeepAlive]

end HttpResponse

namespace UserConn

variable (order : HashOrder Bytes Bytes) (server : Server)

/-! ## Honest answers -/

/-- Routing gives a response in which a client reads what the request asks for: it is no
error page, unless the request asks for the end, and a registered handler, with the length of
its file, does not say otherwise. -/
def RoutedHonestly (req : HttpRequest) (finish : HttpResponse → HttpResponse) : Prop :=
  if req.isBadReq then keepAlive req = false
  else
    match server.router req.path with
    | some methods =>
        match methods req.method with
        | some callFn => readsKeepAlive (finish (callFn req)).head = keepAlive req
        | none => keepAlive req = false
    | none => True

/-- The request ends up with such a response: its file opens or is a directory, unless the
request asks for the end. -/
def Honest (req : HttpRequest) (outcome : Except Errno (OpenFile × Int)) : Prop :=
  if (routePath order server req).bodyIsFile then
    match outcome with
    | .ok (file, size) =>
        file.isDir = true ∨
          RoutedHonestly server req fun rsp =>
            rsp.headerOper order .modify (bytes "Content-Length") (decimalOff size)
    | .error _ => keepAlive req = false
  else RoutedHonestly server req id

variable {order server} {docRoot : Bytes} {router : Bytes → Option (HttpMethod → Option HandleFunc)}
  {req : HttpRequest}

theorem BuiltIn.reads {func : HandleFunc} (builtIn : BuiltIn order func) (parsed : req.Parsed) :
    readsKeepAlive (func req).head = (func req).announcesKeepAlive :=
  (builtIn.buildsCleanly.cleanHead parsed.noLineEnd).readsKeepAlive

/-- A client reads in an error page that the connection ends. -/
theorem errorPage_reads_iff (parsed : req.Parsed) (code : HttpCode) :
    readsKeepAlive (defErrHandler order code req).head = keepAlive req ↔ keepAlive req = false := by
  rw [BuiltIn.reads (.page code) parsed, defErrHandler_announces]
  exact eq_comm

theorem decimalOff_free (size : Int) : ¬ crlf <:+: decimalOff size := by
  intro held
  have member : 13 ∈ decimalOff size := held.subset (by decide)
  unfold decimalOff at member
  split at member
  · rcases List.mem_append.mp member with sign | digit
    · exact absurd sign (by decide)
    · exact absurd (decimal_isDigit digit) (by decide)
  · exact absurd (decimal_isDigit member) (by decide)

/-- A finish that neither breaks a head nor changes what it announces. -/
structure Harmless (finish : HttpResponse → HttpResponse) : Prop where
  clean : ∀ rsp : HttpResponse, rsp.CleanHead → (finish rsp).CleanHead
  announces : ∀ rsp, (finish rsp).announcesKeepAlive = rsp.announcesKeepAlive

theorem harmless_id : Harmless id := ⟨fun _ clean => clean, fun _ => rfl⟩

theorem harmless_length (size : Int) :
    Harmless fun rsp => rsp.headerOper order .modify (bytes "Content-Length") (decimalOff size) where
  clean _ clean := clean.modify ⟨by decide, by decide, decimalOff_free size⟩
  announces _ := HttpResponse.announcesKeepAlive_congr
    ((HttpResponse.getHeader_modify _ _ _).trans (if_neg (by decide)))

theorem routePath_reads_iff (parsed : req.Parsed) {finish : HttpResponse → HttpResponse}
    (harmless : Harmless finish) :
    readsKeepAlive (finish (routePath order (.builtin order docRoot router) req)).head = keepAlive req ↔
      RoutedHonestly (.builtin order docRoot router) req finish := by
  have builtIn {func : HandleFunc} (kind : BuiltIn order func) :
      readsKeepAlive (finish (func req)).head = (func req).announcesKeepAlive := by
    rw [(harmless.clean _ (kind.buildsCleanly.cleanHead parsed.noLineEnd)).readsKeepAlive,
      harmless.announces]
  have page (code : HttpCode) :
      readsKeepAlive (finish (defErrHandler order code req)).head = keepAlive req ↔
        keepAlive req = false := by
    rw [builtIn (.page code), defErrHandler_announces]
    exact eq_comm
  unfold routePath RoutedHonestly
  by_cases bad : req.isBadReq = true
  · rw [if_pos bad, if_pos bad]
    exact page .badRequest
  · rw [if_neg bad, if_neg bad]
    cases (Server.builtin order docRoot router).router req.path with
    | some methods =>
        dsimp only
        cases methods req.method with
        | some callFn => exact Iff.rfl
        | none => exact page .notAllowed
    | none =>
        dsimp only
        split
        · exact iff_true_intro ((builtIn .root).trans rootHandler_announces)
        · exact iff_true_intro ((builtIn .static).trans staticFileHandler_announces)

/-- A client reads in the answer to a request what the request asks for exactly when the
answer is honest. -/
theorem answerOf_reads_iff (parsed : req.Parsed) (outcome : Except Errno (OpenFile × Int)) :
    readsKeepAlive (answerOf order (.builtin order docRoot router) req outcome).1.head = keepAlive req ↔
      Honest order (.builtin order docRoot router) req outcome := by
  unfold answerOf Honest
  dsimp only
  split
  · cases outcome with
    | error errno =>
        dsimp only
        split
        · exact errorPage_reads_iff parsed .notFound
        · exact errorPage_reads_iff parsed .internalServerError
    | ok found =>
        obtain ⟨file, size⟩ := found
        dsimp only
        by_cases dir : file.isDir = true
        · rw [if_pos dir]
          exact iff_of_true ((BuiltIn.reads .moved parsed).trans errHandler301_announces) (.inl dir)
        · rw [if_neg dir, or_iff_right dir]
          have reads := @routePath_reads_iff order docRoot router req parsed _
            (@harmless_length order size)
          exact reads
  · have reads := @routePath_reads_iff order docRoot router req parsed _ harmless_id
    exact reads

/-! ## The head on its way -/

variable (order server)

/-- The response of a call and the file that is open behind it, with its size, when `opened`
was open before. -/
def answerIn (req : HttpRequest) (opened : Option (OpenFile × Int)) (answers : OutAnswers) :
    HttpResponse × Option (OpenFile × Int) :=
  if opened.isSome then (routePath order server req, opened)
  else answerOf order server req (answers.opens (fileName order server req))

/-- The calls render the same head until the socket has taken all of it, `out` bytes of it
in earlier calls. -/
def SameHead (req : HttpRequest) (head : Bytes) :
    Option (OpenFile × Int) → Nat → List OutAnswers → Prop
  | _, _, [] => True
  | opened, out, answers :: later =>
      (answerIn order server req opened answers).1.head = head ∧
        (head.length ≤ out + taken answers.sends ∨
          SameHead req head (answerIn order server req opened answers).2
            (out + taken answers.sends) later)

/-- The head goes out as the first call renders it, and its counter can hold the length. -/
structure OneRendering (req : HttpRequest) (answers : OutAnswers) (later : List OutAnswers) :
    Prop where
  small : (answerOf order server req (answers.opens (fileName order server req))).1.head.length < 2 ^ 32
  same : SameHead order server req
    (answerOf order server req (answers.opens (fileName order server req))).1.head none 0
    (answers :: later)

instance SameHead.decidable (req : HttpRequest) (head : Bytes) :
    ∀ opened out events, Decidable (SameHead order server req head opened out events)
  | _, _, [] => inferInstanceAs (Decidable True)
  | opened, out, answers :: later =>
      have := SameHead.decidable req head (answerIn order server req opened answers).2
        (out + taken answers.sends) later
      inferInstanceAs (Decidable (_ ∧ (_ ∨ _)))

instance (req : HttpRequest) (answers : OutAnswers) (later : List OutAnswers) :
    Decidable (OneRendering order server req answers later) :=
  decidable_of_iff (_ ∧ _) ⟨fun both => ⟨both.1, both.2⟩, fun one => ⟨one.small, one.same⟩⟩

end UserConn

/-- A response sent in full: the bytes of all its calls, and what the last one asked for and
left. -/
structure Exchange where
  sent : Bytes
  call : LoopCall
  left : UserConn

/-- The connection is reset and kept for reading. -/
def Exchange.Kept (order : HashOrder Bytes Bytes) (exchange : Exchange) : Prop :=
  exchange.call = .modConnEventRead ∧
    ∃ before : UserConn, exchange.left = before.connStateReset order

/-- The connection is kept if and only if the client reads so in the bytes that were sent, and
closed otherwise. -/
def Exchange.AsAnnounced (order : HashOrder Bytes Bytes) (exchange : Exchange) : Prop :=
  (exchange.Kept order ↔ readsKeepAlive exchange.sent = true) ∧
    (readsKeepAlive exchange.sent = false → exchange.call = .connClose)

namespace UserConn

/-- Calls of `process_out` until the response is out. -/
def respond (order : HashOrder Bytes Bytes) (server : Server) (conn : UserConn) :
    List OutAnswers → Option Exchange
  | [] => none
  | answers :: later =>
      let result := conn.processOutAny order server answers
      if result.finished then some ⟨result.sent, result.call, result.conn⟩
      else
        (respond order server result.conn later).map fun exchange =>
          { exchange with sent := result.sent ++ exchange.sent }

variable {order : HashOrder Bytes Bytes} {server : Server} {conn : UserConn} {exchange : Exchange}
  {docRoot : Bytes} {router : Bytes → Option (HttpMethod → Option HandleFunc)}

theorem respond_ends (events : List OutAnswers) {conn : UserConn} {exchange : Exchange}
    (ran : conn.respond order server events = some exchange) :
    keepAlive conn.req = true ∧ exchange.Kept order ∨
      keepAlive conn.req = false ∧ exchange.call = .connClose := by
  induction events generalizing conn exchange with
  | nil => cases ran
  | cons answers later ih =>
      obtain ⟨after, -, input, did⟩ := @processOutAny_did order server conn answers _ rfl
      rw [respond] at ran
      rcases did with ⟨unfinished, left, -⟩ | ⟨finished, keep, left, call⟩ | ⟨finished, drop, -, call⟩
      · rw [unfinished, if_neg Bool.false_ne_true] at ran
        obtain ⟨exchange', further, rfl⟩ := Option.map_eq_some_iff.mp ran
        rw [left] at further
        rw [← input.req]
        have ends := ih further
        exact ends
      · rw [finished, if_pos rfl] at ran
        cases ran
        exact .inl ⟨keep, call, after, left⟩
      · rw [finished, if_pos rfl] at ran
        cases ran
        exact .inr ⟨drop, call⟩

/-- Of the response `out` bytes of the head are out, and nothing else. -/
structure InHead (opened : Option (OpenFile × Int)) (out : Nat) (conn : UserConn) : Prop where
  baseRspSnd : conn.baseRspSnd = false
  rspBaseSndBytes : conn.rspBaseSndBytes = out
  fileFd : conn.fileFd = opened.map Prod.fst

theorem prepareAny_answerIn {opened : Option (OpenFile × Int)} (fd : conn.fileFd = opened.map Prod.fst)
    (answers : OutAnswers) :
    ∃ fileSize, conn.prepareAny order server answers =
      { conn with
        rsp := (answerIn order server conn.req opened answers).1,
        fileFd := (answerIn order server conn.req opened answers).2.map Prod.fst,
        fileSize } := by
  unfold answerIn answerOf prepareAny openBodyAny fileName
  cases opened with
  | some found =>
      refine ⟨conn.fileSize, ?_⟩
      simp [fd]
  | none =>
      cases isFile : (routePath order server conn.req).bodyIsFile with
      | false => exact ⟨conn.fileSize, by simp [isFile, fd]⟩
      | true =>
          cases answers.opens (cStr (combineTwoPath server.docRoot
              (routePath order server conn.req).body)) with
          | error errno =>
              refine ⟨conn.fileSize, ?_⟩
              simp only [isFile, fd, Option.map_none, and_self, if_true, Option.isSome_none,
                Bool.false_eq_true, if_false]
              split <;> simp
          | ok found =>
              obtain ⟨file, size⟩ := found
              cases isDir : file.isDir with
              | true => exact ⟨0, by simp [isFile, fd, isDir, closeFileFd]⟩
              | false => exact ⟨size.toNat, by simp [isFile, fd, isDir]⟩

/-- What goes out behind the head, if it is out. -/
theorem sendToCliAny_split {answers : OutAnswers} {between : UserConn} {head : Bytes} {rest : List Nat}
    (sends : conn.sendHeadIfDueBy (.wrapping answers.behind) answers.sends = (between, head, rest)) :
    ∃ after body, conn.sendToCliAny answers =
        (after, head ++ body, after.baseRspSnd && after.bodySnd) ∧
      (between.baseRspSnd = false → after = between ∧ body = []) := by
  rw [sendToCliAny, sendToCliBy, sends]
  dsimp only [bind, pure, Id.run]
  refine ⟨_, _, rfl, fun unsent => ?_⟩
  rw [sendBodyIfDueBy, unsent]
  exact ⟨rfl, rfl⟩

/-- The head of the first rendering is in front of all that is sent. -/
theorem InHead.respond {head : Bytes} (small : head.length < 2 ^ 32) (events : List OutAnswers)
    {conn : UserConn} {opened : Option (OpenFile × Int)} {out : Nat} {exchange : Exchange}
    (inHead : InHead opened out conn) (within : out ≤ head.length)
    (same : SameHead order server conn.req head opened out events)
    (ran : conn.respond order server events = some exchange) :
    head <+: head.take out ++ exchange.sent := by
  induction events generalizing conn opened out exchange with
  | nil => cases ran
  | cons answers later ih =>
      obtain ⟨renders, further⟩ := same
      obtain ⟨fileSize, prepares⟩ := @prepareAny_answerIn order server conn opened inHead.fileFd answers
      obtain ⟨after, sends, input, did⟩ := @processOutAny_did order server conn answers _ rfl
      rw [UserConn.respond] at ran
      generalize conn.processOutAny order server answers = result at ran sends did
      generalize conn.prepareAny order server answers = prepared at prepares sends
      have unsent : prepared.baseRspSnd = false := by
        rw [prepares]
        exact inHead.baseRspSnd
      have start : prepared.rspBaseSndBytes = out := by
        rw [prepares]
        exact inHead.rspBaseSndBytes
      have rendering : prepared.rsp.head = head := by
        rw [prepares]
        exact renders
      obtain ⟨k, rest, loop, bound, joined, decided, counted⟩ := sendHeadIfDue_spec unsent rendering
        small (start.symm ▸ within) rfl answers.sends
      rw [start] at loop bound joined decided counted
      obtain ⟨after', body, split, stops⟩ :=
        @sendToCliAny_split prepared answers _ _ _ (sendHeadIfDue_wrapping loop)
      obtain ⟨rfl, both⟩ := Prod.mk.inj (split.symm.trans sends)
      obtain ⟨sent, finishes⟩ := Prod.mk.inj both
      by_cases last : out + k = head.length
      · -- The head is out with this call.
        rw [last, List.take_length] at joined
        have begins : head <+: head.take out ++ result.sent := by
          rw [← sent, ← List.append_assoc, joined]
          exact List.prefix_append head body
        split at ran
        · cases ran
          exact begins
        · obtain ⟨exchange', -, rfl⟩ := Option.map_eq_some_iff.mp ran
          rw [← List.append_assoc]
          exact begins.trans (List.prefix_append _ _)
      · obtain ⟨rfl, rfl⟩ := stops (decided.trans (decide_eq_false last))
        have unfinished : result.finished = false := by
          rw [← finishes, decided, decide_eq_false last, Bool.false_and]
        rcases did with ⟨-, left, -⟩ | ⟨finished, -⟩ | ⟨finished, -⟩
        · have all : k = taken answers.sends := by omega
          rw [unfinished, if_neg Bool.false_ne_true] at ran
          obtain ⟨exchange', goesOn, rfl⟩ := Option.map_eq_some_iff.mp ran
          have next : InHead (answerIn order server conn.req opened answers).2 (out + k) result.conn := by
            rw [left]
            refine ⟨decided.trans (decide_eq_false last), congrArg (· + k) start, ?_⟩
            change prepared.fileFd = _
            rw [prepares]
          have req : result.conn.req = conn.req := by rw [left, input.req]
          have renders' : SameHead order server result.conn.req head
              (answerIn order server conn.req opened answers).2 (out + k) later := by
            rw [req, all]
            exact further.resolve_left (by omega)
          have arrives := ih next bound renders' goesOn
          rwa [← joined, ← List.append_nil (List.take k _), sent, List.append_assoc] at arrives
        · simp [unfinished] at finished
        · simp [unfinished] at finished

/-- When its head goes out as it is rendered first, a response sent in full is followed by what
the client reads in it, kept exactly when it says `keep-alive` and closed otherwise, if and
only if it was honest. -/
theorem processOut_keeps_as_announced_iff (idle : conn.Idle) (parsed : conn.req.Parsed)
    {answers : OutAnswers} {later : List OutAnswers}
    (one : OneRendering order (.builtin order docRoot router) conn.req answers later)
    (ran : conn.respond order (.builtin order docRoot router) (answers :: later) = some exchange) :
    exchange.AsAnnounced order ↔
      Honest order (.builtin order docRoot router) conn.req
        (answers.opens (fileName order (.builtin order docRoot router) conn.req)) := by
  have begins : InHead none 0 conn := ⟨idle.baseRspSnd, idle.rspBaseSndBytes, idle.fileFd⟩
  obtain ⟨more, sent⟩ := begins.respond one.small _ (Nat.zero_le _) one.same ran
  rw [List.take_zero, List.nil_append] at sent
  rw [Exchange.AsAnnounced, ← sent, HttpResponse.readsKeepAlive_head, ← answerOf_reads_iff parsed]
  rcases respond_ends _ ran with ⟨keeps, kept⟩ | ⟨keeps, closed⟩
  · rw [keeps, iff_true_left kept, and_iff_left_iff_imp]
    intro announced
    simp [announced]
  · have notKept : ¬ exchange.Kept order := fun kept => by simp [kept.1] at closed
    rw [keeps, iff_false_left notKept, Bool.not_eq_true, and_iff_left_iff_imp]
    exact fun _ _ => closed

/-- A new connection reads a request for `/page` that asks to be kept, and answers it. -/
def askKept (events : List OutAnswers) : Except Fault (UserConn × Option Exchange) := do
  let (req, _, _) ← HttpRequest.fresh.parse .clear
    (bytes "GET /page HTTP/1.1\r\nConnection: keep-alive\r\n\r\n") 0
  let conn := { fresh (.front Bytes Bytes) with req }
  return (conn, conn.respond (.front Bytes Bytes) pageServer events)

theorem askKept_asked {events : List OutAnswers} {asked : Option Exchange}
    (ran : askKept events = .ok (conn, asked)) :
    conn.Idle ∧ conn.req.Parsed ∧ conn.respond (.front Bytes Bytes) pageServer events = asked := by
  obtain ⟨⟨req, count, after⟩, parses, same⟩ := bind_eq_ok.mp ran
  cases same
  exact ⟨⟨rfl, rfl, rfl, rfl, rfl⟩, .parse .fresh parses, rfl⟩

/-- No file, one of five bytes, or a directory. -/
def missingEvent (sends : List Nat) : OutAnswers := ⟨fun _ => .error .enoent, sends, fun _ _ => 0⟩

def presentEvent (sends : List Nat) : OutAnswers := ⟨fun _ => .ok (page, 5), sends, fun _ _ => 0⟩

def directoryEvent (sends : List Nat) : OutAnswers := ⟨fun _ => .ok (⟨true, []⟩, 0), sends, fun _ _ => 0⟩

theorem askKept_kept {events : List OutAnswers} {connection : Option Bytes}
    (outcome : (askKept events).toOption.map (fun asked => asked.2.map fun exchange =>
      (readConnection exchange.sent, readsKeepAlive exchange.sent, exchange.call)) =
        some (some (connection, false, .modConnEventRead))) :
    ∃ conn exchange, askKept events = .ok (conn, some exchange) ∧ conn.Idle ∧ conn.req.Parsed ∧
      readConnection exchange.sent = connection ∧ readsKeepAlive exchange.sent = false ∧
      exchange.Kept (.front Bytes Bytes) := by
  obtain ⟨⟨conn, asked⟩, ran, read⟩ := ok_of_map outcome
  obtain ⟨exchange, rfl, all⟩ := Option.map_eq_some_iff.mp read
  obtain ⟨announced, both⟩ := Prod.mk.inj all
  obtain ⟨closes, called⟩ := Prod.mk.inj both
  obtain ⟨idle, parsed, responds⟩ := askKept_asked ran
  refine ⟨conn, exchange, ran, idle, parsed, announced, closes, ?_⟩
  refine (respond_ends _ responds).elim And.right fun closed => ?_
  simp [called] at closed

/-- The client reads `close` in the page about a missing file, and no such header where the
head is put together from two renderings.  Both connections are kept. -/
theorem missing_page_kept :
    (∃ conn exchange, askKept [missingEvent [1000, 1000]] = .ok (conn, some exchange) ∧
        conn.Idle ∧ conn.req.Parsed ∧ readConnection exchange.sent = some (bytes "close") ∧
        readsKeepAlive exchange.sent = false ∧ exchange.Kept (.front Bytes Bytes)) ∧
      ∃ conn exchange, askKept [presentEvent [60, 0], presentEvent [1000, 1000]] =
          .ok (conn, some exchange) ∧
        conn.Idle ∧ conn.req.Parsed ∧ readConnection exchange.sent = none ∧
        readsKeepAlive exchange.sent = false ∧ exchange.Kept (.front Bytes Bytes) :=
  ⟨askKept_kept (by decide +kernel), askKept_kept (by decide +kernel)⟩

theorem askKept_honest {first : OutAnswers} {later : List OutAnswers} {found : OpenFile × Int}
    (opens : first.opens = fun _ => .ok found)
    (outcome : (askKept (first :: later)).toOption.map (fun asked =>
      (asked.2.isSome, asked.1.req.isBadReq,
        decide (OneRendering (.front Bytes Bytes) pageServer asked.1.req first later))) =
      some (true, false, true)) :
    ∃ conn exchange, askKept (first :: later) = .ok (conn, some exchange) ∧ conn.Idle ∧
      conn.req.Parsed ∧ OneRendering (.front Bytes Bytes) pageServer conn.req first later ∧
      conn.respond (.front Bytes Bytes) pageServer (first :: later) = some exchange ∧
      Honest (.front Bytes Bytes) pageServer conn.req
        (first.opens (fileName (.front Bytes Bytes) pageServer conn.req)) := by
  obtain ⟨⟨conn, asked⟩, ran, all⟩ := ok_of_map outcome
  obtain ⟨given, both⟩ := Prod.mk.inj all
  obtain ⟨good, one⟩ := Prod.mk.inj both
  obtain ⟨exchange, rfl⟩ := Option.isSome_iff_exists.mp given
  obtain ⟨idle, parsed, responds⟩ := askKept_asked ran
  have routed (finish : HttpResponse → HttpResponse) : RoutedHonestly pageServer conn.req finish := by
    have notBad : ¬ conn.req.isBadReq = true := by simp [show conn.req.isBadReq = false from good]
    rw [RoutedHonestly, if_neg notBad]
    trivial
  refine ⟨conn, exchange, ran, idle, parsed, of_decide_eq_true one, responds, ?_⟩
  rw [opens]
  unfold Honest
  split
  · exact .inr (routed _)
  · exact routed _

/-- A page in two calls, and a redirect whose head goes out in two. -/
theorem kept_as_announced :
    (∃ conn exchange, askKept [presentEvent [60, 1000, 0], presentEvent [1000]] =
        .ok (conn, some exchange) ∧ exchange.AsAnnounced (.front Bytes Bytes)) ∧
      ∃ conn exchange, askKept [directoryEvent [60, 0], directoryEvent [1000]] =
        .ok (conn, some exchange) ∧ exchange.AsAnnounced (.front Bytes Bytes) := by
  obtain ⟨conn, exchange, ran, idle, parsed, one, responds, honest⟩ :=
    @askKept_honest (presentEvent [60, 1000, 0]) [presentEvent [1000]] (page, 5) rfl (by decide +kernel)
  obtain ⟨conn', exchange', ran', idle', parsed', one', responds', honest'⟩ :=
    @askKept_honest (directoryEvent [60, 0]) [directoryEvent [1000]] (⟨true, []⟩, 0) rfl
      (by decide +kernel)
  exact ⟨⟨conn, exchange, ran, (processOut_keeps_as_announced_iff idle parsed one responds).mpr honest⟩,
    conn', exchange', ran', (processOut_keeps_as_announced_iff idle' parsed' one' responds').mpr honest'⟩

end UserConn

end LiteWebServer
