import LiteWebServer.Http.Client
import LiteWebServer.UserConn.Answers
import LiteWebServer.UserConn.Delimited
import LiteWebServer.UserConn.HeadLines

namespace LiteWebServer

open Data

/-! What one request is answered with: the bytes on the connection, and what a client reads
of them. -/

theorem lookup_pairs (entries : List (Sigma fun _ : Bytes => Bytes)) (key : Bytes) :
    (entries.map fun kv => (kv.1, kv.2)).lookup key = entries.dlookup key := by
  induction entries with
  | nil => rfl
  | cons kv later ih =>
      obtain ⟨other, value⟩ := kv
      by_cases same : key = other
      · subst same
        simp
      · have differs : (key == other) = false := beq_false_of_ne same
        simp only [List.map_cons, List.lookup_cons, differs]
        rw [ih, List.dlookup_cons_ne _ _ same]

theorem readHeader_joined {key value : Bytes} (free : ¬ bytes ": " <:+: key) :
    readHeader (key ++ bytes ": " ++ value) = some (key, value) := by
  have colon : Unbordered (bytes ": ") := by decide
  rw [readHeader, find?_piece colon free, Option.map_some, take_joined, drop_joined (by rfl)]

theorem readHeaders_joined (entries : List (Sigma fun _ : Bytes => Bytes))
    (free : ∀ kv ∈ entries, ¬ bytes ": " <:+: kv.1) :
    (entries.map fun kv => kv.1 ++ bytes ": " ++ kv.2).mapM readHeader =
      some (entries.map fun kv => (kv.1, kv.2)) := by
  induction entries with
  | nil => rfl
  | cons kv later ih =>
      rw [List.map_cons, List.mapM_cons, readHeader_joined (free kv List.mem_cons_self),
        ih fun kv member => free kv (List.mem_cons_of_mem _ member)]
      rfl

namespace HttpResponse

variable {rsp : HttpResponse} {body : Bytes}

/-- What a client reads of a response with this body. -/
def message (rsp : HttpResponse) (body : Bytes) : ReadResponse where
  statusLine := rsp.statusLine
  headers := rsp.headers.entries.map fun kv => (kv.1, kv.2)
  body := body

theorem readLength_announced (announced : rsp.announcedLength = some (decimal body.length)) :
    readLength (rsp.message body).headers = some body.length := by
  have found : (rsp.message body).headers.lookup (bytes "Content-Length") =
      some (decimal body.length) := (lookup_pairs _ _).trans announced
  have digits : decimal body.length ≠ [] ∧ (decimal body.length).all isDigit = true :=
    ⟨decimal_ne_nil _, List.all_eq_true.mpr fun _ member => decimal_isDigit member⟩
  rw [readLength, found]
  change (if decimal body.length ≠ [] ∧ (decimal body.length).all isDigit = true then
    some (decimalValue (decimal body.length)) else none) = _
  rw [if_pos digits, decimalValue_decimal]

/-- The lines of a head that no header breaks. -/
theorem CleanHead.readLines (clean : rsp.CleanHead) (rest : Bytes) :
    readLines (rsp.head ++ rest) =
      some (rsp.statusLine :: rsp.headers.entries.map fun kv => kv.1 ++ bytes ": " ++ kv.2, rest) := by
  have shape : rsp.head ++ rest =
      ((rsp.statusLine :: rsp.headers.entries.map fun kv => kv.1 ++ bytes ": " ++ kv.2).flatMap
        fun line => line ++ crlf) ++ (crlf ++ rest) := by
    simp only [head, baseText, statusLine, List.flatMap_cons, List.flatMap_map, List.append_assoc]
  rw [shape]
  refine readLines_joined _ (fun line member => ?_) _
  rcases List.mem_cons.mp member with rfl | header
  · exact ⟨by simp [statusLine, bytes], statusLine_free clean.version⟩
  · obtain ⟨kv, inside, rfl⟩ := List.mem_map.mp header
    exact ⟨by simp [bytes], (clean.headers kv.1 kv.2 (AList.mem_lookup_iff.mpr inside)).line⟩

/-- A head that no header breaks, and the announced length, are enough to find the end of
the response. -/
theorem CleanHead.writes (clean : rsp.CleanHead)
    (announced : rsp.announcedLength = some (decimal body.length)) :
    Writes readResponse (rsp.head ++ body) (rsp.message body) := by
  intro rest
  have cut := clean.readLines (body ++ rest)
  rw [← List.append_assoc] at cut
  have headers : (rsp.headers.entries.map fun kv => kv.1 ++ bytes ": " ++ kv.2).mapM readHeader =
      some (rsp.message body).headers :=
    readHeaders_joined _ fun kv member =>
      (clean.headers kv.1 kv.2 (AList.mem_lookup_iff.mpr member)).colon
  have enough : body.length ≤ (body ++ rest).length := by
    rw [List.length_append]
    omega
  simp only [readResponse, cut, List.head?_cons, List.tail_cons, headers,
    readLength_announced announced, bind, Option.bind, if_pos enough, List.take_left,
    List.drop_left]
  rfl

end HttpResponse

namespace UserConn

variable (order : HashOrder Bytes Bytes) (server : Server)

/-! ## The answer to a request -/

/-- The response to a request when `open` and `fstat` give this outcome. -/
def answerTo (req : HttpRequest) (outcome : Except Errno OpenFile) : HttpResponse :=
  chosen order server { fresh order with req } outcome

/-- What stands behind the head of the answer. -/
def answerBody (req : HttpRequest) (outcome : Except Errno OpenFile) : Bytes :=
  if (answerTo order server req outcome).bodyIsFile then outcome.toOption.elim [] OpenFile.content
  else (answerTo order server req outcome).body

def answerText (req : HttpRequest) (outcome : Except Errno OpenFile) : Bytes :=
  (answerTo order server req outcome).head ++ answerBody order server req outcome

/-- Nothing comes between an answer and its client.  All calls find the same file, or fail
alike.  A page for an error is in memory, and the counter can hold the length of the head.
The head of a file goes out in the first call, unless its handler announced the length. -/
structure Undisturbed (req : HttpRequest) (outcome : Except Errno OpenFile)
    (events : List OutEvent) : Prop where
  steady : ∀ event ∈ events, event.opens (fileName order server req) = outcome
  small : (answerTo order server req outcome).head.length < 2 ^ 32
  page : (answerTo order server req outcome).bodyIsFile = true →
    ∃ file, outcome = .ok file ∧ file.isDir = false
  whole : (answerTo order server req outcome).bodyIsFile = true → ∀ event ∈ events.head?,
    (answerTo order server req outcome).head.length ≤ taken event.sends ∨
      (routePath order server req).announcedLength =
        (answerTo order server req outcome).announcedLength

variable {order server} {conn : UserConn} {req : HttpRequest} {outcome : Except Errno OpenFile}

theorem chosen_answerTo (closed : conn.fileFd = none) :
    chosen order server conn outcome = answerTo order server conn.req outcome := by
  rw [answerTo, chosen_eq closed, chosen_eq rfl]

theorem answerTo_file {file : OpenFile} (regular : file.isDir = false)
    (isFile : (answerTo order server req (.ok file)).bodyIsFile = true) :
    (routePath order server req).bodyIsFile = true ∧
      answerTo order server req (.ok file) = fileRsp order server req file := by
  have choice := @chosen_eq { fresh order with req } order server (.ok file) rfl
  change answerTo order server req (.ok file) = _ at choice
  cases routed : (routePath order server req).bodyIsFile with
  | true =>
      refine ⟨rfl, choice.trans ?_⟩
      simp [routed, regular, fileRsp]
  | false =>
      rw [choice] at isFile
      simp [routed] at isFile

/-- What the calls send is the answer, or its beginning while they have not finished. -/
theorem Idle.answers (idle : conn.Idle) {events : List OutEvent}
    (undisturbed : Undisturbed order server conn.req outcome events) :
    ∃ run, conn.outRun order server events = .ok run ∧
      run.sent <+: answerText order server conn.req outcome ∧
      (run.finished = true → run.sent = answerText order server conn.req outcome) := by
  have choice := @chosen_answerTo order server conn outcome idle.fileFd
  cases isFile : (answerTo order server conn.req outcome).bodyIsFile with
  | false =>
      have text : answerText order server conn.req outcome =
          (chosen order server conn outcome).head ++ (chosen order server conn outcome).body := by
        rw [answerText, answerBody, choice, isFile, if_neg Bool.false_ne_true]
      rw [text]
      exact (idle.delivering _ _).delivers events (by rw [choice, isFile])
        (by rw [choice]; exact undisturbed.small) undisturbed.steady
  | true =>
      obtain ⟨file, rfl, regular⟩ := undisturbed.page isFile
      obtain ⟨routed, rsp⟩ := answerTo_file regular isFile
      have text : answerText order server conn.req (.ok file) =
          (fileRsp order server conn.req file).head ++ file.content := by
        rw [answerText, answerBody, isFile, if_pos rfl, rsp]
        rfl
      have small := undisturbed.small
      rw [rsp] at small
      rw [text]
      cases events with
      | nil => exact ⟨_, rfl, List.nil_prefix, fun done => by cases done⟩
      | cons event later =>
          have opens := undisturbed.steady event List.mem_cons_self
          have length : (fileRsp order server conn.req file).announcedLength =
              some (decimal file.content.length) :=
            (HttpResponse.getHeader_modify _ _ _).trans (if_pos rfl)
          obtain ⟨run, ran, inOrder, all, -⟩ :=
            (idle.unfinished (fileRsp order server conn.req file) _).sendsOn_cons
              (idle.prepare_file routed opens regular) routed (fun _ => rfl) small
              (fun after new more req base => by
                refine more.sendsOn later (by rwa [req]) small
                  ((undisturbed.whole isFile event rfl).imp (fun enough => base (.inr ?_))
                    fun announced => ?_)
                · rw [rsp] at enough
                  exact Nat.le_trans enough (Nat.le_add_left _ _)
                · rw [rsp, length] at announced
                  rw [req]
                  exact (HttpResponse.head_modify_same announced).symm)
          exact ⟨run, ran, inOrder, all⟩

/-- A finished exchange on a connection that is kept leaves nothing of itself behind. -/
theorem outRun_kept (events : List OutEvent) {conn : UserConn} {run : OutRun}
    (ran : conn.outRun order server events = .ok run) (finished : run.finished = true)
    (keep : keepAlive conn.req = true) :
    ∃ before : UserConn, before.SameInput conn ∧ run.conn = before.connStateReset order := by
  induction events generalizing conn run with
  | nil =>
      cases ran
      cases finished
  | cons event later ih =>
      obtain ⟨result, out, rest⟩ := bind_eq_ok.mp ran
      obtain ⟨unfinished, kept⟩ := processOut_input out
      split at rest
      · rename_i done
        cases rest
        rcases kept done with ⟨-, -, before⟩ | ⟨drop, -⟩
        · exact before
        · rw [drop] at keep
          cases keep
      · rename_i more
        obtain ⟨run', later', same⟩ := bind_eq_ok.mp rest
        cases same
        have input := unfinished (Bool.eq_false_iff.mpr more)
        obtain ⟨before, held, reset⟩ := ih later' finished (by rwa [input.req])
        exact ⟨before, held.trans input, reset⟩

/-! ## Answers that a client can take apart -/

/-- A handler that adds no line ends of its own and sets one body. -/
structure BuildsPlainly (order : HashOrder Bytes Bytes) (func : HandleFunc) : Prop where
  cleanly : BuildsCleanly order func
  body : Builds order HandlerCall.OneBody func

theorem rootHandler_plain : BuildsPlainly order (rootHandler order) where
  cleanly := BuiltIn.root.buildsCleanly
  body := rootHandler_builds fun _ _ _ => ⟨[], _, [], rfl, by simp, rfl, by simp⟩

theorem staticFileHandler_plain : BuildsPlainly order (staticFileHandler order) where
  cleanly := BuiltIn.static.buildsCleanly
  body := staticFileHandler_builds fun _ _ _ => ⟨[], _, [], rfl, by simp, rfl, by simp⟩

theorem builtin_plain {docRoot : Bytes} {router : Bytes → Option (HttpMethod → Option HandleFunc)}
    (routed : ∀ path methods method func, router path = some methods → methods method = some func →
      BuildsPlainly order func) :
    (Server.builtin order docRoot router).Registers (BuildsPlainly order) where
  errHandlers code func found := by
    have bodies : (Server.builtin order docRoot router).Registers (Builds order HandlerCall.OneBody) :=
      builtin_registers
        (fun code data => ⟨[.setCode code, .headerOper .modify (bytes "Connection") (bytes "close")],
          .setBodyBin data .htmlType [], [], rfl, by simp [HandlerCall.leavesBody]; decide, rfl,
          by simp⟩)
        (fun location => ⟨[.setCode .movedPermanently, .headerOper .add (bytes "Location") location],
          .setNoBody, [], rfl, by simp [HandlerCall.leavesBody]; decide, rfl, by simp⟩)
        (fun path methods method func here found => (routed path methods method func here found).body)
    refine ⟨BuiltIn.buildsCleanly ?_, bodies.errHandlers code func found⟩
    cases code with
    | movedPermanently => cases found; exact .moved
    | badRequest => cases found; exact .page _
    | notFound => cases found; exact .page _
    | notAllowed => cases found; exact .page _
    | internalServerError => cases found; exact .page _
    | unknown => cases found
    | ok => cases found
    | forbidden => cases found
  router := routed

/-- A response that is no file comes from a handler as it is. -/
theorem answerTo_registered {kind : HandleFunc → Prop} (registers : server.Registers kind)
    (root : kind (rootHandler order)) (static : kind (staticFileHandler order))
    (inMemory : (answerTo order server req outcome).bodyIsFile = false) :
    ∃ func, kind func ∧ answerTo order server req outcome = func req := by
  have choice := @chosen_eq { fresh order with req } order server outcome rfl
  change answerTo order server req outcome = _ at choice
  rw [choice] at inMemory ⊢
  split
  · rename_i routed
    rw [if_pos routed] at inMemory
    cases outcome with
    | error errno =>
        dsimp only
        split
        · exact ⟨_, errHandler_registered registers _ _, rfl⟩
        · exact ⟨_, errHandler_registered registers _ _, rfl⟩
    | ok file =>
        dsimp only at inMemory ⊢
        split
        · exact ⟨_, errHandler_registered registers _ _, rfl⟩
        · rename_i regular
          rw [if_neg regular, (HttpResponse.headerOper_body _ _ _).2] at inMemory
          exact absurd (routed.symm.trans inMemory) (by simp)
  · exact routePath_registered registers root static req

/-- The answer announces what stands behind its head, and its lines are its own. -/
theorem answerTo_writes (registers : server.Registers (BuildsPlainly order)) (free : req.NoLineEnd)
    {events : List OutEvent} (undisturbed : Undisturbed order server req outcome events) :
    Writes readResponse (answerText order server req outcome)
      ((answerTo order server req outcome).message (answerBody order server req outcome)) := by
  cases isFile : (answerTo order server req outcome).bodyIsFile with
  | true =>
      obtain ⟨file, rfl, regular⟩ := undisturbed.page isFile
      obtain ⟨-, rsp⟩ := answerTo_file regular isFile
      obtain ⟨func, builds, routed⟩ :=
        routePath_registered registers rootHandler_plain staticFileHandler_plain req
      have body : answerBody order server req (.ok file) = file.content := by
        rw [answerBody, if_pos isFile]
        rfl
      rw [answerText, body, rsp]
      refine HttpResponse.CleanHead.writes ?_ ((HttpResponse.getHeader_modify _ _ _).trans (if_pos rfl))
      rw [fileRsp, routed]
      exact (builds.cleanly.cleanHead free).modify ⟨by decide, by decide, HttpResponse.decimal_free _⟩
  | false =>
      obtain ⟨func, builds, rsp⟩ :=
        answerTo_registered registers rootHandler_plain staticFileHandler_plain isFile
      have body : answerBody order server req outcome = (func req).body := by
        rw [answerBody, if_neg (Bool.eq_false_iff.mp isFile), rsp]
      rw [answerText, body, rsp]
      refine (builds.cleanly.cleanHead free).writes ((Builds.announced builds.body req).inMemory ?_)
      rw [← rsp, isFile]

end UserConn

end LiteWebServer
