import LiteWebServer.UserConn.Conversation
import LiteWebServer.UserConn.DocRoot

namespace LiteWebServer

open Data

/-! Where a client gets that follows the redirects of the server. -/

namespace ReadResponse

/-- The three bytes behind the version. -/
def statusCode (message : ReadResponse) : Bytes := (message.statusLine.drop 9).take 3

/-- Where the client is sent instead. -/
def location? (message : ReadResponse) : Option Bytes :=
  if message.statusCode = bytes "301" then message.headers.lookup (bytes "Location") else none

/-- The answer has the file, or says why there is none. -/
def Tells (message : ReadResponse) : Except Errno OpenFile → Prop
  | .ok file => message.statusCode = bytes "200" ∧ message.body = file.content
  | .error errno => message.statusCode = if errno = .enoent then bytes "404" else bytes "500"

end ReadResponse

namespace HttpResponse

variable {order : HashOrder Bytes Bytes} {rsp : HttpResponse}

theorem headerOper_code (oper : HeaderOper) (key value : Bytes) :
    (rsp.headerOper order oper key value).code = rsp.code := by
  cases oper with
  | add => rfl
  | modify => rfl
  | clear => rfl
  | del =>
      unfold headerOper
      dsimp only
      split <;> rfl

theorem updateContentType_code (type : HttpContentType) (charset : Bytes) :
    (rsp.updateContentType order type charset).code = rsp.code := by
  unfold updateContentType
  dsimp only
  split
  · exact headerOper_code _ _ _
  · split
    · exact headerOper_code _ _ _
    · exact headerOper_code _ _ _

/-- The status line as the client cuts it. -/
theorem message_statusCode (body : Bytes) (version : rsp.httpVer.length = 8)
    (digits : (decimal rsp.code.number).length = 3) :
    (rsp.message body).statusCode = decimal rsp.code.number := by
  have front : (rsp.httpVer ++ bytes " ").length = 9 := by
    rw [List.length_append, version]
    rfl
  have line : (rsp.message body).statusLine =
      (rsp.httpVer ++ bytes " ") ++ (decimal rsp.code.number ++ (bytes " " ++ httpCodeToStr rsp.code)) := by
    simp only [message, statusLine, List.append_assoc]
  rw [ReadResponse.statusCode, line, ← front, List.drop_left, ← digits, List.take_left]

theorem message_header (body key : Bytes) : (rsp.message body).headers.lookup key = rsp.getHeader key :=
  lookup_pairs _ _

end HttpResponse

section

variable {order : HashOrder Bytes Bytes} {req : HttpRequest}

theorem errHandler301_status :
    (errHandler301 order req).code = .movedPermanently ∧ (errHandler301 order req).httpVer = req.httpVer :=
  ⟨HttpResponse.headerOper_code _ _ _, HttpResponse.headerOper_httpVer _ _ _⟩

theorem errHandler301_location :
    (errHandler301 order req).getHeader (bytes "Location") = some (req.path ++ bytes "/") := by
  unfold errHandler301 HttpResponse.setNoBody
  rw [HttpResponse.getHeader_del, if_neg (by decide), HttpResponse.getHeader_modify,
    if_neg (by decide)]
  exact (HttpResponse.getHeader_add _ _ _).trans (if_pos rfl)

theorem defErrHandler_status (code : HttpCode) :
    (defErrHandler order code req).code = code ∧ (defErrHandler order code req).httpVer = req.httpVer :=
  ⟨HttpResponse.updateContentType_code _ _, HttpResponse.updateContentType_httpVer _ _⟩

theorem routePath_unrouted_status {server : Server} (good : req.isBadReq = false)
    (unrouted : server.router req.path = none) :
    (UserConn.routePath order server req).code = .ok ∧
      (UserConn.routePath order server req).httpVer = req.httpVer := by
  have notBad : ¬ req.isBadReq = true := by simp [good]
  rw [UserConn.routePath, if_neg notBad, unrouted]
  dsimp only
  split <;>
    exact ⟨HttpResponse.updateContentType_code _ _, HttpResponse.updateContentType_httpVer _ _⟩

end

/-! ## The names that are opened -/

/-- What `process_out` opens for a path that is not in the router. -/
def pageName (docRoot path : Bytes) : Bytes := cStr (combineTwoPath docRoot (fileOf path))

/-- The file system reads slashes that follow each other as one. -/
def Squeezes (files : Bytes → Except Errno OpenFile) : Prop :=
  ∀ front back, files (front ++ bytes "//" ++ back) = files (front ++ bytes "/" ++ back)

def isDir : Except Errno OpenFile → Bool
  | .ok file => file.isDir
  | .error _ => false

variable {files : Bytes → Except Errno OpenFile} {docRoot path : Bytes}

/-- What is joined to the document root depends on the beginning of the path only. -/
theorem combineTwoPath_append (nonempty : path ≠ []) :
    ∃ front, ∀ back, combineTwoPath docRoot (path ++ back) = front ++ back := by
  obtain ⟨c, rest, rfl⟩ := List.exists_cons_of_ne_nil nonempty
  by_cases bare : docRoot = []
  · exact ⟨c :: rest, fun back => by rw [combineTwoPath, if_pos bare]⟩
  · have joint (back : Bytes) : ¬ (c :: rest) ++ back = [] := by simp
    by_cases twice : docRoot.getLast? = some 47 ∧ c = 47
    · refine ⟨docRoot ++ rest, fun back => ?_⟩
      rw [combineTwoPath, if_neg bare, if_neg (joint back), if_pos (by simpa using twice)]
      simp
    · by_cases neither : docRoot.getLast? ≠ some 47 ∧ c ≠ 47
      · refine ⟨docRoot ++ bytes "/" ++ (c :: rest), fun back => ?_⟩
        rw [combineTwoPath, if_neg bare, if_neg (joint back), if_neg (by simpa using twice),
          if_pos (by simpa using neither), List.append_assoc _ (c :: rest)]
      · refine ⟨docRoot ++ (c :: rest), fun back => ?_⟩
        rw [combineTwoPath, if_neg bare, if_neg (joint back), if_neg (by simpa using twice),
          if_neg (by simpa using neither), List.append_assoc]

theorem fileOf_slash (path : Bytes) : fileOf (path ++ bytes "/") = path ++ bytes "/" ++ bytes "index.html" :=
  if_pos (List.getLast?_append_of_ne_nil _ (by decide))

/-- Another slash behind a slash leads to the same page. -/
theorem Squeezes.pageName (squeezes : Squeezes files) (nonempty : path ≠ []) :
    files (pageName docRoot (path ++ bytes "/" ++ bytes "/")) =
      files (pageName docRoot (path ++ bytes "/")) := by
  obtain ⟨front, joined⟩ := @combineTwoPath_append docRoot path nonempty
  rw [LiteWebServer.pageName, LiteWebServer.pageName, fileOf_slash, fileOf_slash]
  simp only [List.append_assoc, joined]
  by_cases nul : 0 ∈ front
  · rw [cStr_append_of_nul nul, cStr_append_of_nul nul]
  · have two : cStr (bytes "/" ++ (bytes "/" ++ bytes "index.html")) =
        bytes "//" ++ bytes "index.html" := by decide
    have one : cStr (bytes "/" ++ bytes "index.html") = bytes "/" ++ bytes "index.html" := by decide
    rw [cStr_append_of_no_nul nul, cStr_append_of_no_nul nul, two, one, ← List.append_assoc,
      ← List.append_assoc]
    exact squeezes front _

/-! ## The answers -/

namespace UserConn

variable {order : HashOrder Bytes Bytes} {router : Bytes → Option (HttpMethod → Option HandleFunc)}
  {req : HttpRequest} {outcome : Except Errno OpenFile}

/-- The answer as the client reads it. -/
def messageTo (order : HashOrder Bytes Bytes) (server : Server) (req : HttpRequest)
    (outcome : Except Errno OpenFile) : ReadResponse :=
  (answerTo order server req outcome).message (answerBody order server req outcome)

theorem fileName_unrouted {server : Server} (good : req.isBadReq = false)
    (unrouted : server.router req.path = none) :
    fileName order server req = pageName server.docRoot req.path := by
  rw [fileName, (routePath_unrouted good unrouted).1]
  rfl

/-- A directory is answered with a redirect to the path with a slash behind it. -/
theorem messageTo_dir (good : req.isBadReq = false) (version : req.httpVer.length = 8)
    (unrouted : router req.path = none) (dir : isDir outcome = true) :
    (messageTo order (.builtin order docRoot router) req outcome).location? =
      some (req.path ++ bytes "/") := by
  have routed := (@routePath_unrouted order (.builtin order docRoot router) req good unrouted).2
  have answer : answerTo order (.builtin order docRoot router) req outcome = errHandler301 order req := by
    rw [answerTo, chosen_eq rfl, if_pos routed]
    cases outcome with
    | ok file => exact if_pos dir
    | error errno => cases dir
  obtain ⟨code, ver⟩ := @errHandler301_status order req
  have status : (messageTo order (.builtin order docRoot router) req outcome).statusCode =
      bytes "301" := by
    rw [messageTo, answer, HttpResponse.message_statusCode _ (ver ▸ version) (by rw [code]; rfl), code]
    rfl
  rw [ReadResponse.location?, if_pos status, messageTo, answer, HttpResponse.message_header,
    errHandler301_location]

/-- Anything else is answered with what it is. -/
theorem messageTo_plain (good : req.isBadReq = false) (version : req.httpVer.length = 8)
    (unrouted : router req.path = none) (plain : isDir outcome = false) :
    (messageTo order (.builtin order docRoot router) req outcome).location? = none ∧
      (messageTo order (.builtin order docRoot router) req outcome).Tells outcome := by
  obtain ⟨body, routed⟩ := @routePath_unrouted order (.builtin order docRoot router) req good unrouted
  obtain ⟨code, ver⟩ :=
    @routePath_unrouted_status order req (.builtin order docRoot router) good unrouted
  cases outcome with
  | ok file =>
      have regular : ¬ file.isDir = true := Bool.eq_false_iff.mp plain
      have answer : answerTo order (.builtin order docRoot router) req (.ok file) =
          fileRsp order (.builtin order docRoot router) req file := by
        rw [answerTo, chosen_eq rfl, if_pos routed]
        exact if_neg regular
      have isFile : (fileRsp order (.builtin order docRoot router) req file).bodyIsFile = true := routed
      have status : (messageTo order (.builtin order docRoot router) req (.ok file)).statusCode =
          bytes "200" := by
        have code' : (fileRsp order (.builtin order docRoot router) req file).code = .ok := code
        have ver' : (fileRsp order (.builtin order docRoot router) req file).httpVer.length = 8 := by
          rw [← version, ← ver]
          rfl
        rw [messageTo, answer, HttpResponse.message_statusCode _ ver' (by rw [code']; rfl), code']
        rfl
      refine ⟨?_, status, ?_⟩
      · rw [ReadResponse.location?, status]
        exact if_neg (by decide)
      · rw [messageTo, HttpResponse.message, answerBody, answer, if_pos isFile]
        rfl
  | error errno =>
      have answer : answerTo order (.builtin order docRoot router) req (.error errno) =
          defErrHandler order (if errno = .enoent then .notFound else .internalServerError) req := by
        rw [answerTo, chosen_eq rfl, if_pos routed]
        dsimp only
        split <;> rfl
      have status : (messageTo order (.builtin order docRoot router) req (.error errno)).statusCode =
          if errno = .enoent then bytes "404" else bytes "500" := by
        obtain ⟨code', ver'⟩ := @defErrHandler_status order req
          (if errno = .enoent then .notFound else .internalServerError)
        rw [messageTo, answer,
          HttpResponse.message_statusCode _ (ver' ▸ version) (by rw [code']; split <;> rfl), code']
        split <;> rfl
      refine ⟨?_, status⟩
      rw [ReadResponse.location?, status]
      exact if_neg (by split <;> decide)

end UserConn

/-! ## Following redirects -/

/-- A client asks on a connection of its own and reads the whole answer, while `files` is what
`open` and `fstat` find. -/
structure Gets (order : HashOrder Bytes Bytes) (server : Server)
    (files : Bytes → Except Errno OpenFile) (talk : Talk) (message : ReadResponse) : Prop where
  regular : talk.Regular order server
  settled : (Session.start order).SettledTalks order server [talk]
  found : talk.outcome = files (UserConn.fileName order server talk.text.asRead)
  read : ∃ talked, (Session.start order).converse order server [talk] = .ok talked ∧
    talked.finished = true ∧ readResponse talked.sent = some (message, [])

variable {order : HashOrder Bytes Bytes} {server : Server} {talk : Talk} {message : ReadResponse}
  {messages : List ReadResponse} {router : Bytes → Option (HttpMethod → Option HandleFunc)}

theorem Talk.heard_one (talk : Talk) : Talk.heard [talk] = [talk] := by
  rw [Talk.heard_cons]
  split <;> rfl

theorem Gets.reads (registers : server.Registers (UserConn.BuildsPlainly order))
    (gets : Gets order server files talk message) :
    message = UserConn.messageTo order server talk.text.asRead talk.outcome := by
  have regular : ∀ other ∈ Talk.heard [talk], other.Regular order server := by
    rw [Talk.heard_one]
    exact List.forall_mem_singleton.mpr gets.regular
  obtain ⟨talked, ran, -, all⟩ := Session.start_ready.converse [talk] regular gets.settled
  obtain ⟨talked', ran', finished, read⟩ := gets.read
  obtain rfl := Except.ok.inj (ran.symm.trans ran')
  have sent := all finished
  rw [Talk.heard_one, List.map_singleton, List.flatMap_singleton] at sent
  have written := Talk.answer_writes registers (List.forall_mem_singleton.mpr gets.regular) _
    (List.mem_map_of_mem (List.mem_singleton_self talk)) []
  rw [List.append_nil, ← sent, read] at written
  exact (Prod.mk.inj (Option.some.inj written)).1

theorem Gets.answer (plain : (Server.builtin order docRoot router).Registers (UserConn.BuildsPlainly order))
    (gets : Gets order (.builtin order docRoot router) files talk message)
    (unrouted : router talk.text.path = none) :
    (isDir (files (pageName docRoot talk.text.path)) = true →
      message.location? = some (talk.text.path ++ bytes "/")) ∧
    (isDir (files (pageName docRoot talk.text.path)) = false →
      message.location? = none ∧ message.Tells (files (pageName docRoot talk.text.path))) := by
  have version : talk.text.asRead.httpVer.length = 8 := by
    change talk.text.version.text.length = 8
    cases talk.text.version <;> rfl
  have outcome := gets.found
  rw [UserConn.fileName_unrouted rfl unrouted] at outcome
  change talk.outcome = files (pageName docRoot talk.text.path) at outcome
  rw [gets.reads plain, ← outcome]
  exact ⟨UserConn.messageTo_dir rfl version unrouted, UserConn.messageTo_plain rfl version unrouted⟩

/-- Where a client is in the end that starts at a path. -/
def landing (files : Bytes → Except Errno OpenFile) (docRoot path : Bytes) : Bytes :=
  if isDir (files (pageName docRoot path)) then path ++ bytes "/" else path

/-- What following redirects from a path comes to. -/
structure Browsed (files : Bytes → Except Errno OpenFile) (docRoot path : Bytes)
    (messages : List ReadResponse) : Prop where
  direct : isDir (files (pageName docRoot path)) = false →
    ∃ page, messages = [page] ∧ page.location? = none
  sent : isDir (files (pageName docRoot path)) = true →
    ∃ message later, messages = message :: later ∧ message.location? = some (path ++ bytes "/")
  /-- One redirect is enough, unless the page of the directory is a directory itself. -/
  ends : isDir (files (pageName docRoot (path ++ bytes "/"))) = false → messages.length ≤ 2
  arrives : isDir (files (pageName docRoot (path ++ bytes "/"))) = false →
    ∀ message page, messages = [message, page] → page.location? = none
  /-- If it is, redirects are all there is. -/
  endless : isDir (files (pageName docRoot path)) = true →
    isDir (files (pageName docRoot (path ++ bytes "/"))) = true →
      ∀ message ∈ messages, message.location?.isSome
  lands : ∀ message ∈ messages, message.location? = none →
    message.Tells (files (pageName docRoot (landing files docRoot path)))

theorem Browsed.stay (path : Bytes) (dir : isDir (files (pageName docRoot path)) = true →
      message.location? = some (path ++ bytes "/"))
    (page : isDir (files (pageName docRoot path)) = false →
      message.location? = none ∧ message.Tells (files (pageName docRoot path))) :
    Browsed files docRoot path [message] where
  direct here := ⟨message, rfl, (page here).1⟩
  sent here := ⟨message, [], rfl, dir here⟩
  ends _ := by simp
  arrives _ _ _ two := by simp at two
  endless here _ := by
    rw [List.forall_mem_singleton, dir here]
    rfl
  lands := by
    rw [List.forall_mem_singleton]
    intro stays
    cases here : isDir (files (pageName docRoot path)) with
    | true =>
        rw [dir here] at stays
        cases stays
    | false =>
        rw [landing, if_neg (Bool.eq_false_iff.mp here)]
        exact (page here).2

theorem Browsed.follow (squeezes : Squeezes files) {path : Bytes} (nonempty : path ≠ [])
    (here : isDir (files (pageName docRoot path)) = true)
    (sent : message.location? = some (path ++ bytes "/"))
    (more : Browsed files docRoot (path ++ bytes "/") messages) :
    Browsed files docRoot path (message :: messages) := by
  have onwards := @Squeezes.pageName files docRoot path squeezes nonempty
  have endless (index : isDir (files (pageName docRoot (path ++ bytes "/"))) = true) :
      ∀ other ∈ message :: messages, other.location?.isSome := by
    refine List.forall_mem_cons.mpr ⟨by rw [sent]; rfl, more.endless index ?_⟩
    rw [onwards]
    exact index
  constructor
  · intro page
    rw [here] at page
    cases page
  · exact fun _ => ⟨message, messages, rfl, sent⟩
  · intro index
    obtain ⟨page, rfl, -⟩ := more.direct index
    exact le_rfl
  · intro index first page two
    obtain ⟨last, rfl, stays⟩ := more.direct index
    cases two
    exact stays
  · exact fun _ => endless
  · intro other member stays
    cases index : isDir (files (pageName docRoot (path ++ bytes "/"))) with
    | true =>
        have sent' := endless index other member
        rw [stays] at sent'
        cases sent'
    | false =>
        have landed : landing files docRoot path = path ++ bytes "/" := if_pos here
        have landed' : landing files docRoot (path ++ bytes "/") = path ++ bytes "/" :=
          if_neg (Bool.eq_false_iff.mp index)
        rcases List.mem_cons.mp member with rfl | later
        · rw [sent] at stays
          cases stays
        · have told := more.lands other later stays
          rw [landed'] at told
          rw [landed]
          exact told

end LiteWebServer
