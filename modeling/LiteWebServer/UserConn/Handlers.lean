import LiteWebServer.UserConn.Output

namespace LiteWebServer

open Data

/-! Handlers as the functions they are meant to be: each builds its response from the
constructor by calls on it. -/

inductive HandlerCall where
  | setCode (code : HttpCode)
  | headerOper (oper : HeaderOper) (key value : Bytes)
  | setBodyFile (path : Bytes) (type : HttpContentType) (charset : Bytes)
  | setBodyBin (data : Bytes) (type : HttpContentType) (charset : Bytes)
  | setNoBody

def HandlerCall.apply (order : HashOrder Bytes Bytes) (rsp : HttpResponse) :
    HandlerCall → HttpResponse
  | .setCode code => rsp.setCode code
  | .headerOper oper key value => rsp.headerOper order oper key value
  | .setBodyFile path type charset => rsp.setBodyFile order path type charset
  | .setBodyBin data type charset => rsp.setBodyBin order data type charset
  | .setNoBody => rsp.setNoBody order

def HttpResponse.build (order : HashOrder Bytes Bytes) (req : HttpRequest)
    (calls : List HandlerCall) : HttpResponse :=
  calls.foldl (HandlerCall.apply order) (.ofRequest order req)

/-- The handler builds every response with calls that are allowed. -/
def Builds (order : HashOrder Bytes Bytes) (allowed : List HandlerCall → Prop)
    (func : HandleFunc) : Prop :=
  ∀ req, ∃ calls, allowed calls ∧ func req = .build order req calls

/-- All handlers in the two tables are of this kind. -/
structure Server.Registers (server : Server) (kind : HandleFunc → Prop) : Prop where
  errHandlers : ∀ code func, server.errHandlers code = some func → kind func
  router : ∀ path methods method func, server.router path = some methods →
    methods method = some func → kind func

theorem HandlerCall.apply_httpVer (order : HashOrder Bytes Bytes) (rsp : HttpResponse)
    (call : HandlerCall) : (call.apply order rsp).httpVer = rsp.httpVer := by
  cases call with
  | setCode code => rfl
  | headerOper oper key value => exact HttpResponse.headerOper_httpVer _ _ _
  | setBodyFile path type charset => exact HttpResponse.updateContentType_httpVer _ _
  | setBodyBin data type charset => exact HttpResponse.updateContentType_httpVer _ _
  | setNoBody => exact HttpResponse.headerOper_httpVer _ _ _

theorem HttpResponse.build_httpVer (order : HashOrder Bytes Bytes) (req : HttpRequest)
    (calls : List HandlerCall) : (HttpResponse.build order req calls).httpVer = req.httpVer := by
  suffices kept : ∀ rsp : HttpResponse,
      (calls.foldl (HandlerCall.apply order) rsp).httpVer = rsp.httpVer from kept _
  induction calls with
  | nil => exact fun _ => rfl
  | cons call later ih => exact fun rsp => (ih _).trans (call.apply_httpVer order rsp)

section

variable {order : HashOrder Bytes Bytes} {allowed : List HandlerCall → Prop} {docRoot : Bytes}
  {router : Bytes → Option (HttpMethod → Option HandleFunc)}

theorem rootHandler_builds (one : ∀ path type charset, allowed [.setBodyFile path type charset]) :
    Builds order allowed (rootHandler order) :=
  fun req => ⟨_, one (req.path ++ bytes "index.html") .htmlType [], rfl⟩

theorem staticFileHandler_builds
    (one : ∀ path type charset, allowed [.setBodyFile path type charset]) :
    Builds order allowed (staticFileHandler order) :=
  fun req => ⟨_, one req.path (getFileContentType req.path) [], rfl⟩

/-- The initial error handlers are of this kind too. -/
theorem builtin_registers
    (page : ∀ code data, allowed [.setCode code,
      .headerOper .modify (bytes "Connection") (bytes "close"), .setBodyBin data .htmlType []])
    (moved : ∀ location, allowed [.setCode .movedPermanently,
      .headerOper .add (bytes "Location") location, .setNoBody])
    (routed : ∀ path methods method func, router path = some methods → methods method = some func →
      Builds order allowed func) :
    (Server.builtin order docRoot router).Registers (Builds order allowed) where
  errHandlers code func found := by
    have builds : ∀ code, Builds order allowed (defErrHandler order code) := fun code _ =>
      ⟨_, page code (errBody code), rfl⟩
    cases code with
    | movedPermanently => cases found; exact fun req => ⟨_, moved (req.path ++ bytes "/"), rfl⟩
    | badRequest => cases found; exact builds .badRequest
    | notFound => cases found; exact builds .notFound
    | notAllowed => cases found; exact builds .notAllowed
    | internalServerError => cases found; exact builds .internalServerError
    | unknown => cases found
    | ok => cases found
    | forbidden => cases found
  router := routed

end

namespace UserConn

variable {order : HashOrder Bytes Bytes} {server : Server} {kind : HandleFunc → Prop}

theorem errHandler_registered (registers : server.Registers kind) (code : HttpCode)
    (answered : code ∈ answeredCodes) : kind (server.errHandler code answered) :=
  registers.errHandlers code _ (Option.some_get (server.answered code answered)).symm

/-- The response to a request comes from a handler in the tables or one of the two
that serve files. -/
theorem routePath_registered (registers : server.Registers kind) (root : kind (rootHandler order))
    (static : kind (staticFileHandler order)) (req : HttpRequest) :
    ∃ func, kind func ∧ routePath order server req = func req := by
  unfold routePath
  split
  · exact ⟨_, errHandler_registered registers _ _, rfl⟩
  · split
    · rename_i methods routed
      split
      · rename_i callFn found
        exact ⟨callFn, registers.router _ methods _ callFn routed found, rfl⟩
      · exact ⟨_, errHandler_registered registers _ _, rfl⟩
    · split
      · exact ⟨_, root, rfl⟩
      · exact ⟨_, static, rfl⟩

theorem prepare_registered (registers : server.Registers kind) (root : kind (rootHandler order))
    (static : kind (staticFileHandler order)) (conn : UserConn) (event : OutEvent) :
    ∃ func, kind func ∧
      ((conn.prepare order server event).1.rsp = func conn.req ∨
        ∃ size, (conn.prepare order server event).1.rsp =
          (func conn.req).headerOper order .modify (bytes "Content-Length") (decimal size)) := by
  obtain ⟨func, good, routed⟩ := routePath_registered registers root static conn.req
  unfold prepare openBody
  split
  · dsimp only
    split
    · rename_i file _
      split
      · refine ⟨_, errHandler_registered registers .movedPermanently (by decide), .inl ?_⟩
        unfold closeFileFd
        split <;> rfl
      · exact ⟨func, good, .inr ⟨file.content.length, by rw [← routed]⟩⟩
    · split
      · exact ⟨_, errHandler_registered registers .notFound (by decide), .inl rfl⟩
      · exact ⟨_, errHandler_registered registers .internalServerError (by decide), .inl rfl⟩
  · exact ⟨func, good, .inl routed⟩

end UserConn

end LiteWebServer
