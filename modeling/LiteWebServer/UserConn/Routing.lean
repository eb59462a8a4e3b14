import LiteWebServer.Http.RequestHead
import LiteWebServer.UserConn.Output

namespace LiteWebServer

open Data

/-! Which function answers a request, for every table that registrations build. -/

namespace Server

/-- `register_router`: `router_[path][method] = func`. -/
def registerRouter (server : Server) (path : Bytes) (method : HttpMethod) (func : HandleFunc) :
    Server where
  docRoot := server.docRoot
  errHandlers := server.errHandlers
  router other :=
    if other = path then
      some fun kind => if kind = method then some func else (server.router path).bind fun methods => methods kind
    else server.router other
  answered := server.answered

end Server

/-- The arguments of one call of `register_router`. -/
structure Registration where
  path : Bytes
  method : HttpMethod
  func : HandleFunc

/-- The server after these calls, the table being empty at first. -/
def Server.routed (server : Server) (registrations : List Registration) : Server :=
  registrations.foldl (fun server call => server.registerRouter call.path call.method call.func)
    { server with router := fun _ => none }

/-- The function of the last registration for a path and a method. -/
def lastRegistered (registrations : List Registration) (path : Bytes) (method : HttpMethod) :
    Option HandleFunc :=
  (registrations.reverse.find? fun call => call.path = path ∧ call.method = method).map (·.func)

def PathRegistered (registrations : List Registration) (path : Bytes) : Prop :=
  ∃ call ∈ registrations, call.path = path

/-- What `route_path` calls. -/
inductive RouteChoice where
  | errHandler (code : HttpCode) (answered : code ∈ answeredCodes)
  | registered (func : HandleFunc)
  | rootHandler
  | staticFileHandler

def RouteChoice.answer (order : HashOrder Bytes Bytes) (server : Server) : RouteChoice → HandleFunc
  | .errHandler code answered => server.errHandler code answered
  | .registered func => func
  | .rootHandler => LiteWebServer.rootHandler order
  | .staticFileHandler => LiteWebServer.staticFileHandler order

theorem badRequest_answered : .badRequest ∈ answeredCodes := by decide

theorem notAllowed_answered : .notAllowed ∈ answeredCodes := by decide

/-- The branches of `route_path`. -/
def UserConn.routeChoice (server : Server) (req : HttpRequest) : RouteChoice :=
  if req.isBadReq then .errHandler .badRequest badRequest_answered
  else
    match server.router req.path with
    | some methods =>
        match methods req.method with
        | some callFn => .registered callFn
        | none => .errHandler .notAllowed notAllowed_answered
    | none => if req.path.getLast? = some 47 then .rootHandler else .staticFileHandler

/-- How requests with this path and method are to be answered. -/
structure Routed (registrations : List Registration) (path : Bytes) (method : HttpMethod)
    (choice : RouteChoice) : Prop where
  registered : ∀ func, lastRegistered registrations path method = some func →
    choice = .registered func
  notAllowed : PathRegistered registrations path → lastRegistered registrations path method = none →
    choice = .errHandler .notAllowed notAllowed_answered
  unregistered : ¬ PathRegistered registrations path → method = .get ∨ method = .post →
    choice = if path.getLast? = some 47 then .rootHandler else .staticFileHandler

variable {registrations : List Registration} {path : Bytes} {method : HttpMethod} {server : Server}

theorem lastRegistered_snoc (call : Registration) :
    lastRegistered (registrations ++ [call]) path method =
      if call.path = path ∧ call.method = method then some call.func
      else lastRegistered registrations path method := by
  unfold lastRegistered
  rw [List.reverse_append, List.reverse_singleton, List.singleton_append, List.find?_cons]
  split <;> simp_all

theorem lastRegistered_path {func : HandleFunc}
    (found : lastRegistered registrations path method = some func) :
    PathRegistered registrations path := by
  obtain ⟨call, last, -⟩ := Option.map_eq_some_iff.mp found
  have same := List.find?_some last
  simp only [decide_eq_true_eq] at same
  exact ⟨call, List.mem_reverse.mp (List.mem_of_find?_eq_some last), same.1⟩

/-- The table has the paths that are registered, and for each its last functions. -/
theorem routed_router (server : Server) (registrations : List Registration) (path : Bytes) :
    ((server.routed registrations).router path = none ↔ ¬ PathRegistered registrations path) ∧
      ∀ methods, (server.routed registrations).router path = some methods →
        ∀ method, methods method = lastRegistered registrations path method := by
  induction registrations using List.reverseRecOn with
  | nil => simp [Server.routed, PathRegistered]
  | append_singleton earlier call ih =>
      have step : server.routed (earlier ++ [call]) =
          (server.routed earlier).registerRouter call.path call.method call.func := by
        simp [Server.routed]
      rw [step]
      by_cases here : path = call.path
      · subst here
        refine ⟨by simp [Server.registerRouter, PathRegistered], fun methods found method => ?_⟩
        simp only [Server.registerRouter, if_true, Option.some.injEq] at found
        rw [← found, lastRegistered_snoc]
        dsimp only
        by_cases same : method = call.method
        · simp [same]
        · rw [if_neg same, if_neg (fun both => same both.2.symm)]
          cases table : (server.routed earlier).router call.path with
          | some methods => exact ih.2 methods table method
          | none =>
              have absent := ih.1.mp table
              cases last : lastRegistered earlier call.path method with
              | none => rfl
              | some func => exact absurd (lastRegistered_path last) absent
      · have paths : PathRegistered (earlier ++ [call]) path ↔ PathRegistered earlier path := by
          simp [PathRegistered, or_and_right, exists_or, Ne.symm here]
        have last (method : HttpMethod) : lastRegistered (earlier ++ [call]) path method =
            lastRegistered earlier path method := by
          rw [lastRegistered_snoc, if_neg (fun both => here both.1.symm)]
        simp only [Server.registerRouter, if_neg here, paths, last]
        exact ih

namespace UserConn

theorem routePath_eq_answer (order : HashOrder Bytes Bytes) (server : Server) (req : HttpRequest) :
    routePath order server req = (routeChoice server req).answer order server req := by
  unfold routePath routeChoice
  split
  · rfl
  · cases server.router req.path with
    | none =>
        dsimp only
        split <;> rfl
    | some methods => cases found : methods req.method <;> simp only [found] <;> rfl

/-- A good request is routed as it is to be. -/
theorem routeChoice_good {req : HttpRequest} (good : req.isBadReq = false) :
    Routed registrations req.path req.method (routeChoice (server.routed registrations) req) := by
  obtain ⟨absent, present⟩ := routed_router server registrations req.path
  have choice : routeChoice (server.routed registrations) req =
      match (server.routed registrations).router req.path with
      | some methods =>
          match methods req.method with
          | some callFn => .registered callFn
          | none => .errHandler .notAllowed notAllowed_answered
      | none => if req.path.getLast? = some 47 then .rootHandler else .staticFileHandler := by
    rw [routeChoice, good]
    rfl
  rw [choice]
  cases table : (server.routed registrations).router req.path with
  | none =>
      have none := absent.mp table
      exact ⟨fun func found => absurd (lastRegistered_path found) none, fun some => absurd some none,
        fun _ _ => rfl⟩
  | some methods =>
      have some : PathRegistered registrations req.path := by
        by_contra none
        simp [absent.mpr none] at table
      dsimp only
      rw [present methods table]
      refine ⟨fun func found => by rw [found], fun _ found => by rw [found],
        fun none => absurd some none⟩

/-- A bad one is routed as it is to be only where nothing is promised. -/
theorem routeChoice_bad_iff {req : HttpRequest} (bad : req.isBadReq = true) :
    Routed registrations path method (routeChoice server req) ↔
      ¬ PathRegistered registrations path ∧ method ≠ .get ∧ method ≠ .post := by
  rw [routeChoice, if_pos bad]
  constructor
  · intro routed
    have none : ¬ PathRegistered registrations path := by
      intro some
      cases last : lastRegistered registrations path method with
      | none =>
          have wrong := routed.notAllowed some last
          simp at wrong
      | some func =>
          have wrong := routed.registered func last
          simp at wrong
    refine ⟨none, not_or.mp fun either => ?_⟩
    have wrong := routed.unregistered none either
    split at wrong <;> simp at wrong
  · intro held
    obtain ⟨none, notGet, notPost⟩ := held
    exact ⟨fun func found => absurd (lastRegistered_path found) none, fun some => absurd some none,
      fun _ either => (either.elim notGet notPost).elim⟩

/-- Requests with a well-formed head are answered as registered, unless the parser refuses
them for their method: then only an unregistered path promises nothing. -/
theorem route_path_iff {calls : List (Errno × HttpRequest.ParseCall)} {req : HttpRequest}
    {received name path : Bytes} {parsed : Nat} (order : HashOrder Bytes Bytes) (server : Server)
    (registrations : List Registration) (head : RequestHead received name path)
    (fed : HttpRequest.Fed calls req received parsed)
    (readable : name = bytes "POST" → ∀ value,
      req.getHeader (bytes "Content-Length") = some value → contentLength value ≠ none) :
    routePath order (server.routed registrations) req =
        (routeChoice (server.routed registrations) req).answer order (server.routed registrations) req ∧
      (Routed registrations path (httpStrToMethod name) (routeChoice (server.routed registrations) req) ↔
        name = bytes "GET" ∨ (name = bytes "POST" ∧ ∀ call ∈ calls, ¬ HttpRequest.ReadsStale call) ∨
          (name ≠ bytes "GET" ∧ name ≠ bytes "POST" ∧ ¬ PathRegistered registrations path)) := by
  refine ⟨routePath_eq_answer order _ req, ?_⟩
  obtain ⟨named, same⟩ := head.target fed
  have good := head.good_iff fed readable
  rw [← or_assoc, ← good]
  cases flag : req.isBadReq with
  | false =>
      have routed := @routeChoice_good registrations server req flag
      rw [named, same] at routed
      exact iff_of_true routed (.inl rfl)
  | true =>
      have kinds : ∀ name ∈ methodNames, (httpStrToMethod name = .get ↔ name = bytes "GET") ∧
          (httpStrToMethod name = .post ↔ name = bytes "POST") := by decide
      obtain ⟨get, post⟩ := kinds name head.named
      rw [routeChoice_bad_iff flag, Ne, Ne, get, post]
      simp only [Bool.true_eq_false, false_or]
      exact ⟨fun held => ⟨held.2.1, held.2.2, held.1⟩, fun held => ⟨held.2.2, held.1, held.2.1⟩⟩

/-- A page of its own at `/a`, to be read and to be put. -/
def emptyPage : HandleFunc := .ofRequest (.front Bytes Bytes)

def pagesRoutes : List Registration := [⟨bytes "/a", .get, emptyPage⟩, ⟨bytes "/a", .put, emptyPage⟩]

def pagesServer : Server :=
  (Server.builtin (.front Bytes Bytes) (bytes "/www") fun _ => none).routed pagesRoutes

def getPage : Bytes := bytes "GET /a HTTP/1.1\r\n\r\n"

theorem getPage_head : RequestHead getPage (bytes "GET") (bytes "/a") :=
  ⟨bytes "GET /a HTTP/1.1", crlf, bytes "/a", bytes "HTTP/1.1", 2, ⟨rfl, by decide⟩,
    ⟨⟨rfl, by decide⟩, by decide⟩, by decide, .plain (by decide) (by decide), by decide,
    .last ⟨rfl, by decide⟩⟩

theorem get_page_routed :
    ∃ req, HttpRequest.Fed [(.erange, ⟨.fresh, getPage, 0⟩)] req getPage 19 ∧
      Routed pagesRoutes (bytes "/a") .get (routeChoice pagesServer req) := by
  have fed : HttpRequest.Fed [(.erange, ⟨.fresh, getPage, 0⟩)] _ ([] ++ getPage) (0 + 19) :=
    .call (.start (bytes "HTTP/1.1")) (Nat.le_refl 0) (by decide) rfl
  exact ⟨_, fed, (route_path_iff (.front Bytes Bytes) _ pagesRoutes getPage_head fed
    (fun wrong => absurd wrong (by decide))).2.mpr (.inl rfl)⟩

def putPage : Bytes := bytes "PUT /a HTTP/1.1\r\n\r\n"

/-- No request reaches the function registered for `PUT`. -/
theorem put_page_refused :
    RequestHead putPage (bytes "PUT") (bytes "/a") ∧
      ∃ req, HttpRequest.Fed [(.clear, ⟨.fresh, putPage, 0⟩)] req putPage 19 ∧
        req.parseComplete = true ∧
        routeChoice pagesServer req = .errHandler .badRequest badRequest_answered ∧
        ¬ Routed pagesRoutes (bytes "/a") .put (routeChoice pagesServer req) := by
  have head : RequestHead putPage (bytes "PUT") (bytes "/a") :=
    ⟨bytes "PUT /a HTTP/1.1", crlf, bytes "/a", bytes "HTTP/1.1", 2, ⟨rfl, by decide⟩,
      ⟨⟨rfl, by decide⟩, by decide⟩, by decide, .plain (by decide) (by decide), by decide,
      .last ⟨rfl, by decide⟩⟩
  have fed : HttpRequest.Fed [(.clear, ⟨.fresh, putPage, 0⟩)] _ ([] ++ putPage) (0 + 19) :=
    .call (.start (bytes "HTTP/1.1")) (Nat.le_refl 0) (by decide) rfl
  refine ⟨head, _, fed, rfl, rfl, fun routed => ?_⟩
  have wrong := routed.registered emptyPage rfl
  simp [routeChoice, HttpRequest.setBadReq] at wrong

end UserConn

end LiteWebServer
