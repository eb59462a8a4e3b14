import LiteWebServer.Http.Calls
import LiteWebServer.Http.Grammar
import LiteWebServer.Http.Uri

namespace LiteWebServer

open Data

/-! A complete request head, and the request that calls of `parse` make of it. -/

/-- A request target with this path, which a query may follow. -/
inductive Target : Bytes → Bytes → Prop where
  | plain {path} (free : ¬ bytes "?" <:+: path) (nonempty : path ≠ []) : Target path path
  | query {uri path query} (cut : FirstCut (bytes "?") uri path query) (nonempty : path ≠ [])
      (some : query ≠ []) (pairs : ∀ piece ∈ queryPieces query, ∃ pair, IsPair piece pair) :
      Target uri path

/-- The data begins with a well-formed head: a request line with a named method, and
header lines up to the empty one. -/
def RequestHead (data method path : Bytes) : Prop :=
  ∃ line rest uri version size, FirstCut crlf data line rest ∧ LineFields line method uri version ∧
    method ∈ methodNames ∧ Target uri path ∧ version ∈ versionNames ∧
    Headers method rest (.ended method) size

theorem Target.takeUri {uri path : Bytes} (target : Target uri path) (req : HttpRequest) :
    ∃ param, req.takeUri uri = ({ req with path, param }, true) := by
  cases target with
  | plain free nonempty =>
      simp only [HttpRequest.takeUri, find?_eq_none_iff.mpr free, if_neg nonempty]
      exact ⟨_, rfl⟩
  | @query _ query cut nonempty content pairs =>
      have front : uri.take path.length = path := by rw [cut.whole, take_joined]
      have mark : (bytes "?").length = 1 := rfl
      have back : uri.drop (path.length + 1) = query := by rw [cut.whole, drop_joined mark]
      simp only [HttpRequest.takeUri, cut.find? (by decide : Unbordered (bytes "?")), front, back,
        if_neg nonempty, if_neg content]
      rcases addParams_pieces req.param content with ⟨read, -, ran⟩ | ⟨-, piece, member, bad⟩
      · rw [ran]
        exact ⟨_, rfl⟩
      · obtain ⟨pair, isPair⟩ := pairs piece member
        exact absurd isPair (bad pair)

/-- A target that is taken has a path. -/
theorem takeUri_target {req : HttpRequest} {uri : Bytes} (taken : (req.takeUri uri).2 = true) :
    ∃ path, Target uri path := by
  unfold HttpRequest.takeUri at taken
  cases found : find? (bytes "?") uri with
  | none =>
      have free := find?_eq_none_iff.mp found
      simp only [found] at taken
      by_cases empty : uri = []
      · simp [empty] at taken
      · exact ⟨uri, .plain free empty⟩
  | some k =>
      have cut : FirstCut (bytes "?") uri (uri.take k) (uri.drop (k + 1)) :=
        find?_cut found (by decide)
      simp only [found] at taken
      by_cases noPath : uri.take k = []
      · simp [noPath] at taken
      · by_cases noQuery : uri.drop (k + 1) = []
        · simp [noPath, noQuery] at taken
        · simp only [if_neg noPath, if_neg noQuery] at taken
          rcases addParams_pieces req.param noQuery with ⟨pairs, read, -⟩ | ⟨refused, -⟩
          · exact ⟨uri.take k, .query cut noPath noQuery (IsPair.of_forall₂ read)⟩
          · rw [refused] at taken
            cases taken

theorem LineFields.accepts {line method uri version path : Bytes}
    (fields : LineFields line method uri version) (named : method ∈ methodNames)
    (target : Target uri path) (versioned : version ∈ versionNames) :
    HttpRequest.Accepts line method uri version where
  toLineFields := fields
  named := by
    have known : ∀ name ∈ methodNames, httpStrToMethod (cStr name) ≠ .unknown := by decide
    exact known method named
  target := by
    obtain ⟨param, taken⟩ := target.takeUri .fresh
    rw [taken]
  versioned := by
    have known : ∀ name ∈ versionNames, httpStrToVersion (cStr name) ≠ .unknown := by decide
    exact known version versioned

namespace RequestHead

variable {calls : List (Errno × HttpRequest.ParseCall)} {req : HttpRequest}
  {received method path : Bytes} {parsed : Nat}

theorem named (head : RequestHead received method path) : method ∈ methodNames := by
  obtain ⟨line, rest, uri, version, size, cut, fields, named, later⟩ := head
  exact named

/-- What the first line makes of a request that waits for it. -/
theorem takeReqLine (head : RequestHead received method path) :
    ∃ k, find? crlf received = some k ∧ ∀ req : HttpRequest, ∃ version param,
      req.takeReqLine (received.take k) =
        { req with
          method := httpStrToMethod method, path, param, httpVer := version, state := .parseReqHeader } := by
  obtain ⟨line, rest, uri, version, -, cut, fields, named, target, versioned, -⟩ := head
  refine ⟨line.length, cut.find? crlf_unbordered, fun req => ?_⟩
  have plain : ∀ name ∈ methodNames, cStr name = name := by decide
  have accepts := fields.accepts named target versioned
  have front : received.take line.length = line := by rw [cut.whole, take_joined]
  rw [front, HttpRequest.takeReqLine_accepted req accepts, plain method named]
  obtain ⟨param, taken⟩ := target.takeUri { req with method := httpStrToMethod method }
  rw [taken]
  exact ⟨version, param, rfl⟩

/-- The request has the method and the path of its head, however it was read. -/
theorem target (head : RequestHead received method path) (fed : HttpRequest.Fed calls req received parsed) :
    req.method = httpStrToMethod method ∧ req.path = path := by
  obtain ⟨k, found, takes⟩ := head.takeReqLine
  have line := fed.line
  rw [found] at line
  obtain ⟨version, steps⟩ := line
  obtain ⟨version', param, taken⟩ := takes (HttpRequest.fresh.withVer version)
  rw [taken] at steps
  obtain ⟨-, same⟩ := steps.sameLine (by simp)
  exact ⟨same.method, same.path⟩

/-- What a whole head amounts to. -/
theorem reports (head : RequestHead received method path) :
    ∃ size count, HttpRequest.Reports .clear (.ended method) size (HttpRequest.fresh.consume received).1
      count := by
  obtain ⟨k, found, takes⟩ := head.takeReqLine
  obtain ⟨version, param, taken⟩ := takes .fresh
  obtain ⟨line, rest, -, -, size, cut, -, named, -, -, headers⟩ := head
  obtain rfl : line.length = k := Option.some.inj ((cut.find? crlf_unbordered).symm.trans found)
  have mark : crlf.length = 2 := rfl
  have back : received.drop (line.length + 2) = rest := by rw [cut.whole, drop_joined mark]
  have reads {req : HttpRequest} (here : req.state = .parseReqHeader) (good : req.isBadReq = false)
      (same : req.method = httpStrToMethod method) :
      ∃ size count, HttpRequest.Reports .clear (.ended method) size (req.consume rest).1 count := by
    obtain ⟨verdict, size', headers', reports⟩ :=
      @HttpRequest.feed_reports_headers method .clear rest req named here good same
    obtain ⟨rfl, -⟩ := headers.unique headers'
    exact ⟨_, _, reports⟩
  have reqLine : HttpRequest.fresh.state = .parseReqLine := rfl
  have lined := HttpRequest.takeLine_reqLine reqLine (received.take line.length)
  rw [taken] at lined
  rw [HttpRequest.consume_line (.inl reqLine) found (by simp [lined]), lined, back]
  exact reads rfl rfl rfl

/-- A request with a whole head is good when nothing behind its head can be wrong: as a
`GET`, or as a `POST` whose length is a number and is not read under a stale `ERANGE`. -/
theorem good_iff (head : RequestHead received method path)
    (fed : HttpRequest.Fed calls req received parsed)
    (readable : method = bytes "POST" → ∀ value,
      req.getHeader (bytes "Content-Length") = some value → contentLength value ≠ none) :
    req.isBadReq = false ↔
      method = bytes "GET" ∨
        method = bytes "POST" ∧ ∀ call ∈ calls, ¬ HttpRequest.ReadsStale call := by
  by_cases stale : ∃ call ∈ calls, HttpRequest.ReadsStale call
  · obtain ⟨-, bad, post⟩ := fed.stale stale
    have only : ∀ name ∈ methodNames, httpStrToMethod name = .post → name = bytes "POST" := by decide
    obtain rfl := only method head.named ((head.target fed).1.symm.trans post)
    obtain ⟨call, member, reads⟩ := stale
    rw [bad]
    refine iff_of_false (by simp) (fun either => ?_)
    rcases either with get | ⟨-, none⟩
    · exact absurd get (by decide)
    · exact none call member reads
  · have clean : ∀ call ∈ calls, ¬ HttpRequest.ReadsStale call :=
      fun call member reads => stale ⟨call, member, reads⟩
    obtain ⟨⟨version, rfl⟩, -⟩ := fed.reads clean
    obtain ⟨size, count, reports⟩ := head.reports
    change (HttpRequest.fresh.consume received).1.isBadReq = false ↔ _
    cases reports with
    | get complete good => exact iff_of_true good (.inl rfl)
    | post passed behind bad =>
        refine iff_of_true ?_ (.inr ⟨rfl, clean⟩)
        by_contra refused
        obtain ⟨value, lookup, failed⟩ := bad (by simpa using refused)
        exact readable rfl value lookup failed
    | other get post complete bad =>
        rw [bad]
        exact iff_of_false (by simp) (fun either => either.elim get (fun held => post held.1))

end RequestHead

end LiteWebServer
