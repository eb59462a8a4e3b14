import LiteWebServer.Http.RequestHead
import LiteWebServer.Http.Response

namespace LiteWebServer

open Data

/-! The method and the version of a request line.  They are compared as C strings, which
end at a `NUL`, while the version is stored as a whole. -/

/-- A line that is taken when its first and last field are read as C strings. -/
structure ReadsAsLine (line method uri version : Bytes) : Prop
    extends LineFields line method uri version where
  named : cStr method ∈ methodNames
  target : ∃ path, Target uri path
  versioned : cStr version ∈ versionNames

/-- Where the line is taken, neither of the two fields goes on behind a `NUL`. -/
def TokensWhole (line : Bytes) : Prop :=
  ∀ method uri version, ReadsAsLine line method uri version → 0 ∉ method ∧ 0 ∉ version

/-- The request has the method that the line names and the version that it ends with, and
a response to it begins with that version. -/
def ByteForByte (line : Bytes) (req : HttpRequest) : Prop :=
  ∃ method uri version, LineFields line method uri version ∧ method = httpMethodToStr req.method ∧
    version ∈ versionNames ∧ req.httpVer = version ∧
    ∀ order, version ++ bytes " " <+: (HttpResponse.ofRequest order req).getBaseRsp.baseRsp

theorem httpMethodToStr_httpStrToMethod {name : Bytes} (named : name ∈ methodNames) :
    httpMethodToStr (httpStrToMethod name) = name := by
  have table : ∀ name ∈ methodNames, httpMethodToStr (httpStrToMethod name) = name := by decide
  exact table name named

theorem HttpResponse.ofRequest_begins (order : HashOrder Bytes Bytes) (req : HttpRequest) :
    req.httpVer ++ bytes " " <+: (HttpResponse.ofRequest order req).getBaseRsp.baseRsp := by
  rw [getBaseRsp_baseRsp, head, baseText]
  simp only [List.append_assoc]
  exact (List.prefix_append_right_inj _).mpr (List.prefix_append _ _)

namespace HttpRequest

variable {line method uri version : Bytes}

theorem accepts_iff : Accepts line method uri version ↔ ReadsAsLine line method uri version := by
  constructor
  · intro accepts
    exact ⟨accepts.toLineFields, (httpStrToMethod_known_iff _).mp accepts.named,
      takeUri_target accepts.target, (httpStrToVersion_known_iff _).mp accepts.versioned⟩
  · intro reads
    obtain ⟨path, target⟩ := reads.target
    obtain ⟨param, taken⟩ := target.takeUri fresh
    exact ⟨reads.toLineFields, (httpStrToMethod_known_iff _).mpr reads.named, by rw [taken],
      (httpStrToVersion_known_iff _).mpr reads.versioned⟩

/-- What a line that is taken leaves in the request: the method by its C string, the
version with everything behind its `NUL`. -/
theorem takeReqLine_fields (req : HttpRequest) (reads : ReadsAsLine line method uri version) :
    (req.takeReqLine line).state = .parseReqHeader ∧
      httpMethodToStr (req.takeReqLine line).method = cStr method ∧
      (req.takeReqLine line).httpVer = version := by
  obtain ⟨path, param, same⟩ :=
    { req with method := httpStrToMethod (cStr method) }.takeUri_frame uri
  rw [takeReqLine_accepted req (accepts_iff.mpr reads), same]
  exact ⟨rfl, httpMethodToStr_httpStrToMethod reads.named, rfl⟩

theorem byteForByte_iff (req : HttpRequest) (reads : ReadsAsLine line method uri version) :
    ByteForByte line (req.takeReqLine line) ↔ 0 ∉ method ∧ 0 ∉ version := by
  obtain ⟨-, named, stored⟩ := req.takeReqLine_fields reads
  have whole := mem_names_iff (by decide) reads.versioned
  constructor
  · rintro ⟨method', uri', version', fields, token, member, -, -⟩
    obtain ⟨rfl, -, rfl⟩ := fields.unique reads.toLineFields
    exact ⟨cStr_eq_self_iff.mp (named.symm.trans token.symm), whole.mp member⟩
  · rintro ⟨cleanMethod, cleanVersion⟩
    refine ⟨method, uri, version, reads.toLineFields, ?_, whole.mpr cleanVersion, stored, fun order => ?_⟩
    · rw [named, cStr_eq_self_iff.mpr cleanMethod]
    · have begins := HttpResponse.ofRequest_begins order (req.takeReqLine line)
      rwa [stored] at begins

/-- The line that the data has at `startIdx` is the one that is read. -/
theorem parseReqLine_cut (req : HttpRequest) {data rest : Bytes} {startIdx : Nat}
    (cut : FirstCut crlf (data.drop startIdx) line rest) :
    ∃ count, req.parseReqLine data startIdx = .ok (req.takeReqLine line, count) := by
  have inside : startIdx ≤ data.length := by
    by_contra beyond
    have occurs := cut.occurs.length_le
    rw [List.drop_eq_nil_of_le (by omega)] at occurs
    exact absurd occurs (by decide)
  have front : (data.drop startIdx).take line.length = line := by rw [cut.whole, take_joined]
  rw [parseReqLine_eq inside, cut.find? crlf_unbordered]
  simp only [front]
  exact ⟨_, rfl⟩

/-- On a request line at any place of the data, what is taken is matched byte for byte
exactly when no `NUL` hides the rest of a field. -/
theorem parse_req_line_exact_iff (req : HttpRequest) {data line rest : Bytes} {startIdx : Nat}
    (cut : FirstCut crlf (data.drop startIdx) line rest) :
    ∃ next count, req.parseReqLine data startIdx = .ok (next, count) ∧
      ((next.state = .parseReqHeader → ByteForByte line next) ↔ TokensWhole line) := by
  obtain ⟨count, ran⟩ := req.parseReqLine_cut cut
  refine ⟨req.takeReqLine line, count, ran, ?_⟩
  by_cases taken : ∃ method uri version, ReadsAsLine line method uri version
  · obtain ⟨method, uri, version, reads⟩ := taken
    obtain ⟨accepted, -⟩ := req.takeReqLine_fields reads
    constructor
    · intro exactly method' uri' version' reads'
      exact (req.byteForByte_iff reads').mp (exactly accepted)
    · intro whole _
      exact (req.byteForByte_iff reads).mpr (whole method uri version reads)
  · obtain ⟨refused, -⟩ := req.takeReqLine_rejected fun method uri version accepts =>
      taken ⟨method, uri, version, accepts_iff.mp accepts⟩
    refine iff_of_true (fun accepted => ?_) fun method uri version reads => ?_
    · rw [refused] at accepted
      cases accepted
    · exact absurd ⟨method, uri, version, reads⟩ taken

/-- A line with nothing behind its tokens. -/
theorem plain_line_exact :
    ∃ next count, fresh.parseReqLine (bytes "GET / HTTP/1.0\r\n") 0 = .ok (next, count) ∧
      (next.state = .parseReqHeader → ByteForByte (bytes "GET / HTTP/1.0") next) := by
  have cut : FirstCut crlf ((bytes "GET / HTTP/1.0\r\n").drop 0) (bytes "GET / HTTP/1.0") [] :=
    ⟨rfl, by decide⟩
  obtain ⟨next, count, ran, exactly⟩ := fresh.parse_req_line_exact_iff cut
  refine ⟨next, count, ran, exactly.mpr fun method uri version reads => ?_⟩
  have fields : LineFields (bytes "GET / HTTP/1.0") (bytes "GET") (bytes "/") (bytes "HTTP/1.0") :=
    ⟨⟨rfl, by decide⟩, by decide⟩
  obtain ⟨rfl, -, rfl⟩ := reads.toLineFields.unique fields
  exact ⟨by decide, by decide⟩

/-- Behind the version the line goes on, and so does the version that is stored. -/
theorem version_with_nul_accepted :
    FirstCut crlf (bytes "GET / HTTP/1.1\x00x\r\n") (bytes "GET / HTTP/1.1\x00x") [] ∧
      ∃ next, fresh.parseReqLine (bytes "GET / HTTP/1.1\x00x\r\n") 0 = .ok (next, 18) ∧
        next.state = .parseReqHeader ∧ next.httpVer = bytes "HTTP/1.1\x00x" ∧
        ¬ ByteForByte (bytes "GET / HTTP/1.1\x00x") next := by
  refine ⟨⟨rfl, by decide⟩, { fresh with
    state := .parseReqHeader, method := .get, path := bytes "/", httpVer := bytes "HTTP/1.1\x00x" },
    by rfl, rfl, rfl, ?_⟩
  rintro ⟨method, uri, version, -, -, member, stored, -⟩
  rw [← stored] at member
  exact absurd member (by decide)

end HttpRequest

end LiteWebServer
