import LiteWebServer.Http.Cuts
import LiteWebServer.Http.RoundTrip

namespace LiteWebServer

open Data

/-! The grammar of a request head, stated on the bytes alone. -/

/-- `M SP U SP V`, with `M` up to the first space and `U` up to the second. -/
structure LineFields (line method uri version : Bytes) : Prop where
  method_cut : FirstCut (bytes " ") line method (uri ++ bytes " " ++ version)
  uri_free : ¬ bytes " " <:+: uri

/-- The methods with a name. -/
def methodNames : List Bytes :=
  [bytes "GET", bytes "POST", bytes "PUT", bytes "DELETE", bytes "HEAD", bytes "CONNECT",
    bytes "OPTIONS", bytes "TRACE", bytes "PATCH"]

def versionNames : List Bytes := [bytes "HTTP/1.0", bytes "HTTP/1.1"]

def IsReqLine (line method : Bytes) : Prop :=
  ∃ uri version, LineFields line method uri version ∧ method ∈ methodNames ∧
    (∃ req, HttpRequest.fresh.parseUri uri = .ok (req, true)) ∧ version ∈ versionNames

/-- The earliest `": "` of the line is there, and not at its beginning. -/
def IsHeader (line : Bytes) : Prop :=
  ∃ key value, FirstCut (bytes ": ") line key value ∧ key ≠ []

inductive HeadVerdict where
  | incomplete
  | bad
  | ended (method : Bytes)
deriving DecidableEq, Repr

/-- What the lines behind a request line amount to, and how many bytes of them are taken. -/
inductive Headers (method : Bytes) : Bytes → HeadVerdict → Nat → Prop where
  | unfinished {text} (noLine : ¬ crlf <:+: text) : Headers method text .incomplete 0
  | last {text rest} (cut : FirstCut crlf text [] rest) : Headers method text (.ended method) 2
  | malformed {text line rest} (cut : FirstCut crlf text line rest) (nonempty : line ≠ [])
      (malformed : ¬ IsHeader line) : Headers method text .bad 0
  | next {text line rest verdict size} (cut : FirstCut crlf text line rest) (header : IsHeader line)
      (later : Headers method rest verdict size) :
      Headers method text verdict (line.length + 2 + size)

inductive Head : Bytes → HeadVerdict → Nat → Prop where
  | unfinished {text} (noLine : ¬ crlf <:+: text) : Head text .incomplete 0
  | rejected {text line rest} (cut : FirstCut crlf text line rest)
      (rejected : ∀ method, ¬ IsReqLine line method) : Head text .bad 0
  | accepted {text line rest method verdict size} (cut : FirstCut crlf text line rest)
      (accepted : IsReqLine line method) (headers : Headers method rest verdict size) :
      Head text verdict (line.length + 2 + size)

theorem crlf_unbordered : Unbordered crlf := by decide

theorem LineFields.unique {line method uri version method' uri' version' : Bytes}
    (fields : LineFields line method uri version) (other : LineFields line method' uri' version') :
    method = method' ∧ uri = uri' ∧ version = version' := by
  obtain ⟨methods, rest⟩ := fields.method_cut.unique other.method_cut (by decide)
  have cut : FirstCut (bytes " ") (uri ++ bytes " " ++ version) uri version := ⟨rfl, fields.uri_free⟩
  obtain ⟨uris, versions⟩ := cut.unique ⟨rest, other.uri_free⟩ (by decide)
  exact ⟨methods, uris, versions⟩

/-- The empty line is no header. -/
theorem IsHeader.nonempty {line : Bytes} (header : IsHeader line) : line ≠ [] := by
  obtain ⟨key, value, cut, some⟩ := header
  rw [cut.whole, List.append_assoc]
  exact List.append_ne_nil_of_left_ne_nil some _

section

variable {method text : Bytes} {verdict verdict' : HeadVerdict} {size size' : Nat}

theorem Headers.unique (headers : Headers method text verdict size)
    (other : Headers method text verdict' size') : verdict = verdict' ∧ size = size' := by
  induction headers generalizing verdict' size' with
  | unfinished noLine =>
      cases other with
      | unfinished _ => exact ⟨rfl, rfl⟩
      | last cut => exact absurd cut.occurs noLine
      | malformed cut _ _ => exact absurd cut.occurs noLine
      | next cut _ _ => exact absurd cut.occurs noLine
  | last cut =>
      cases other with
      | unfinished noLine => exact absurd cut.occurs noLine
      | last _ => exact ⟨rfl, rfl⟩
      | malformed cut' nonempty _ =>
          exact absurd (cut'.unique cut crlf_unbordered).1 nonempty
      | next cut' header _ =>
          exact absurd (cut'.unique cut crlf_unbordered).1 header.nonempty
  | malformed cut nonempty malformed =>
      cases other with
      | unfinished noLine => exact absurd cut.occurs noLine
      | last cut' => exact absurd (cut.unique cut' crlf_unbordered).1 nonempty
      | malformed _ _ _ => exact ⟨rfl, rfl⟩
      | next cut' header _ =>
          rw [(cut'.unique cut crlf_unbordered).1] at header
          exact absurd header malformed
  | next cut header _ ih =>
      cases other with
      | unfinished noLine => exact absurd cut.occurs noLine
      | last cut' => exact absurd (cut.unique cut' crlf_unbordered).1 header.nonempty
      | malformed cut' _ malformed =>
          rw [(cut.unique cut' crlf_unbordered).1] at header
          exact absurd header malformed
      | next cut' _ later =>
          obtain ⟨lines, rests⟩ := cut.unique cut' crlf_unbordered
          subst lines rests
          obtain ⟨verdicts, sizes⟩ := ih later
          exact ⟨verdicts, congrArg _ sizes⟩

theorem Head.unique (head : Head text verdict size) (other : Head text verdict' size') :
    verdict = verdict' ∧ size = size' := by
  cases head with
  | unfinished noLine =>
      cases other with
      | unfinished _ => exact ⟨rfl, rfl⟩
      | rejected cut _ => exact absurd cut.occurs noLine
      | accepted cut _ _ => exact absurd cut.occurs noLine
  | rejected cut rejected =>
      cases other with
      | unfinished noLine => exact absurd cut.occurs noLine
      | rejected _ _ => exact ⟨rfl, rfl⟩
      | accepted cut' accepted _ =>
          rw [(cut'.unique cut crlf_unbordered).1] at accepted
          exact absurd accepted (rejected _)
  | accepted cut accepted headers =>
      cases other with
      | unfinished noLine => exact absurd cut.occurs noLine
      | rejected cut' rejected =>
          rw [(cut.unique cut' crlf_unbordered).1] at accepted
          exact absurd accepted (rejected _)
      | accepted cut' accepted' headers' =>
          obtain ⟨lines, rests⟩ := cut.unique cut' crlf_unbordered
          subst lines rests
          obtain ⟨_, _, fields, _⟩ := accepted
          obtain ⟨_, _, fields', _⟩ := accepted'
          rw [← (fields.unique fields').1] at headers'
          obtain ⟨verdicts, sizes⟩ := headers.unique headers'
          exact ⟨verdicts, congrArg _ sizes⟩

end

/-! ## The request line -/

theorem chStrIsEqual_iff (str other : Bytes) : chStrIsEqual str other = true ↔ str = other := by
  induction str generalizing other with
  | nil => cases other <;> simp [chStrIsEqual]
  | cons c str ih => cases other <;> simp [chStrIsEqual, ih]

theorem httpStrToEnum_row [DecidableEq ε] {rows : List (ε × Bytes)} {unknown : ε} {str : Bytes}
    (known : httpStrToEnum rows unknown str ≠ unknown) :
    ∃ row ∈ rows, row.1 ≠ unknown ∧ row.2 = str := by
  unfold httpStrToEnum at known
  cases found : rows.find? fun row => chStrIsEqual str row.2 with
  | none => exact absurd (by rw [found]; rfl) known
  | some row =>
      rw [found] at known
      have same := @List.find?_some _ (fun row : ε × Bytes => chStrIsEqual str row.2) _ _ found
      exact ⟨row, List.mem_of_find?_eq_some found, known, ((chStrIsEqual_iff _ _).mp same).symm⟩

/-- Where the names are those of the rows with a value, they are the texts with one. -/
theorem httpStrToEnum_known_iff [DecidableEq ε] {rows : List (ε × Bytes)} {unknown : ε}
    {names : List Bytes} (listed : ∀ row ∈ rows, row.1 ≠ unknown → row.2 ∈ names)
    (known : ∀ name ∈ names, httpStrToEnum rows unknown name ≠ unknown) (str : Bytes) :
    httpStrToEnum rows unknown str ≠ unknown ↔ str ∈ names := by
  constructor
  · intro found
    obtain ⟨row, member, named, rfl⟩ := httpStrToEnum_row found
    exact listed row member named
  · exact known str

theorem httpStrToMethod_known_iff (str : Bytes) :
    httpStrToMethod str ≠ .unknown ↔ str ∈ methodNames :=
  httpStrToEnum_known_iff (by decide) (by decide) str

theorem httpStrToVersion_known_iff (str : Bytes) :
    httpStrToVersion str ≠ .unknown ↔ str ∈ versionNames :=
  httpStrToEnum_known_iff (by decide) (by decide) str

theorem addParams_same (param other : StringMap) (raw : Bytes) :
    (addParams param raw).2 = (addParams other raw).2 := by
  induction param, raw using addParams.induct generalizing other with
  | case1 param raw none =>
      rw [addParams, addParams, none]
  | case2 param raw key val pair last =>
      rw [addParams, addParams, pair]
      simp only [if_pos last]
  | case3 param raw key val pair more ih =>
      rw [addParams, addParams, pair]
      simp only [if_neg more]
      exact ih _

/-- Without a NUL the fields are the C strings they are read as. -/
theorem LineFields.cStr_eq {line method uri version : Bytes}
    (fields : LineFields line method uri version) (clean : 0 ∉ line) :
    cStr method = method ∧ cStr version = version := by
  have plain {part : Bytes} (inside : ∀ c ∈ part, c ∈ line) : cStr part = part :=
    cStr_eq_self_iff.mpr fun member => clean (inside 0 member)
  have whole := fields.method_cut.whole
  constructor <;> refine plain fun c member => ?_ <;> rw [whole] <;> simp [member]

namespace HttpRequest

theorem takeUri_same (req other : HttpRequest) (uri : Bytes) :
    (req.takeUri uri).2 = (other.takeUri uri).2 := by
  unfold takeUri
  split
  · split <;> rfl
  · dsimp only
    split
    · rfl
    · split
      · rfl
      · exact addParams_same _ _ _

/-- A request line that is taken, its fields read as the C strings they begin with. -/
structure Accepts (line method uri version : Bytes) : Prop
    extends LineFields line method uri version where
  named : httpStrToMethod (cStr method) ≠ .unknown
  target : (fresh.takeUri uri).2 = true
  versioned : httpStrToVersion (cStr version) ≠ .unknown

variable {line method uri version : Bytes}

theorem takeReqLine_accepted (req : HttpRequest) (accepts : Accepts line method uri version) :
    req.takeReqLine line =
      { ({ req with method := httpStrToMethod (cStr method) }.takeUri uri).1 with
        httpVer := version, state := .parseReqHeader } := by
  have space : Unbordered (bytes " ") := by decide
  have behind : line.drop (method.length + 1) = uri ++ bytes " " ++ version := by
    rw [accepts.method_cut.whole]
    exact (List.drop_append_of_le_length (by simp [bytes])).trans (by simp [bytes])
  have front : line.take method.length = method := by
    rw [accepts.method_cut.whole, List.append_assoc, List.take_left]
  have last : (uri ++ bytes " " ++ version).drop (uri.length + 1) = version := by
    rw [List.append_assoc, ← List.drop_drop, List.drop_left]
    rfl
  have target := accepts.target
  rw [takeUri_same fresh { req with method := httpStrToMethod (cStr method) }] at target
  have second : find? (bytes " ") (uri ++ bytes " " ++ version) = some uri.length :=
    find?_piece space accepts.uri_free
  have middle : (uri ++ bytes " " ++ version).take uri.length = uri := by
    rw [List.append_assoc, List.take_left]
  rw [takeReqLine, accepts.method_cut.find? space]
  simp only [front, behind, if_neg accepts.named, second, last, middle, target, Bool.not_true,
    Bool.false_eq_true, if_false, if_neg accepts.versioned]

theorem takeReqLine_rejected (req : HttpRequest)
    (rejected : ∀ method uri version, ¬ Accepts line method uri version) :
    (req.takeReqLine line).state = .parseSuccess ∧ (req.takeReqLine line).isBadReq = true ∧
      (req.takeReqLine line).httpVer = req.httpVer := by
  have kept (req : HttpRequest) (uri : Bytes) : (req.takeUri uri).1.httpVer = req.httpVer := by
    obtain ⟨path, param, same⟩ := req.takeUri_frame uri
    rw [same]
  unfold takeReqLine
  split
  · exact ⟨rfl, rfl, rfl⟩
  · rename_i k first
    dsimp only
    split
    · exact ⟨rfl, rfl, rfl⟩
    · rename_i named
      split
      · exact ⟨rfl, rfl, rfl⟩
      · rename_i j second
        split
        · exact ⟨rfl, rfl, kept _ _⟩
        · rename_i target
          split
          · exact ⟨rfl, rfl, kept _ _⟩
          · rename_i versioned
            have cut := find?_cut first (by decide)
            have cut' := find?_cut second (by decide)
            have fields : LineFields line (line.take k) ((line.drop (k + 1)).take j)
                ((line.drop (k + 1)).drop (j + 1)) := by
              have rest : line.drop (k + 1) = (line.drop (k + 1)).take j ++ bytes " " ++
                  (line.drop (k + 1)).drop (j + 1) := cut'.whole
              refine ⟨?_, cut'.before⟩
              rw [← rest]
              exact cut
            refine absurd ⟨fields, named, ?_, versioned⟩ (rejected _ _ _)
            rw [takeUri_same fresh]
            simpa using target

theorem isReqLine_iff (clean : 0 ∉ line) :
    IsReqLine line method ↔ ∃ uri version, Accepts line method uri version := by
  have target (uri : Bytes) :
      (∃ req, fresh.parseUri uri = .ok (req, true)) ↔ (fresh.takeUri uri).2 = true := by
    rw [parseUri_eq]
    exact ⟨fun ⟨req, ran⟩ => congrArg Prod.snd (Except.ok.inj ran),
      fun accepted => ⟨(fresh.takeUri uri).1, by rw [← accepted]⟩⟩
  constructor
  · intro accepted
    obtain ⟨uri, version, fields, named, taken, versioned⟩ := accepted
    refine ⟨uri, version, fields, ?_, (target uri).mp taken, ?_⟩
    · rw [(fields.cStr_eq clean).1]
      exact (httpStrToMethod_known_iff method).mpr named
    · rw [(fields.cStr_eq clean).2]
      exact (httpStrToVersion_known_iff version).mpr versioned
  · intro accepted
    obtain ⟨uri, version, fields, named, taken, versioned⟩ := accepted
    rw [(fields.cStr_eq clean).1] at named
    rw [(fields.cStr_eq clean).2] at versioned
    exact ⟨uri, version, fields, (httpStrToMethod_known_iff method).mp named, (target uri).mpr taken,
      (httpStrToVersion_known_iff version).mp versioned⟩

/-! ## The head as `parse` reads it -/

/-- What a call of `parse` reports when the grammar gives a verdict on `size` bytes.
Only a `POST` reads on behind its head, and only its length can make it bad then. -/
inductive Reports (errno : Errno) : HeadVerdict → Nat → HttpRequest → Nat → Prop where
  | incomplete {size req} (incomplete : req.parseComplete = false) :
      Reports errno .incomplete size req size
  | bad {size req} (complete : req.parseComplete = true) (bad : req.isBadReq = true) :
      Reports errno .bad size req size
  | get {size req} (complete : req.parseComplete = true) (good : req.isBadReq = false) :
      Reports errno (.ended (bytes "GET")) size req size
  | post {size req count} (passed : req.state = .parseBody ∨ req.state = .parseSuccess)
      (behind : size ≤ count)
      (bad : req.isBadReq = true → ∃ value, req.getHeader (bytes "Content-Length") = some value ∧
        (strToInum strtoul errno value).1 = none) :
      Reports errno (.ended (bytes "POST")) size req count
  | other {method size req} (get : method ≠ bytes "GET") (post : method ≠ bytes "POST")
      (complete : req.parseComplete = true) (bad : req.isBadReq = true) :
      Reports errno (.ended method) size req size

theorem Reports.shift {errno : Errno} {verdict : HeadVerdict} {size count : Nat} {req : HttpRequest}
    (reports : Reports errno verdict size req count) (more : Nat) :
    Reports errno verdict (more + size) req (more + count) := by
  cases reports with
  | incomplete incomplete => exact .incomplete incomplete
  | bad complete bad => exact .bad complete bad
  | get complete good => exact .get complete good
  | post passed behind bad => exact .post passed (Nat.add_le_add_left behind more) bad
  | other get post complete bad => exact .other get post complete bad

variable {req : HttpRequest} {errno : Errno} {rest : Bytes}

theorem isHeader_iff : IsHeader line ↔ ∃ pair, splitKeyVal line (bytes ": ") = some pair := by
  have colon : Unbordered (bytes ": ") := by decide
  constructor
  · intro header
    obtain ⟨key, value, cut, some⟩ := header
    refine ⟨(key, value), ?_⟩
    rw [cut.whole]
    exact splitKeyVal_joined colon some cut.before
  · intro pair
    obtain ⟨⟨key, value⟩, split⟩ := pair
    exact ⟨key, value, splitKeyVal_cut (by decide) split⟩

/-- Behind the head of a `POST` only the length of the body can be wrong. -/
theorem feedBody_post_reports (here : req.state = .parseBody) (good : req.isBadReq = false)
    (post : req.method = .post) :
    ((req.feedBody errno rest).1.state = .parseBody ∨
        (req.feedBody errno rest).1.state = .parseSuccess) ∧
      ((req.feedBody errno rest).1.isBadReq = true →
        ∃ value, (req.feedBody errno rest).1.getHeader (bytes "Content-Length") = some value ∧
          (strToInum strtoul errno value).1 = none) := by
  unfold feedBody
  rw [post]
  dsimp only
  split
  · exact ⟨.inr rfl, fun bad => by simp [good] at bad⟩
  · rename_i value found
    split
    · exact ⟨.inl here, fun bad => by simp [good] at bad⟩
    · split
      · rename_i errno' converted
        exact ⟨.inr rfl, fun _ => ⟨value, found, by rw [converted]⟩⟩
      · refine ⟨?_, fun bad => by simp [takeBody, good] at bad⟩
        unfold takeBody
        dsimp only
        split
        · exact .inr rfl
        · exact .inl here

theorem feedBody_reports (member : method ∈ methodNames) (here : req.state = .parseBody)
    (good : req.isBadReq = false) (named : req.method = httpStrToMethod method) :
    Reports errno (.ended method) 0 (req.feedBody errno rest).1 (req.feedBody errno rest).2.1 := by
  by_cases get : method = bytes "GET"
  · subst get
    have isGet : req.method = .get := named
    rw [feedBody, isGet]
    exact .get rfl good
  · by_cases post : method = bytes "POST"
    · subst post
      obtain ⟨passed, length⟩ := @feedBody_post_reports req errno rest here good named
      exact .post passed (Nat.zero_le _) length
    · have others : ∀ name ∈ methodNames, name ≠ bytes "GET" → name ≠ bytes "POST" →
          httpStrToMethod name ≠ .get ∧ httpStrToMethod name ≠ .post := by decide
      obtain ⟨notGet, notPost⟩ := others method member get post
      unfold feedBody
      split
      · rename_i isGet
        exact absurd (named ▸ isGet) notGet
      · rename_i isPost
        exact absurd (named ▸ isPost) notPost
      · exact .other get post rfl rfl

theorem feed_reports_headers (rest : Bytes) {req : HttpRequest} (member : method ∈ methodNames)
    (here : req.state = .parseReqHeader) (good : req.isBadReq = false)
    (named : req.method = httpStrToMethod method) :
    ∃ verdict size, Headers method rest verdict size ∧
      Reports errno verdict size (req.feed errno rest).1 (req.feed errno rest).2.1 := by
  cases found : find? crlf rest with
  | none =>
      rw [feed_no_line (.inr here) found]
      exact ⟨.incomplete, 0, .unfinished (find?_eq_none_iff.mp found),
        .incomplete (by simp [parseComplete, here])⟩
  | some k =>
      have bound := find?_bound found
      have cut : FirstCut crlf rest (rest.take k) (rest.drop (k + 2)) := find?_cut found (by decide)
      have width : (rest.take k).length = k := by
        rw [List.length_take]
        omega
      rw [feed_line (.inr here) found, takeLine_header here, takeHeader]
      generalize rest.take k = line at cut width ⊢
      by_cases empty : line = []
      · subst empty
        cases width
        rw [if_pos rfl, if_neg (by simp), feed_body rfl]
        have reports : Reports errno (.ended method) 0 _ _ :=
          @feedBody_reports method { req with state := .parseBody } errno (rest.drop 2) member rfl
            good named
        exact ⟨.ended method, 2, .last cut, by simpa using reports.shift 2⟩
      · rw [if_neg empty]
        cases pair : splitKeyVal line (bytes ": ") with
        | none =>
            have malformed : ¬ IsHeader line := fun header => by
              obtain ⟨pair', split⟩ := isHeader_iff.mp header
              simp [split] at pair
            exact ⟨.bad, 0, .malformed cut empty malformed, .bad rfl rfl⟩
        | some keyVal =>
            have short : (rest.drop (k + 2)).length < rest.length := by
              change k + 2 ≤ rest.length at bound
              rw [List.length_drop]
              omega
            obtain ⟨verdict, size, headers, reports⟩ :=
              @feed_reports_headers (rest.drop (k + 2))
                { req with headers := req.headers.emplace keyVal.1 keyVal.2 } member here good named
            refine ⟨verdict, _, .next cut (isHeader_iff.mpr ⟨keyVal, pair⟩) headers, ?_⟩
            rw [if_neg (by simp [here]), width]
            exact reports.shift (k + 2)
termination_by rest.length

/-- One call on a fresh request: it returns, and without a `NUL` in the request line it
reports the one verdict the grammar gives on the data. -/
theorem parse_reports_head (errno : Errno) {data : Bytes} (short : data.length < 2 ^ 32) :
    ∃ req count after, fresh.parse errno data 0 = .ok (req, count, after) ∧
      ((∀ line rest, FirstCut crlf data line rest → 0 ∉ line) →
        ∃ verdict size, Head data verdict size ∧
          (∀ verdict' size', Head data verdict' size' → verdict' = verdict ∧ size' = size) ∧
          Reports errno verdict size req count) := by
  refine ⟨_, _, _, fresh_coherent.parse_eq_feed errno short 0, fun clean => ?_⟩
  rw [List.drop_zero]
  suffices outcome : ∃ verdict size, Head data verdict size ∧
      Reports errno verdict size (fresh.feed errno data).1 (fresh.feed errno data).2.1 by
    obtain ⟨verdict, size, head, reports⟩ := outcome
    exact ⟨verdict, size, head, fun _ _ other => other.unique head, reports⟩
  cases found : find? crlf data with
  | none =>
      rw [feed_no_line (.inl rfl) found]
      exact ⟨.incomplete, 0, .unfinished (find?_eq_none_iff.mp found), .incomplete rfl⟩
  | some k =>
      have bound := find?_bound found
      have cut : FirstCut crlf data (data.take k) (data.drop (k + 2)) := find?_cut found (by decide)
      have width : (data.take k).length = k := by
        rw [List.length_take]
        omega
      have noNul := clean _ _ cut
      rw [feed_line (.inl rfl) found, takeLine_reqLine rfl]
      generalize data.take k = line at cut width noNul ⊢
      by_cases accepted : ∃ method, IsReqLine line method
      · obtain ⟨method, accepted⟩ := accepted
        obtain ⟨_, _, _, member, _⟩ := id accepted
        obtain ⟨uri, version, accepts⟩ := (isReqLine_iff noNul).mp accepted
        obtain ⟨path, param, target⟩ :=
          { fresh with method := httpStrToMethod (cStr method) }.takeUri_frame uri
        rw [takeReqLine_accepted fresh accepts, target, if_neg (by simp)]
        rw [(accepts.toLineFields.cStr_eq noNul).1]
        obtain ⟨verdict, size, headers, reports⟩ :=
          @feed_reports_headers method errno (data.drop (k + 2))
            { fresh with
              state := .parseReqHeader, method := httpStrToMethod method, path, httpVer := version,
              param } member rfl rfl rfl
        exact ⟨verdict, _, .accepted cut accepted headers, by rw [width]; exact reports.shift (k + 2)⟩
      · have rejected (method : Bytes) : ¬ IsReqLine line method := fun held => accepted ⟨method, held⟩
        obtain ⟨complete, bad, _⟩ := takeReqLine_rejected fresh fun method uri version accepts =>
          rejected method ((isReqLine_iff noNul).mpr ⟨uri, version, accepts⟩)
        rw [if_pos complete]
        exact ⟨.bad, 0, .rejected cut rejected, .bad (by simpa [parseComplete] using complete) bad⟩

/-- A request line whose headers are still on their way. -/
theorem request_line_taken :
    ∃ req after, fresh.parse .clear (bytes "GET / HTTP/1.1\r\nHost") 0 = .ok (req, 16, after) ∧
      req.parseComplete = false := by
  obtain ⟨req, count, after, ran, reports⟩ :=
    parse_reports_head .clear (by decide : (bytes "GET / HTTP/1.1\r\nHost").length < 2 ^ 32)
  have noNul : 0 ∉ bytes "GET / HTTP/1.1\r\nHost" := by decide
  obtain ⟨verdict, size, _, unique, reports⟩ := reports fun line rest cut zero =>
    noNul (by rw [cut.whole]; simp [zero])
  have cut : FirstCut crlf (bytes "GET / HTTP/1.1\r\nHost") (bytes "GET / HTTP/1.1") (bytes "Host") :=
    ⟨rfl, by decide⟩
  have line : IsReqLine (bytes "GET / HTTP/1.1") (bytes "GET") :=
    ⟨bytes "/", bytes "HTTP/1.1", ⟨⟨rfl, by decide⟩, by decide⟩, by decide,
      ⟨{ fresh with path := bytes "/" }, rfl⟩, by decide⟩
  obtain ⟨rfl, rfl⟩ := unique _ _ (.accepted cut line (.unfinished (by decide)))
  cases reports with
  | incomplete incomplete => exact ⟨req, after, ran, incomplete⟩

end HttpRequest

end LiteWebServer
