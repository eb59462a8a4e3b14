import LiteWebServer.Http.Feed

namespace LiteWebServer

open Data

/-! The request format: which texts the parser is meant for, how they are written
out, and that parsing gives back what was written. -/

def pairText (pair : Bytes × Bytes) : Bytes := pair.1 ++ bytes "=" ++ pair.2

def queryText (pairs : List (Bytes × Bytes)) : Bytes :=
  (bytes "&").intercalate (pairs.map pairText)

/-- The target of the request line; without pairs there is no question mark. -/
def uriText (path : Bytes) (query : List (Bytes × Bytes)) : Bytes :=
  if query = [] then path else path ++ bytes "?" ++ queryText query

def headerText (header : Bytes × Bytes) : Bytes := header.1 ++ bytes ": " ++ header.2

def headText (headers : List (Bytes × Bytes)) : Bytes :=
  headers.flatMap fun header => headerText header ++ crlf

inductive RequestVersion where
  | http10 | http11
deriving DecidableEq, Repr

def RequestVersion.text : RequestVersion → Bytes
  | .http10 => bytes "HTTP/1.0"
  | .http11 => bytes "HTTP/1.1"

inductive RequestMethod where
  | get | post
deriving DecidableEq, Repr

def RequestMethod.text : RequestMethod → Bytes
  | .get => bytes "GET"
  | .post => bytes "POST"

def RequestMethod.toHttp : RequestMethod → HttpMethod
  | .get => .get
  | .post => .post

structure QueryPart (part : Bytes) : Prop where
  amp : ¬ bytes "&" <:+: part
  space : ¬ bytes " " <:+: part
  line : ¬ crlf <:+: part

instance (part : Bytes) : Decidable (QueryPart part) :=
  decidable_of_iff (¬ bytes "&" <:+: part ∧ ¬ bytes " " <:+: part ∧ ¬ crlf <:+: part)
    ⟨fun ⟨amp, space, line⟩ => ⟨amp, space, line⟩, fun part => ⟨part.amp, part.space, part.line⟩⟩

/-- A request in the supported format. -/
structure RequestText where
  method : RequestMethod
  path : Bytes
  query : List (Bytes × Bytes)
  version : RequestVersion
  headers : List (Bytes × Bytes)
  body : Bytes
  path_ne : path ≠ []
  path_space : ¬ bytes " " <:+: path
  path_mark : ¬ bytes "?" <:+: path
  path_line : ¬ crlf <:+: path
  query_key : ∀ pair ∈ query, pair.1 ≠ [] ∧ ¬ bytes "=" <:+: pair.1 ∧ QueryPart pair.1
  query_value : ∀ pair ∈ query, QueryPart pair.2
  header_key : ∀ header ∈ headers,
    header.1 ≠ [] ∧ ¬ bytes ": " <:+: header.1 ∧ ¬ crlf <:+: header.1
  header_value : ∀ header ∈ headers, ¬ crlf <:+: header.2
  get_body : method = .get → body = []
  /-- A `POST` declares its body by the one `Content-Length`, or has none. -/
  post_body : method = .post →
    ((headers.filter fun header => header.1 = bytes "Content-Length") = [] ∧ body = []) ∨
    ((headers.filter fun header => header.1 = bytes "Content-Length") =
      [(bytes "Content-Length", decimal body.length)] ∧ body ≠ [])

namespace RequestText

def lineText (text : RequestText) : Bytes :=
  text.method.text ++ bytes " " ++ (uriText text.path text.query ++ bytes " " ++ text.version.text)

def serialise (text : RequestText) : Bytes :=
  text.lineText ++ crlf ++ (headText text.headers ++ crlf ++ text.body)

end RequestText

/-! ## The query -/

theorem take_joined (front delim back : Bytes) :
    (front ++ delim ++ back).take front.length = front := by
  rw [List.append_assoc, List.take_left]

theorem drop_joined {delim : Bytes} {width : Nat} (wide : delim.length = width)
    (front back : Bytes) : (front ++ delim ++ back).drop (front.length + width) = back := by
  rw [← wide, ← List.length_append, List.drop_left]

theorem splitKeyVal_joined {key value delim : Bytes} (unbordered : Unbordered delim)
    (nonempty : key ≠ []) (free : ¬ delim <:+: key) :
    splitKeyVal (key ++ delim ++ value) delim = some (key, value) := by
  simp only [splitKeyVal, find?_piece unbordered free, take_joined, drop_joined rfl, if_neg nonempty]

theorem splitKeyVal_cut {src key value delim : Bytes} (nonempty : delim ≠ [])
    (split : splitKeyVal src delim = some (key, value)) : FirstCut delim src key value ∧ key ≠ [] := by
  unfold splitKeyVal at split
  split at split
  · cases split
  · rename_i k found
    split at split
    · cases split
    · rename_i some
      cases split
      exact ⟨find?_cut found nonempty, some⟩

theorem pieceBefore_joined {piece delim rest : Bytes} (unbordered : Unbordered delim)
    (free : ¬ delim <:+: piece) : pieceBefore delim (piece ++ delim ++ rest) = piece := by
  simp only [pieceBefore, find?_piece unbordered free, take_joined]

theorem pieceBefore_alone {piece delim : Bytes} (free : ¬ delim <:+: piece) :
    pieceBefore delim piece = piece := by
  simp only [pieceBefore, find?_eq_none_iff.mpr free]

/-- A separator byte that is not in the needle keeps the two sides apart. -/
theorem joined_free {needle front back : Bytes} {separator : UInt8} (outside : separator ∉ needle)
    (frontFree : ¬ needle <:+: front) (backFree : ¬ needle <:+: back) :
    ¬ needle <:+: front ++ [separator] ++ back := by
  rw [List.append_assoc, List.singleton_append, infix_append_cons_iff outside]
  exact fun occurs => occurs.elim frontFree backFree

theorem pairText_free {needle : Bytes} (outside : 61 ∉ needle) {pair : Bytes × Bytes}
    (key : ¬ needle <:+: pair.1) (value : ¬ needle <:+: pair.2) : ¬ needle <:+: pairText pair :=
  joined_free outside key value

theorem queryText_cons_cons (pair next : Bytes × Bytes) (later : List (Bytes × Bytes)) :
    queryText (pair :: next :: later) = pairText pair ++ bytes "&" ++ queryText (next :: later) := by
  rw [queryText, List.map_cons, List.map_cons, List.intercalate_cons_cons]
  rfl

theorem queryText_ne_nil {pairs : List (Bytes × Bytes)} (some : pairs ≠ []) :
    queryText pairs ≠ [] := by
  match pairs with
  | [] => exact absurd rfl some
  | [pair] => simp [queryText, pairText, bytes]
  | pair :: next :: later =>
      rw [queryText_cons_cons]
      simp [pairText, bytes]

theorem queryText_free {needle : Bytes} (nonempty : needle ≠ []) (pairOutside : 61 ∉ needle)
    (outside : 38 ∉ needle) (pairs : List (Bytes × Bytes))
    (free : ∀ pair ∈ pairs, ¬ needle <:+: pair.1 ∧ ¬ needle <:+: pair.2) :
    ¬ needle <:+: queryText pairs := by
  induction pairs with
  | nil => simpa [queryText] using nonempty
  | cons pair later ih =>
      obtain ⟨key, value⟩ := free pair List.mem_cons_self
      cases later with
      | nil =>
          rw [queryText, List.map_singleton, List.intercalate_singleton]
          exact pairText_free pairOutside key value
      | cons next later =>
          rw [queryText_cons_cons]
          exact joined_free outside (pairText_free pairOutside key value)
            (ih fun pair member => free pair (List.mem_cons_of_mem _ member))

theorem addParams_queryText (param : StringMap) (pairs : List (Bytes × Bytes)) (some : pairs ≠ [])
    (keys : ∀ pair ∈ pairs, pair.1 ≠ [] ∧ ¬ bytes "=" <:+: pair.1 ∧ QueryPart pair.1)
    (values : ∀ pair ∈ pairs, QueryPart pair.2) :
    addParams param (queryText pairs) = (param.emplaceAll pairs, true) := by
  induction pairs generalizing param with
  | nil => exact absurd rfl some
  | cons pair later ih =>
      obtain ⟨nonempty, equals, keyPart⟩ := keys pair List.mem_cons_self
      have valuePart := values pair List.mem_cons_self
      have ampFree : ¬ bytes "&" <:+: pairText pair :=
        pairText_free (by decide) keyPart.amp valuePart.amp
      have split : splitKeyVal (pairText pair) (bytes "=") = .some pair :=
        splitKeyVal_joined (by decide) nonempty equals
      cases later with
      | nil =>
          have alone : queryText [pair] = pairText pair := List.intercalate_singleton
          rw [addParams, alone]
          simp only [pieceBefore_alone ampFree, split]
          rw [if_pos (by omega)]
          rfl
      | cons next later =>
          have rest := ih (param.emplace pair.1 pair.2) (List.cons_ne_nil _ _)
            (fun pair member => keys pair (List.mem_cons_of_mem _ member))
            (fun pair member => values pair (List.mem_cons_of_mem _ member))
          have nonemptyRest := List.length_pos_of_ne_nil
            (queryText_ne_nil (List.cons_ne_nil next later))
          have behind : (pairText pair ++ bytes "&" ++ queryText (next :: later)).drop
              ((pairText pair).length + 1) = queryText (next :: later) := drop_joined (by rfl) _ _
          have width : (bytes "&").length = 1 := rfl
          rw [addParams, queryText_cons_cons]
          simp only [pieceBefore_joined (by decide : Unbordered (bytes "&")) ampFree, split, behind,
            rest]
          rw [if_neg]
          · rfl
          · rw [List.length_append, List.length_append]
            omega

namespace RequestText

variable (text : RequestText)

theorem takeUri_uriText (req : HttpRequest) (empty : req.param = ∅) :
    req.takeUri (uriText text.path text.query) =
      ({ req with path := text.path, param := UnorderedMap.emplaceAll ∅ text.query }, true) := by
  by_cases bare : text.query = []
  · rw [uriText, if_pos bare, HttpRequest.takeUri, find?_eq_none_iff.mpr text.path_mark, bare,
      UnorderedMap.emplaceAll_nil, ← empty]
    exact if_neg text.path_ne
  · have behind : (text.path ++ bytes "?" ++ queryText text.query).drop (text.path.length + 1) =
        queryText text.query := drop_joined (by rfl) _ _
    rw [uriText, if_neg bare, HttpRequest.takeUri,
      find?_piece (by decide : Unbordered (bytes "?")) text.path_mark]
    simp only [take_joined, if_neg text.path_ne, behind, if_neg (queryText_ne_nil bare), empty,
      addParams_queryText _ _ bare text.query_key text.query_value]

theorem uriText_free {needle : Bytes} (nonempty : needle ≠ []) (mark : 63 ∉ needle)
    (equals : 61 ∉ needle) (ampersand : 38 ∉ needle) (path : ¬ needle <:+: text.path)
    (query : ∀ pair ∈ text.query, ¬ needle <:+: pair.1 ∧ ¬ needle <:+: pair.2) :
    ¬ needle <:+: uriText text.path text.query := by
  unfold uriText
  split
  · exact path
  · exact joined_free mark path (queryText_free nonempty equals ampersand _ query)

theorem method_find : httpStrToMethod (cStr text.method.text) = text.method.toHttp := by
  cases text.method <;> decide

theorem version_known : httpStrToVersion (cStr text.version.text) ≠ .unknown := by
  cases text.version <;> decide

theorem lineText_free : ¬ crlf <:+: text.lineText := by
  have method : ¬ crlf <:+: text.method.text := by cases text.method <;> decide
  have version : ¬ crlf <:+: text.version.text := by cases text.version <;> decide
  have uri : ¬ crlf <:+: uriText text.path text.query :=
    text.uriText_free (by decide) (by decide) (by decide) (by decide) text.path_line
      fun pair member => ⟨(text.query_key pair member).2.2.line, (text.query_value pair member).line⟩
  exact joined_free (by decide) method (joined_free (by decide) uri version)

def lineRead : HttpRequest :=
  { HttpRequest.fresh with
    state := .parseReqHeader, method := text.method.toHttp, path := text.path,
    httpVer := text.version.text, param := UnorderedMap.emplaceAll ∅ text.query }

/-- Whatever version the request had before. -/
theorem takeReqLine_lineText (httpVer : Bytes) :
    { HttpRequest.fresh with httpVer }.takeReqLine text.lineText = text.lineRead := by
  have method : ¬ bytes " " <:+: text.method.text := by cases text.method <;> decide
  have known : text.method.toHttp ≠ .unknown := by cases text.method <;> decide
  have uri : ¬ bytes " " <:+: uriText text.path text.query :=
    text.uriText_free (by decide) (by decide) (by decide) (by decide) text.path_space
      fun pair member => ⟨(text.query_key pair member).2.2.space, (text.query_value pair member).space⟩
  have space : Unbordered (bytes " ") := by decide
  have behindMethod (rest : Bytes) : (text.method.text ++ bytes " " ++ rest).drop
      (text.method.text.length + 1) = rest := drop_joined (by rfl) _ _
  have behindUri (rest : Bytes) : (uriText text.path text.query ++ bytes " " ++ rest).drop
      ((uriText text.path text.query).length + 1) = rest := drop_joined (by rfl) _ _
  rw [lineText, HttpRequest.takeReqLine, find?_piece space method]
  simp only [take_joined, behindMethod, method_find, if_neg known, find?_piece space uri, behindUri]
  rw [takeUri_uriText _ _ rfl]
  simp only [Bool.not_true, Bool.false_eq_true, if_false, if_neg text.version_known]
  rfl

end RequestText

/-! ## Headers and body -/

theorem headText_cons (header : Bytes × Bytes) (later : List (Bytes × Bytes)) :
    headText (header :: later) = headerText header ++ crlf ++ headText later := rfl

namespace HttpRequest

/-- The header loop reads the list back and stops behind the empty line. -/
theorem feed_headText {errno : Errno} (headers : List (Bytes × Bytes)) (rest : Bytes)
    (req : HttpRequest) (header : req.state = .parseReqHeader)
    (keys : ∀ header ∈ headers,
      header.1 ≠ [] ∧ ¬ bytes ": " <:+: header.1 ∧ ¬ crlf <:+: header.1)
    (values : ∀ header ∈ headers, ¬ crlf <:+: header.2) :
    req.feed errno (headText headers ++ crlf ++ rest) =
      let body := { req with state := .parseBody, headers := req.headers.emplaceAll headers }.feedBody
        errno rest
      (body.1, (headText headers).length + 2 + body.2.1, body.2.2) := by
  induction headers generalizing req with
  | nil =>
      have found : find? crlf ([] ++ crlf ++ rest) = some ([] : Bytes).length :=
        find?_piece (by decide) (by decide)
      have line : req.takeLine [] = { req with state := .parseBody } := by
        rw [takeLine_header header]
        rfl
      rw [headText, List.flatMap_nil, feed_line (.inr header) found, List.length_nil,
        List.take_zero, line, if_neg (by simp), feed_body rfl]
      rfl
  | cons first later ih =>
      obtain ⟨nonempty, colon, keyLine⟩ := keys first List.mem_cons_self
      have value : ¬ crlf <:+: [] ++ [32] ++ first.2 :=
        joined_free (by decide) (by decide) (values first List.mem_cons_self)
      have free : ¬ crlf <:+: headerText first := by
        have whole : headerText first = first.1 ++ [58] ++ ([] ++ [32] ++ first.2) := by
          simp [headerText, bytes]
        rw [whole]
        exact joined_free (by decide) keyLine value
      have found : find? crlf (headerText first ++ crlf ++ (headText later ++ crlf ++ rest)) =
          some (headerText first).length := find?_piece (by decide) free
      have split : splitKeyVal (headerText first) (bytes ": ") = some first :=
        splitKeyVal_joined (by decide) nonempty colon
      have lineNe : headerText first ≠ [] := by simp [headerText, nonempty]
      have line : req.takeLine (headerText first) =
          { req with headers := req.headers.emplace first.1 first.2 } := by
        rw [takeLine_header header, takeHeader_of_line lineNe, split]
      have shape : headText (first :: later) ++ crlf ++ rest =
          headerText first ++ crlf ++ (headText later ++ crlf ++ rest) := by
        simp only [headText_cons, List.append_assoc]
      have next := ih { req with headers := req.headers.emplace first.1 first.2 } header
        (fun header member => keys header (List.mem_cons_of_mem _ member))
        (fun header member => values header (List.mem_cons_of_mem _ member))
      rw [shape, feed_line (.inr header) found, take_joined, line, if_neg (by simp [header]),
        drop_joined (by rfl), next, headText_cons, List.length_append, List.length_append]
      have width : crlf.length = 2 := rfl
      simp only [width, UnorderedMap.emplaceAll_cons, Nat.add_assoc]

end HttpRequest

theorem lookup_eq_filter (entries : List (Bytes × Bytes)) (key : Bytes) :
    entries.lookup key = ((entries.filter fun entry => entry.1 = key).head?).map Prod.snd := by
  induction entries with
  | nil => rfl
  | cons entry later ih =>
      obtain ⟨first, value⟩ := entry
      by_cases same : first = key
      · subst first
        rw [List.lookup_cons_self, List.filter_cons_of_pos (by simp)]
        rfl
      · have other : key ≠ first := fun equal => same equal.symm
        rw [List.lookup_cons, beq_eq_false_iff_ne.mpr other, List.filter_cons_of_neg (by simpa), ih]

namespace RequestText

variable (text : RequestText) {errno : Errno}

def headRead : HttpRequest :=
  { text.lineRead with
    state := .parseBody, headers := text.lineRead.headers.emplaceAll text.headers }

theorem headRead_header (key : Bytes) :
    text.headRead.headers.lookup key = text.headers.lookup key :=
  UnorderedMap.lookup_emplaceAll_empty text.headers key

theorem feedBody_body (clean : text.method = .post → errno ≠ .erange) (trailing : Bytes)
    (small : text.body.length < 2 ^ 64) :
    text.headRead.feedBody errno (text.body ++ trailing) =
      ({ text.headRead with state := .parseSuccess, body := text.body }, text.body.length, errno) := by
  cases method : text.method with
  | get =>
      have known : text.headRead.method = .get := by rw [headRead, lineRead, method]; rfl
      simp only [HttpRequest.feedBody, known, text.get_body method, List.length_nil]
      rfl
  | post =>
      have known : text.headRead.method = .post := by rw [headRead, lineRead, method]; rfl
      have lookup := text.headRead_header (bytes "Content-Length")
      rw [lookup_eq_filter] at lookup
      rcases text.post_body method with ⟨absent, empty⟩ | ⟨declared, nonempty⟩
      · rw [absent] at lookup
        simp only [HttpRequest.feedBody, known, lookup, List.head?_nil, Option.map_none, empty,
          List.length_nil]
        rfl
      · rw [declared] at lookup
        have pending : text.body ++ trailing ≠ [] := by simp [nonempty]
        have due : sizeSub text.body.length ([] : Bytes).length = text.body.length :=
          sizeSub_of_le (Nat.zero_le _)
        simp only [HttpRequest.feedBody, known, lookup, List.head?_cons, Option.map_some,
          if_neg pending, strToInum_decimal small (clean method), HttpRequest.takeBody]
        have empty : text.headRead.body = [] := rfl
        rw [empty, due, List.take_left, List.nil_append, if_pos rfl, List.length_append,
          Nat.min_eq_left (Nat.le_add_right _ _)]

/-- The request that the text stands for. -/
def asRead : HttpRequest := { text.headRead with state := .parseSuccess, body := text.body }

/-- Every unit of the text is taken, and nothing behind it. -/
theorem feed_serialise (clean : text.method = .post → errno ≠ .erange) (httpVer trailing : Bytes)
    (small : text.body.length < 2 ^ 64) :
    { HttpRequest.fresh with httpVer }.feed errno (text.serialise ++ trailing) =
      (text.asRead, text.serialise.length, errno) := by
  have found : find? crlf (text.lineText ++ crlf ++
      (headText text.headers ++ crlf ++ (text.body ++ trailing))) = some text.lineText.length :=
    find?_piece (by decide) text.lineText_free
  have shape : text.serialise ++ trailing = text.lineText ++ crlf ++
      (headText text.headers ++ crlf ++ (text.body ++ trailing)) := by
    simp only [serialise, List.append_assoc]
  have headers : text.lineRead.feed errno
      (headText text.headers ++ crlf ++ (text.body ++ trailing)) =
      let body := text.headRead.feedBody errno (text.body ++ trailing)
      (body.1, (headText text.headers).length + 2 + body.2.1, body.2.2) :=
    HttpRequest.feed_headText _ _ _ rfl text.header_key text.header_value
  have width : crlf.length = 2 := rfl
  have total : text.serialise.length =
      text.lineText.length + 2 + ((headText text.headers).length + 2 + text.body.length) := by
    simp only [serialise, List.length_append, width]
  have notLast : text.lineRead.state ≠ .parseSuccess := by simp [lineRead]
  rw [shape, HttpRequest.feed_line (.inl rfl) found, take_joined, HttpRequest.takeLine_reqLine rfl,
    takeReqLine_lineText text httpVer, if_neg notLast, drop_joined (by rfl), headers,
    text.feedBody_body clean trailing small, total]
  rfl

/-- Parsing undoes serialising, whatever follows the request. -/
theorem parse_serialise (clean : errno ≠ .erange) (trailing : Bytes)
    (short : (text.serialise ++ trailing).length < 2 ^ 32) :
    ∃ req after, HttpRequest.fresh.parse errno (text.serialise ++ trailing) 0 =
        .ok (req, text.serialise.length, after) ∧
      req.parseComplete = true ∧ req.isBadReq = false ∧
      req.method = text.method.toHttp ∧ req.path = text.path ∧ req.httpVer = text.version.text ∧
      req.body = text.body ∧
      (∀ key, req.getHeader key = text.headers.lookup key) ∧
      (∀ key, req.getParam key = text.query.lookup key) := by
  have nonempty : 0 < text.lineText.length := by
    simp [lineText, bytes]
  have total : text.lineText.length + text.body.length ≤ (text.serialise ++ trailing).length := by
    simp only [serialise, List.length_append]
    omega
  refine ⟨text.asRead, errno, ?_, rfl, rfl, rfl, rfl, rfl, rfl, text.headRead_header,
    UnorderedMap.lookup_emplaceAll_empty text.query⟩
  rw [HttpRequest.parse_eq_feed short, if_neg (by omega), List.drop_zero]
  exact congrArg _ (text.feed_serialise (fun _ => clean) (bytes "HTTP/1.1") trailing (by omega))

/-- A `POST` with parameters, a header and a body that looks like a delimiter. -/
def samplePost : RequestText where
  method := .post
  path := bytes "/login"
  query := [(bytes "user", bytes "a=b"), (bytes "user", bytes "c")]
  version := .http11
  headers := [(bytes "Host:", bytes "x"), (bytes "Content-Length", decimal 2)]
  body := crlf
  path_ne := by decide
  path_space := by decide
  path_mark := by decide
  path_line := by decide
  query_key := by decide
  query_value := by decide
  header_key := by decide
  header_value := by decide
  get_body := by decide
  post_body := by decide

theorem parse_serialise_samplePost :
    ∃ req after, HttpRequest.fresh.parse .clear (samplePost.serialise ++ bytes "GET") 0 =
        .ok (req, samplePost.serialise.length, after) ∧
      req.body = crlf ∧ req.getParam (bytes "user") = some (bytes "a=b") := by
  obtain ⟨req, after, parsed, _, _, _, _, _, body, _, param⟩ :=
    parse_serialise samplePost (by decide : Errno.clear ≠ .erange) (bytes "GET") (by decide)
  exact ⟨req, after, parsed, body, param _⟩

end RequestText

end LiteWebServer
