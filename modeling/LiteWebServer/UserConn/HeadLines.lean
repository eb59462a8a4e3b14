import LiteWebServer.Http.Grammar
import LiteWebServer.Http.Steps
import LiteWebServer.UserConn.Handlers

namespace LiteWebServer

open Data

/-! The lines of a rendered head, whatever a request has put into it. -/

/-- The line of this header ends with its own `CRLF` and is cut behind its own key. -/
structure CleanEntry (key value : Bytes) : Prop where
  colon : ¬ bytes ": " <:+: key
  key : ¬ crlf <:+: key
  value : ¬ crlf <:+: value

theorem CleanEntry.line {key value : Bytes} (clean : CleanEntry key value) :
    ¬ crlf <:+: key ++ bytes ": " ++ value := by
  have whole : key ++ bytes ": " ++ value = key ++ [58] ++ ([] ++ [32] ++ value) := by simp [bytes]
  rw [whole]
  exact joined_free (by decide) clean.key (joined_free (by decide) (by decide) clean.value)

namespace HttpResponse

def statusLine (rsp : HttpResponse) : Bytes :=
  rsp.httpVer ++ bytes " " ++ decimal rsp.code.number ++ bytes " " ++ httpCodeToStr rsp.code

/-- Cut at its `CRLF`s, the head is a status line, one line for each header, which its
first `": "` cuts into the key and the value, and an empty line at the end. -/
def ReadsAsHead (rsp : HttpResponse) : Prop :=
  ∃ lines, pieces crlf rsp.head = (rsp.statusLine :: (lines ++ [[]]), []) ∧
    List.Forall₂ (fun line kv => FirstCut (bytes ": ") line kv.1 kv.2) lines rsp.headers.entries

structure CleanHead (rsp : HttpResponse) : Prop where
  version : ¬ crlf <:+: rsp.httpVer
  headers : ∀ key value, rsp.getHeader key = some value → CleanEntry key value

variable {order : HashOrder Bytes Bytes} {rsp : HttpResponse}

theorem decimal_free (value : Nat) : ¬ crlf <:+: decimal value := by
  intro held
  have digit : isDigit 13 = true := decimal_isDigit (held.subset (by decide))
  exact absurd digit (by decide)

theorem statusLine_free (version : ¬ crlf <:+: rsp.httpVer) : ¬ crlf <:+: rsp.statusLine := by
  have reason : ¬ crlf <:+: httpCodeToStr rsp.code := by cases rsp.code <;> decide
  exact joined_free (by decide) (joined_free (by decide) version (decimal_free _)) reason

theorem CleanHead.readsAsHead (clean : rsp.CleanHead) : rsp.ReadsAsHead := by
  let lines := rsp.headers.entries.map fun kv => kv.1 ++ bytes ": " ++ kv.2
  have entry {kv : Sigma fun _ : Bytes => Bytes} (member : kv ∈ rsp.headers.entries) :
      CleanEntry kv.1 kv.2 :=
    clean.headers kv.1 kv.2 (AList.mem_lookup_iff.mpr member)
  have shape : rsp.head =
      ((rsp.statusLine :: (lines ++ [[]])).flatMap fun line => line ++ crlf) ++ [] := by
    simp only [head, baseText, statusLine, List.flatMap_cons, List.flatMap_append, List.flatMap_nil,
      List.append_nil, List.nil_append, List.flatMap_map, List.append_assoc, lines]
  refine ⟨lines, ?_, ?_⟩
  · rw [shape, pieces_joined (by decide) _ ?_ [], pieces_of_free (by decide), List.append_nil]
    intro line member
    apply crlf_unbordered.endsPiece
    rcases List.mem_cons.mp member with rfl | later
    · exact statusLine_free clean.version
    · rcases List.mem_append.mp later with header | last
      · obtain ⟨kv, inside, rfl⟩ := List.mem_map.mp header
        exact (entry inside).line
      · rw [List.mem_singleton.mp last]
        decide
  · rw [List.forall₂_map_left_iff]
    exact List.forall₂_same.mpr fun kv member => ⟨rfl, (entry member).colon⟩

end HttpResponse

/-! ## Responses that are built -/

/-- A call that hands over no `CRLF`. -/
def HandlerCall.Clean : HandlerCall → Prop
  | .headerOper .add key value | .headerOper .modify key value => CleanEntry key value
  | .setBodyFile _ _ charset | .setBodyBin _ _ charset => ¬ crlf <:+: charset
  | _ => True

namespace HttpResponse

variable {order : HashOrder Bytes Bytes} {rsp : HttpResponse}

theorem CleanHead.modify {key value : Bytes} (clean : rsp.CleanHead) (entry : CleanEntry key value) :
    (rsp.headerOper order .modify key value).CleanHead where
  version := clean.version
  headers other found := by
    rw [getHeader_modify]
    split
    · rename_i same
      intro taken
      cases taken
      rwa [same]
    · exact clean.headers other found

theorem CleanHead.del (clean : rsp.CleanHead) (key value : Bytes) :
    (rsp.headerOper order .del key value).CleanHead where
  version := by
    rw [headerOper_httpVer]
    exact clean.version
  headers other found := by
    rw [getHeader_del]
    split
    · intro taken
      cases taken
    · exact clean.headers other found

theorem CleanHead.updateContentType (clean : rsp.CleanHead) (type : HttpContentType) {charset : Bytes}
    (free : ¬ crlf <:+: charset) : (rsp.updateContentType order type charset).CleanHead := by
  have entry {text : Bytes} (free : ¬ crlf <:+: text) : CleanEntry (bytes "Content-Type") text :=
    ⟨by decide, by decide, free⟩
  have typed : { rsp with bodyType := type }.CleanHead := ⟨clean.version, clean.headers⟩
  have text : ¬ crlf <:+: httpContentTypeToStr type := by cases type <;> decide
  unfold HttpResponse.updateContentType
  dsimp only
  split
  · exact typed.del _ _
  · split
    · refine typed.modify (entry ?_)
      have whole : httpContentTypeToStr type ++ (bytes "; charset=" ++ charset) =
          httpContentTypeToStr type ++ [59] ++ (bytes " charset" ++ [61] ++ charset) := by
        simp [bytes]
      rw [whole]
      exact joined_free (by decide) text (joined_free (by decide) (by decide) free)
    · exact typed.modify (entry (by cases type <;> decide))

theorem CleanHead.ofRequest {req : HttpRequest} (version : ¬ crlf <:+: req.httpVer)
    (connection : ∀ value, req.getHeader (bytes "Connection") = some value → ¬ crlf <:+: value) :
    (ofRequest order req).CleanHead where
  version := version
  headers key value found := by
    have initial (key value : Bytes) (found : (initialHeaders order).lookup key = some value) :
        CleanEntry key value := by
      simp only [initialHeaders, UnorderedMap.lookup_assign] at found
      split at found
      · rename_i same
        cases found
        exact same ▸ ⟨by decide, by decide, by decide⟩
      · split at found
        · rename_i same
          cases found
          exact same ▸ ⟨by decide, by decide, by decide⟩
        · split at found
          · rename_i same
            cases found
            exact same ▸ ⟨by decide, by decide, by decide⟩
          · cases found
    rw [getHeader, ofRequest_headers] at found
    cases given : req.getHeader (bytes "Connection") with
    | none =>
        rw [given] at found
        exact initial key value found
    | some text =>
        rw [given, Option.elim_some, UnorderedMap.lookup_assign] at found
        split at found
        · rename_i same
          cases found
          exact same ▸ ⟨by decide, by decide, connection _ given⟩
        · exact initial key value found

theorem CleanHead.apply (clean : rsp.CleanHead) {call : HandlerCall} (allowed : call.Clean) :
    (call.apply order rsp).CleanHead := by
  have length (size : Nat) : CleanEntry (bytes "Content-Length") (decimal size) :=
    ⟨by decide, by decide, decimal_free size⟩
  cases call with
  | setCode code => exact ⟨clean.version, clean.headers⟩
  | headerOper oper key value =>
      cases oper with
      | add => exact clean.modify allowed
      | modify => exact clean.modify allowed
      | del => exact @CleanHead.del order rsp clean key value
      | clear => exact ⟨clean.version, fun _ _ found => by cases found⟩
  | setBodyFile path type charset =>
      have file : { rsp with bodyIsFile := true, body := path }.CleanHead :=
        ⟨clean.version, clean.headers⟩
      exact file.updateContentType type allowed
  | setBodyBin data type charset =>
      have inMemory : { rsp with bodyIsFile := false }.CleanHead := ⟨clean.version, clean.headers⟩
      obtain ⟨version, headers⟩ := @CleanHead.modify order _ _ _ inMemory (length data.length)
      have sized : { { rsp with bodyIsFile := false }.headerOper order .modify
          (bytes "Content-Length") (decimal data.length) with body := data }.CleanHead :=
        ⟨version, headers⟩
      exact sized.updateContentType type allowed
  | setNoBody =>
      have inMemory : { rsp with bodyIsFile := false }.CleanHead := ⟨clean.version, clean.headers⟩
      exact @CleanHead.del order _ (inMemory.modify (length 0)) (bytes "Content-Type") []

theorem CleanHead.build {req : HttpRequest} (initial : (HttpResponse.ofRequest order req).CleanHead)
    {calls : List HandlerCall} (allowed : ∀ call ∈ calls, call.Clean) :
    (HttpResponse.build order req calls).CleanHead := by
  suffices kept : ∀ rsp : HttpResponse, rsp.CleanHead →
      (calls.foldl (HandlerCall.apply order) rsp).CleanHead from kept _ initial
  induction calls with
  | nil => exact fun _ clean => clean
  | cons call later ih =>
      intro rsp clean
      exact ih (fun call member => allowed call (List.mem_cons_of_mem _ member)) _
        (clean.apply (allowed call List.mem_cons_self))

end HttpResponse

/-! ## Requests that were parsed -/

namespace HttpRequest

/-- Nothing that responses repeat has a `CRLF` in it. -/
structure NoLineEnd (req : HttpRequest) : Prop where
  version : ¬ crlf <:+: req.httpVer
  path : ¬ crlf <:+: req.path
  headers : ∀ key value, req.getHeader key = some value → ¬ crlf <:+: value

variable {req next : HttpRequest} {line : Bytes}

theorem takeUri_path (req : HttpRequest) (uri : Bytes) :
    (req.takeUri uri).1.path = req.path ∨ (req.takeUri uri).1.path <:+: uri := by
  unfold takeUri
  split
  · split
    · exact .inl rfl
    · exact .inr List.infix_rfl
  · dsimp only
    have inside (k : Nat) : uri.take k <:+: uri := (List.take_prefix k uri).isInfix
    split
    · exact .inr (inside _)
    · split
      · exact .inr (inside _)
      · exact .inr (inside _)

/-- What the request line leaves in the request was there before or is part of it. -/
theorem takeReqLine_parts (req : HttpRequest) (line : Bytes) :
    ((req.takeReqLine line).httpVer = req.httpVer ∨ (req.takeReqLine line).httpVer <:+: line) ∧
      ((req.takeReqLine line).path = req.path ∨ (req.takeReqLine line).path <:+: line) := by
  unfold takeReqLine
  split
  · exact ⟨.inl rfl, .inl rfl⟩
  · rename_i k _
    dsimp only
    split
    · exact ⟨.inl rfl, .inl rfl⟩
    · split
      · exact ⟨.inl rfl, .inl rfl⟩
      · rename_i j _
        have rest : line.drop (k + 1) <:+: line := (List.drop_suffix _ _).isInfix
        have uri : (line.drop (k + 1)).take j <:+: line := (List.take_prefix _ _).isInfix.trans rest
        have version : (line.drop (k + 1)).drop (j + 1) <:+: line :=
          (List.drop_suffix _ _).isInfix.trans rest
        let named := { req with method := httpStrToMethod (cStr (line.take k)) }
        have path : (named.takeUri ((line.drop (k + 1)).take j)).1.path = req.path ∨
            (named.takeUri ((line.drop (k + 1)).take j)).1.path <:+: line :=
          (named.takeUri_path _).imp_right fun part => part.trans uri
        have kept : (named.takeUri ((line.drop (k + 1)).take j)).1.httpVer = req.httpVer := by
          obtain ⟨_, _, frame⟩ := named.takeUri_frame ((line.drop (k + 1)).take j)
          rw [frame]
        split
        · exact ⟨.inl kept, path⟩
        · split
          · exact ⟨.inl kept, path⟩
          · exact ⟨.inr version, path⟩

theorem splitKeyVal_value {delim key value : Bytes} (split : splitKeyVal line delim = some (key, value)) :
    value <:+: line := by
  unfold splitKeyVal at split
  split at split
  · cases split
  · split at split
    · cases split
    · cases split
      exact (List.drop_suffix _ _).isInfix

theorem NoLineEnd.step (free : req.NoLineEnd) (step : ParseStep req next) : next.NoLineEnd := by
  have part {text line : Bytes} (lineFree : ¬ crlf <:+: line) (inside : text <:+: line) :
      ¬ crlf <:+: text := fun held => lineFree (held.trans inside)
  cases step with
  | @reqLine line here lineFree =>
      obtain ⟨version, path⟩ := req.takeReqLine_parts line
      have headers : (req.takeReqLine line).headers = req.headers := by
        obtain ⟨_, _, _, _, _, _, frame⟩ := req.takeReqLine_frame line
        rw [frame]
      constructor
      · exact version.elim (fun same => same ▸ free.version) (part lineFree)
      · exact path.elim (fun same => same ▸ free.path) (part lineFree)
      · intro key value found
        rw [getHeader, headers] at found
        exact free.headers key value found
  | @header line here lineFree =>
      unfold takeHeader
      split
      · exact ⟨free.version, free.path, free.headers⟩
      · split
        · exact ⟨free.version, free.path, free.headers⟩
        · rename_i key value split
          refine ⟨free.version, free.path, fun key' value' found => ?_⟩
          rw [getHeader, UnorderedMap.lookup_emplace, Option.or_eq_some_iff] at found
          rcases found with before | ⟨-, new⟩
          · exact free.headers key' value' before
          · split at new
            · cases new
              exact part lineFree (splitKeyVal_value split)
            · cases new
  | body here body either => exact ⟨free.version, free.path, free.headers⟩
  | reject here => exact ⟨free.version, free.path, free.headers⟩

theorem Parsed.noLineEnd (parsed : Parsed req) : req.NoLineEnd := by
  refine parsed.invariant NoLineEnd ?_ ?_ fun free step => free.step step
  · exact ⟨by decide, by decide, fun _ _ found => by cases found⟩
  · exact ⟨by decide, by decide, fun _ _ found => by cases found⟩

end HttpRequest

/-! ## The built-in handlers -/

/-- The handlers that come with the server. -/
inductive BuiltIn (order : HashOrder Bytes Bytes) : HandleFunc → Prop where
  | root : BuiltIn order (rootHandler order)
  | static : BuiltIn order (staticFileHandler order)
  | moved : BuiltIn order (errHandler301 order)
  | page (code : HttpCode) : BuiltIn order (defErrHandler order code)

/-- A handler that hands over no `CRLF` to its response when the request has none. -/
def BuildsCleanly (order : HashOrder Bytes Bytes) (func : HandleFunc) : Prop :=
  ∀ req, req.NoLineEnd → ∃ calls, (∀ call ∈ calls, HandlerCall.Clean call) ∧
    func req = HttpResponse.build order req calls

variable {order : HashOrder Bytes Bytes} {func : HandleFunc}

theorem BuiltIn.buildsCleanly (builtIn : BuiltIn order func) : BuildsCleanly order func := by
  intro req free
  have file (path : Bytes) (type : HttpContentType) :
      HandlerCall.Clean (.setBodyFile path type []) := by
    change ¬ crlf <:+: []
    decide
  cases builtIn with
  | root =>
      refine ⟨[.setBodyFile (req.path ++ bytes "index.html") .htmlType []], ?_, rfl⟩
      exact List.forall_mem_singleton.mpr (file _ _)
  | static =>
      refine ⟨[.setBodyFile req.path (getFileContentType req.path) []], ?_, rfl⟩
      exact List.forall_mem_singleton.mpr (file _ _)
  | moved =>
      refine ⟨[.setCode .movedPermanently, .headerOper .add (bytes "Location") (req.path ++ bytes "/"),
        .setNoBody], ?_, rfl⟩
      have location : ¬ crlf <:+: req.path ++ bytes "/" := by
        have whole : req.path ++ bytes "/" = req.path ++ [47] ++ [] := by simp [bytes]
        rw [whole]
        exact joined_free (by decide) free.path (by decide)
      have entry : CleanEntry (bytes "Location") (req.path ++ bytes "/") :=
        ⟨by decide, by decide, location⟩
      exact List.forall_mem_cons.mpr
        ⟨trivial, List.forall_mem_cons.mpr ⟨entry, List.forall_mem_singleton.mpr trivial⟩⟩
  | page code =>
      refine ⟨[.setCode code, .headerOper .modify (bytes "Connection") (bytes "close"),
        .setBodyBin (errBody code) .htmlType []], ?_, rfl⟩
      have entry : CleanEntry (bytes "Connection") (bytes "close") :=
        ⟨by decide, by decide, by decide⟩
      have page : HandlerCall.Clean (.setBodyBin (errBody code) .htmlType []) := by
        change ¬ crlf <:+: []
        decide
      exact List.forall_mem_cons.mpr
        ⟨trivial, List.forall_mem_cons.mpr ⟨entry, List.forall_mem_singleton.mpr page⟩⟩

theorem BuildsCleanly.cleanHead (builds : BuildsCleanly order func) {req : HttpRequest}
    (free : req.NoLineEnd) : (func req).CleanHead := by
  obtain ⟨calls, allowed, same⟩ := builds req free
  rw [same]
  exact HttpResponse.CleanHead.build
    (HttpResponse.CleanHead.ofRequest free.version fun value found => free.headers _ value found) allowed

/-- With the length that `process_out` adds for a file it has opened. -/
def HttpResponse.withLength (order : HashOrder Bytes Bytes) (rsp : HttpResponse) :
    Option Nat → HttpResponse
  | none => rsp
  | some size => rsp.headerOper order .modify (bytes "Content-Length") (decimal size)

theorem HttpResponse.CleanHead.withLength {rsp : HttpResponse} (clean : rsp.CleanHead)
    (length : Option Nat) : (rsp.withLength order length).CleanHead := by
  cases length with
  | none => exact clean
  | some size => exact clean.modify ⟨by decide, by decide, decimal_free size⟩

/-- No request adds a line to the head of a built-in response or ends it early. -/
theorem builtIn_reads_as_head (builtIn : BuiltIn order func) {req : HttpRequest} (parsed : req.Parsed)
    (length : Option Nat) : ((func req).withLength order length).ReadsAsHead :=
  ((builtIn.buildsCleanly.cleanHead parsed.noLineEnd).withLength length).readsAsHead

/-- Line ends in halves, in the path and in the header that is repeated. -/
theorem halves_stay_apart :
    ∃ req count after,
      HttpRequest.fresh.parse .clear (bytes "GET /\n\r HTTP/1.1\r\nConnection: \n\r\r\n\r\n") 0 =
          .ok (req, count, after) ∧
        req.path = bytes "/\n\r" ∧ (errHandler301 (.front Bytes Bytes) req).ReadsAsHead := by
  have outcome : (HttpRequest.fresh.parse .clear
      (bytes "GET /\n\r HTTP/1.1\r\nConnection: \n\r\r\n\r\n") 0).toOption.map
        (fun result => result.1.path) = some (bytes "/\n\r") := by
    decide +kernel
  obtain ⟨⟨req, count, after⟩, ran, path⟩ := ok_of_map outcome
  exact ⟨req, count, after, ran, path, builtIn_reads_as_head .moved (.parse .fresh ran) none⟩

end LiteWebServer
