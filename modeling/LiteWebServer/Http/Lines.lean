import LiteWebServer.Http.Request

namespace LiteWebServer

open Data

/-! The text-level reading of the parser: every function here works on the text
it is given instead of offsets into a buffer, and the theorems say that the
offset code computes exactly this without leaving the string. -/

theorem strGetFirstToken_eq {src delim : Bytes} {startPos : Nat} (inside : startPos ≤ src.length) :
    strGetFirstToken src delim startPos =
      .ok ((find? delim (src.drop startPos)).map fun k => (src.drop startPos).take k) := by
  rw [strGetFirstToken, findFrom_of_le inside]
  cases find? delim (src.drop startPos) with
  | none => rfl
  | some k => simp only [Option.map_some, substr_found inside]; rfl

/-- Key and value around the first delimiter; no delimiter or an empty key gives
nothing. -/
def splitKeyVal (src delim : Bytes) : Option (Bytes × Bytes) :=
  match find? delim src with
  | none => none
  | some k => if src.take k = [] then none else some (src.take k, src.drop (k + delim.length))

theorem strGetKeyVal_eq (dst : StringMap) (src delim : Bytes) :
    strGetKeyVal dst src delim 0 = .ok
      (match splitKeyVal src delim with
        | none => (dst, false)
        | some (key, val) => (dst.emplace key val, true)) := by
  rw [strGetKeyVal, findFrom_zero, splitKeyVal]
  cases found : find? delim src with
  | none => rfl
  | some k =>
      have key : substr src 0 (k - 0) = .ok (src.take k) := by
        rw [substr, if_pos (Nat.zero_le _), List.drop_zero, Nat.sub_zero]
      simp only [key, substrFrom_of_le (find?_bound found), bind, Except.bind]
      by_cases empty : src.take k = []
      · simp only [if_pos empty]; rfl
      · simp only [if_neg empty]; rfl

/-- The text up to the delimiter, or all of it. -/
def pieceBefore (delim text : Bytes) : Bytes :=
  match find? delim text with
  | none => text
  | some k => text.take k

theorem pieceBefore_length_le (delim text : Bytes) :
    (pieceBefore delim text).length ≤ text.length := by
  unfold pieceBefore
  split
  · exact Nat.le_refl _
  · rw [List.length_take]
    exact Nat.min_le_right _ _

def addParams (param : StringMap) (raw : Bytes) : StringMap × Bool :=
  match splitKeyVal (pieceBefore (bytes "&") raw) (bytes "=") with
  | none => (param, false)
  | some (key, val) =>
      if raw.length ≤ (pieceBefore (bytes "&") raw).length + 1 then (param.emplace key val, true)
      else addParams (param.emplace key val)
        (raw.drop ((pieceBefore (bytes "&") raw).length + 1))
termination_by raw.length
decreasing_by
  rw [List.length_drop]
  omega

namespace HttpRequest

theorem nextParam_eq {rawParam delim : Bytes} {startPos : Nat} (inside : startPos ≤ rawParam.length) :
    nextParam rawParam delim startPos = .ok (pieceBefore delim (rawParam.drop startPos)) := by
  simp only [nextParam, strGetFirstToken_eq inside, bind, Except.bind, pieceBefore]
  cases find? delim (rawParam.drop startPos) with
  | none => exact substrFrom_of_le inside
  | some k => rfl

/-- The query loop stays inside the query and ends: each turn moves past at
least the delimiter, so the fuel is never used up. -/
theorem parseParams_eq (fuel : Nat) (req : HttpRequest) (rawParam : Bytes) (startPos : Nat)
    (inside : startPos ≤ rawParam.length) (enough : rawParam.length - startPos < fuel) :
    parseParams fuel req rawParam startPos = .ok
      ({ req with param := (addParams req.param (rawParam.drop startPos)).1 },
        (addParams req.param (rawParam.drop startPos)).2) := by
  induction fuel generalizing req startPos with
  | zero => omega
  | succ fuel ih =>
      have width : (rawParam.drop startPos).length = rawParam.length - startPos :=
        List.length_drop
      have delim : (bytes "&").length = 1 := rfl
      rw [parseParams, addParams]
      simp only [nextParam_eq inside, strGetKeyVal_eq, bind, Except.bind]
      cases splitKeyVal (pieceBefore (bytes "&") (rawParam.drop startPos)) (bytes "=") with
      | none => rfl
      | some pair =>
          have pieceLe := pieceBefore_length_le (bytes "&") (rawParam.drop startPos)
          simp only [delim, Bool.not_true, Bool.false_eq_true, if_false]
          by_cases last : rawParam.length ≤
              startPos + ((pieceBefore (bytes "&") (rawParam.drop startPos)).length + 1)
          · rw [if_pos last, if_pos (by omega)]
            rfl
          · rw [if_neg last, if_neg (by omega), ih _ _ (by omega) (by omega), List.drop_drop]

def takeUri (req : HttpRequest) (uri : Bytes) : HttpRequest × Bool :=
  match find? (bytes "?") uri with
  | none => if uri = [] then (req, false) else ({ req with path := uri }, true)
  | some k =>
      let req := { req with path := uri.take k }
      if uri.take k = [] then (req, false)
      else if uri.drop (k + 1) = [] then (req, false)
      else
        ({ req with param := (addParams req.param (uri.drop (k + 1))).1 },
          (addParams req.param (uri.drop (k + 1))).2)

theorem parseUri_eq (req : HttpRequest) (uri : Bytes) : parseUri req uri = .ok (req.takeUri uri) := by
  rw [parseUri, strGetFirstToken_eq (Nat.zero_le _), takeUri, List.drop_zero]
  cases found : find? (bytes "?") uri with
  | none =>
      by_cases empty : uri = []
      · simp [empty, bind, Except.bind, pure, Except.pure]
      · simp [empty, bind, Except.bind, pure, Except.pure]
  | some k =>
      have bound := find?_bound found
      have delim : (bytes "?").length = 1 := rfl
      have taken : (uri.take k).length = k := by
        rw [List.length_take]
        omega
      simp only [bind, Except.bind, Option.map_some, pathIsVaild, taken, delim]
      by_cases empty : uri.take k = []
      · simp [empty, pure, Except.pure]
      · have rest : substrFrom uri (k + 1) = .ok (uri.drop (k + 1)) :=
          substrFrom_of_le (by omega)
        simp only [empty, ne_eq, not_false_eq_true, decide_true, Bool.not_true,
          Bool.false_eq_true, if_false, rest]
        by_cases bare : uri.drop (k + 1) = []
        · simp [bare, pure, Except.pure]
        · simp only [if_neg bare]
          rw [parseParams_eq _ _ _ _ (Nat.zero_le _) (by omega), List.drop_zero]

/-- Only the path and the parameters come from the target. -/
theorem takeUri_frame (req : HttpRequest) (uri : Bytes) :
    ∃ path param, (req.takeUri uri).1 = { req with path, param } := by
  unfold takeUri
  split
  · split
    · exact ⟨req.path, req.param, rfl⟩
    · exact ⟨uri, req.param, rfl⟩
  · dsimp only
    split
    · exact ⟨_, req.param, rfl⟩
    · split
      · exact ⟨_, req.param, rfl⟩
      · exact ⟨_, _, rfl⟩

/-- What the request line makes of the request: bad, or past its first phase. -/
def takeReqLine (req : HttpRequest) (line : Bytes) : HttpRequest :=
  match find? (bytes " ") line with
  | none => req.setBadReq
  | some k =>
      let req := { req with method := httpStrToMethod (cStr (line.take k)) }
      if req.method = .unknown then req.setBadReq
      else
        let rest := line.drop (k + 1)
        match find? (bytes " ") rest with
        | none => req.setBadReq
        | some k =>
            let target := req.takeUri (rest.take k)
            let version := rest.drop (k + 1)
            if !target.2 then target.1.setBadReq
            else if httpStrToVersion (cStr version) = .unknown then target.1.setBadReq
            else { target.1 with httpVer := version, state := .parseReqHeader }

/-- The request line does not touch the headers and the body. -/
theorem takeReqLine_frame (req : HttpRequest) (line : Bytes) :
    ∃ state isBadReq method path httpVer param,
      req.takeReqLine line = { req with state, isBadReq, method, path, httpVer, param } := by
  unfold takeReqLine setBadReq
  split
  · exact ⟨_, _, _, _, _, _, rfl⟩
  · rename_i k _
    dsimp only
    split
    · exact ⟨_, _, _, _, _, _, rfl⟩
    · split
      · exact ⟨_, _, _, _, _, _, rfl⟩
      · rename_i j _
        obtain ⟨path, param, same⟩ := takeUri_frame
          { req with method := httpStrToMethod (cStr (line.take k)) } ((line.drop (k + 1)).take j)
        rw [same]
        split
        · exact ⟨_, _, _, _, _, _, rfl⟩
        · split <;> exact ⟨_, _, _, _, _, _, rfl⟩

theorem setBadReq_state (req : HttpRequest) : req.setBadReq.state = .parseSuccess := rfl

theorem parseLine_eq (req : HttpRequest) (line : Bytes) :
    parseLine req line = .ok (req.takeReqLine line,
      if (req.takeReqLine line).state = .parseSuccess then 0 else u32 (line.length + 2)) := by
  rw [parseLine, findFrom_zero, takeReqLine]
  cases found : find? (bytes " ") line with
  | none => simp [setBadReq_state]
  | some k =>
      have bound := find?_bound found
      have space : (bytes " ").length = 1 := rfl
      have method : substr line 0 k = .ok (line.take k) := by
        rw [substr, if_pos (Nat.zero_le _), List.drop_zero]
      have inside : k + 1 ≤ line.length := by omega
      simp only [method, bind, Except.bind]
      by_cases unknown : httpStrToMethod (cStr (line.take k)) = .unknown
      · simp [unknown, setBadReq_state, pure, Except.pure]
      · simp only [if_neg unknown, findFrom_of_le inside]
        cases second : find? (bytes " ") (line.drop (k + 1)) with
        | none => simp [setBadReq_state, pure, Except.pure]
        | some j =>
            have boundRest := find?_bound second
            rw [List.length_drop] at boundRest
            have version : substrFrom line (j + (k + 1) + 1) =
                .ok ((line.drop (k + 1)).drop (j + 1)) := by
              rw [substrFrom_of_le (by omega), List.drop_drop]
              congr 2
              omega
            simp only [Option.map_some, substr_found inside, parseUri_eq, version]
            split
            · simp [setBadReq_state, pure, Except.pure]
            · split
              · simp [setBadReq_state, pure, Except.pure]
              · simp [pure, Except.pure]

/-- What one header line makes of the request; the empty line ends the head. -/
def takeHeader (req : HttpRequest) (line : Bytes) : HttpRequest :=
  if line = [] then { req with state := .parseBody }
  else
    match splitKeyVal line (bytes ": ") with
    | none => req.setBadReq
    | some (key, val) => { req with headers := req.headers.emplace key val }

end HttpRequest

end LiteWebServer
