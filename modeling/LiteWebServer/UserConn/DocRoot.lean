import LiteWebServer.Data.DotSegments
import LiteWebServer.UserConn.Output

namespace LiteWebServer

open Data

/-! Where the names that `process_out` opens lie, once their dot segments are resolved
lexically. -/

def segmentOf (piece : Bytes) : Segment Bytes :=
  if piece = [] ∨ piece = bytes "." then .here
  else if piece = bytes ".." then .up
  else .name piece

def segments (text : Bytes) : List (Segment Bytes) := (text.splitOn 47).map segmentOf

def rooted (text : Bytes) : Bool := text.head? = some 47

def placeOf (text : Bytes) : Place Bytes := Place.walk (rooted text) .start (segments text)

/-- `name` lies in the directory `dir` or is the directory. -/
def InsideDir (dir name : Bytes) : Prop :=
  rooted name = rooted dir ∧ Place.Inside (placeOf dir) (placeOf name)

instance (dir name : Bytes) : Decidable (InsideDir dir name) :=
  inferInstanceAs (Decidable (_ ∧ _))

theorem insideDir_refl (dir : Bytes) : InsideDir dir dir := ⟨rfl, Place.inside_refl _⟩

theorem segments_nil : segments [] = [.here] := by decide

theorem segments_slash (front back : Bytes) :
    segments (front ++ 47 :: back) = segments front ++ segments back := by
  rw [segments, List.splitOn_append_cons_self, List.map_append]
  rfl

theorem rooted_append {front : Bytes} (nonempty : front ≠ []) (back : Bytes) :
    rooted (front ++ back) = rooted front := by
  rw [rooted, List.head?_append_of_ne_nil front nonempty, rooted]

theorem cStr_append_of_no_nul {front : Bytes} (noNul : 0 ∉ front) (back : Bytes) :
    cStr (front ++ back) = front ++ cStr back :=
  List.takeWhile_append_of_pos fun c member => by
    simpa using fun zero : c = 0 => noNul (zero ▸ member)

theorem cStr_append_of_nul {front : Bytes} (nul : 0 ∈ front) (back : Bytes) :
    cStr (front ++ back) = cStr front := by
  induction front with
  | nil => cases nul
  | cons c rest ih =>
      by_cases zero : c = 0
      · subst c
        rfl
      · have later : 0 ∈ rest := (List.mem_cons.mp nul).resolve_left (Ne.symm zero)
        have keeps (tail : Bytes) : cStr (c :: tail) = c :: cStr tail :=
          List.takeWhile_cons_of_pos (by simpa using zero)
        rw [List.cons_append, keeps, keeps, ih later]

theorem walk_slash_cons (rooted : Bool) (place : Place Bytes) (back : Bytes) :
    Place.walk rooted place (segments (47 :: back)) = Place.walk rooted place (segments back) := by
  have split := segments_slash [] back
  rw [List.nil_append] at split
  rw [split, segments_nil]
  rfl

theorem walk_slash_end (rooted : Bool) (place : Place Bytes) (front : Bytes) :
    Place.walk rooted place (segments (front ++ [47])) = Place.walk rooted place (segments front) := by
  rw [segments_slash, segments_nil, Place.walk_append]
  rfl

theorem placeOf_slash {first front : Bytes} (same : rooted (front ++ 47 :: back) = rooted first)
    (start : Place.walk (rooted first) .start (segments front) = placeOf first) :
    placeOf (front ++ 47 :: back) = Place.walk (rooted first) (placeOf first) (segments back) := by
  rw [placeOf, same, segments_slash, Place.walk_append, start]

theorem combineTwoPath_place {first second : Bytes} (nonempty : first ≠ []) (noNul : 0 ∉ first)
    (some : second ≠ []) :
    rooted (cStr (combineTwoPath first second)) = rooted first ∧
      placeOf (cStr (combineTwoPath first second)) =
        Place.walk (rooted first) (placeOf first) (segments (cStr second)) := by
  rw [combineTwoPath, if_neg nonempty, if_neg some]
  by_cases endSlash : first.getLast? = .some 47
  · obtain ⟨front, rfl⟩ := List.getLast?_eq_some_iff.mp endSlash
    have start : Place.walk (rooted (front ++ [47])) .start (segments front) =
        placeOf (front ++ [47]) := (walk_slash_end _ _ front).symm
    by_cases startSlash : second.head? = .some 47
    · obtain ⟨back, rfl⟩ := List.head?_eq_some_iff.mp startSlash
      have same := rooted_append nonempty (cStr back)
      rw [if_pos ⟨endSlash, startSlash⟩, List.drop_succ_cons, List.drop_zero,
        cStr_append_of_no_nul noNul]
      have keeps : cStr (47 :: back) = 47 :: cStr back := rfl
      rw [keeps, walk_slash_cons]
      refine ⟨same, ?_⟩
      rw [List.append_assoc] at same ⊢
      exact placeOf_slash same start
    · have same := rooted_append nonempty (cStr second)
      rw [if_neg fun both => startSlash both.2, if_neg fun neither => neither.1 endSlash,
        cStr_append_of_no_nul noNul]
      refine ⟨same, ?_⟩
      rw [List.append_assoc] at same ⊢
      exact placeOf_slash same start
  · by_cases startSlash : second.head? = .some 47
    · obtain ⟨back, rfl⟩ := List.head?_eq_some_iff.mp startSlash
      have same := rooted_append nonempty (47 :: cStr back)
      rw [if_neg fun both => endSlash both.1, if_neg fun neither => neither.2 startSlash,
        cStr_append_of_no_nul noNul]
      have keeps : cStr (47 :: back) = 47 :: cStr back := rfl
      rw [keeps, walk_slash_cons]
      exact ⟨same, placeOf_slash same rfl⟩
    · have same := rooted_append nonempty (47 :: cStr second)
      have slash : cStr (first ++ bytes "/" ++ second) = first ++ 47 :: cStr second := by
        rw [List.append_assoc, cStr_append_of_no_nul noNul]
        rfl
      rw [if_neg fun both => endSlash both.1, if_pos ⟨endSlash, startSlash⟩, slash]
      exact ⟨same, placeOf_slash same rfl⟩

/-- The file `root_handler` and `static_file_handler` name for a path. -/
def fileOf (path : Bytes) : Bytes :=
  if path.getLast? = some 47 then path ++ bytes "index.html" else path

/-- When the file of a path lies in the document root: when the path, resolved by itself,
does not climb above its start, or goes down again the way it climbed.  Two roots
are special: the empty one, which an absolute path replaces, and one with a NUL,
which hides the path from `open`. -/
def Confined (docRoot path : Bytes) : Prop :=
  0 ∈ docRoot ∨
    let move := Place.walk false .start (segments (cStr (fileOf path)))
    let root := placeOf docRoot
    (docRoot = [] → path.head? ≠ some 47) ∧
      (rooted docRoot = true ∨ move.ups ≤ root.names.length) ∧
      root.names.drop (root.names.length - move.ups) <+: move.names

namespace UserConn

variable {order : HashOrder Bytes Bytes} {server : Server} {conn : UserConn} {event : OutEvent}
  {req : HttpRequest}

theorem routePath_unrouted (good : req.isBadReq = false) (unrouted : server.router req.path = none) :
    (routePath order server req).body = fileOf req.path ∧
      (routePath order server req).bodyIsFile = true := by
  have notBad : ¬ req.isBadReq = true := by simp [good]
  rw [routePath, if_neg notBad, unrouted, fileOf]
  dsimp only
  split
  · exact HttpResponse.setBodyFile_body _ _ _
  · exact HttpResponse.setBodyFile_body _ _ _

theorem rooted_cStr_fileOf (path : Bytes) : rooted (cStr (fileOf path)) = rooted path := by
  cases path with
  | nil => decide
  | cons c rest =>
      have first : ∃ more, fileOf (c :: rest) = c :: more := by
        unfold fileOf
        split
        · exact ⟨_, rfl⟩
        · exact ⟨_, rfl⟩
      obtain ⟨more, shape⟩ := first
      rw [shape]
      by_cases zero : c = 0
      · subst c
        rfl
      · rw [cStr, List.takeWhile_cons_of_pos (by simpa using zero)]
        rfl

/-- Without a document root the path is opened as it is. -/
theorem fileOf_inside_empty_iff (path : Bytes) :
    InsideDir [] (cStr (combineTwoPath [] (fileOf path))) ↔
      (([] : Bytes) = [] → path.head? ≠ some 47) ∧
        (rooted [] = true ∨ (Place.walk false .start (segments (cStr (fileOf path)))).ups ≤
          (placeOf []).names.length) ∧
        (placeOf []).names.drop ((placeOf []).names.length -
          (Place.walk false .start (segments (cStr (fileOf path)))).ups) <+:
          (Place.walk false .start (segments (cStr (fileOf path)))).names := by
  have base : placeOf [] = .start := by decide
  have nothing (count : Nat) (names : List Bytes) :
      (Place.start : Place Bytes).names.drop count <+: names := by
    rw [Place.start, List.drop_nil]
    exact List.nil_prefix
  have same : combineTwoPath [] (fileOf path) = fileOf path := if_pos rfl
  rw [same, InsideDir, rooted_cStr_fileOf, base]
  by_cases absolute : path.head? = some 47
  · simp [rooted, absolute]
  · have relative : rooted (cStr (fileOf path)) = false := by
      rw [rooted_cStr_fileOf]
      simpa [rooted] using absolute
    have place : placeOf (cStr (fileOf path)) =
        Place.walk false .start (segments (cStr (fileOf path))) := by rw [placeOf, relative]
    have free : rooted path = rooted [] := by rw [← rooted_cStr_fileOf, relative, rooted]; rfl
    rw [place]
    generalize Place.walk false .start (segments (cStr (fileOf path))) = move
    constructor
    · intro held
      obtain ⟨-, ups, -⟩ := held
      exact ⟨fun _ => absolute, .inr (Nat.le_of_eq ups), nothing _ _⟩
    · intro held
      rcases held with ⟨-, unrooted | ups, -⟩
      · exact absurd unrooted (by decide)
      · exact ⟨free, Nat.le_zero.mp ups, List.nil_prefix⟩

theorem fileName_inside_iff (good : req.isBadReq = false) (unrouted : server.router req.path = none) :
    InsideDir (cStr server.docRoot) (fileName order server req) ↔
      Confined server.docRoot req.path := by
  rw [fileName, (routePath_unrouted good unrouted).1]
  by_cases nul : 0 ∈ server.docRoot
  · refine iff_of_true ?_ (.inl nul)
    have nonempty : server.docRoot ≠ [] := List.ne_nil_of_mem nul
    have hidden : cStr (combineTwoPath server.docRoot (fileOf req.path)) = cStr server.docRoot := by
      unfold combineTwoPath
      rw [if_neg nonempty]
      split
      · rfl
      · split
        · exact cStr_append_of_nul nul _
        · split
          · rw [List.append_assoc, cStr_append_of_nul nul]
          · exact cStr_append_of_nul nul _
    rw [hidden]
    exact insideDir_refl _
  · have whole : cStr server.docRoot = server.docRoot :=
      cStr_eq_self_iff.mpr nul
    rw [whole, Confined, or_iff_right nul]
    by_cases empty : server.docRoot = []
    · rw [empty]
      exact fileOf_inside_empty_iff req.path
    · by_cases bare : fileOf req.path = []
      · have same : cStr (combineTwoPath server.docRoot (fileOf req.path)) = server.docRoot := by
          rw [combineTwoPath, if_neg empty, if_pos bare, whole]
        rw [same, bare]
        refine iff_of_true (insideDir_refl _) ⟨fun none => absurd none empty, .inr (Nat.zero_le _), ?_⟩
        have stays : (Place.walk false .start (segments (cStr []))).ups = 0 := by decide
        rw [stays, Nat.sub_zero, List.drop_length]
        exact List.nil_prefix
      · obtain ⟨sameRoot, place⟩ := combineTwoPath_place empty nul bare
        rw [InsideDir, place, Place.walk_eq_follow, Place.inside_follow_iff]
        simp [sameRoot, empty]

/-- The file that is opened for an unrouted request lies in the document root exactly
when the path is confined. -/
theorem processOut_opens_inside_iff {result : OutResult} {name : Bytes}
    (good : conn.req.isBadReq = false) (unrouted : server.router conn.req.path = none)
    (ran : conn.processOut order server event = .ok result) (opened : result.opened = some name) :
    InsideDir (cStr server.docRoot) name ↔ Confined server.docRoot conn.req.path := by
  rw [prepare_opened ((processOut_prepared ran).1.symm.trans opened)]
  exact fileName_inside_iff good unrouted

/-- A server whose document root is `/www`, with no routes. -/
def wwwServer : Server := .builtin (.front Bytes Bytes) (bytes "/www") fun _ => none

/-- The bytes of one request parsed on a fresh connection, and the answer sent. -/
def answer (text : Bytes) : Except Fault (HttpRequest × OutResult) := do
  let (req, _, _) ← HttpRequest.fresh.parse .clear text 0
  let result ← { fresh (.front Bytes Bytes) with req }.processOut (.front Bytes Bytes) wwwServer
    ⟨fun _ => .error .enoent, [], fun _ _ => 0⟩
  return (req, result)

def climbText : Bytes := bytes "GET /../../etc/passwd HTTP/1.1\r\n\r\n"

/-- A request that is accepted as good and opens a file above the root. -/
theorem climbs_out :
    ∃ req result, answer climbText = .ok (req, result) ∧
      req.parseComplete = true ∧ req.isBadReq = false ∧ wwwServer.router req.path = none ∧
      result.opened = some (bytes "/www/../../etc/passwd") ∧
      ¬ InsideDir (cStr wwwServer.docRoot) (bytes "/www/../../etc/passwd") := by
  have outcome : (answer climbText).toOption.map (fun both =>
      (both.1.parseComplete, both.1.isBadReq, both.2.opened)) =
      some (true, false, some (bytes "/www/../../etc/passwd")) := by decide +kernel
  obtain ⟨⟨req, result⟩, ran, read⟩ := ok_of_map outcome
  simp only [Prod.mk.injEq] at read
  exact ⟨req, result, ran, read.1, read.2.1, rfl, read.2.2, by decide +kernel⟩

/-- A request whose path climbs within itself only. -/
def stayReq : HttpRequest :=
  { HttpRequest.fresh with state := .parseSuccess, method := .get, path := bytes "/a/../b.html" }

def stayRun : Except Fault OutResult :=
  { fresh (.front Bytes Bytes) with req := stayReq }.processOut (.front Bytes Bytes) wwwServer
    ⟨fun _ => .error .enoent, [], fun _ _ => 0⟩

theorem processOut_opens_inside_stay :
    ∃ result, stayRun = .ok result ∧
      (InsideDir (cStr wwwServer.docRoot) (bytes "/www/a/../b.html") ↔
        Confined wwwServer.docRoot (bytes "/a/../b.html")) := by
  have outcome : stayRun.toOption.map OutResult.opened = some (some (bytes "/www/a/../b.html")) := by
    decide +kernel
  obtain ⟨result, ran, opened⟩ := ok_of_map outcome
  exact ⟨result, ran, @processOut_opens_inside_iff (.front Bytes Bytes) wwwServer
    { fresh (.front Bytes Bytes) with req := stayReq } _ _ _ rfl rfl ran opened⟩

end UserConn

end LiteWebServer
