import LiteWebServer.Http.RoundTrip

namespace LiteWebServer

open Data UnorderedMap

/-! The request target, against a reference that splits it: at the first `?`, the query
behind it at every `&`, and each piece at its first `=`. -/

/-- The pieces of the query between its `&`, without one empty last piece. -/
def queryPieces (query : Bytes) : List Bytes :=
  let cut := pieces (bytes "&") query
  if cut.2 = [] then cut.1 else cut.1 ++ [cut.2]

/-- Key and value around the first `=` of a piece, which is not its first byte. -/
structure IsPair (piece : Bytes) (pair : Bytes × Bytes) : Prop where
  cut : FirstCut (bytes "=") piece pair.1 pair.2
  key : pair.1 ≠ []

variable {query piece front back : Bytes} {pair : Bytes × Bytes}

theorem queryPieces_nil : queryPieces [] = [] := by
  simp only [queryPieces, pieces_of_free (by decide : ¬ bytes "&" <:+: []), if_true]

/-- The loop takes the pieces from the front. -/
theorem queryPieces_first (nonempty : query ≠ []) :
    queryPieces query = pieceBefore (bytes "&") query ::
      queryPieces (query.drop ((pieceBefore (bytes "&") query).length + 1)) := by
  by_cases free : ¬ bytes "&" <:+: query
  · rw [pieceBefore_alone free, List.drop_eq_nil_of_le (by omega), queryPieces_nil]
    simp only [queryPieces, pieces_of_free free, if_neg nonempty, List.nil_append]
  · obtain ⟨k, found⟩ := Option.ne_none_iff_exists'.mp (mt find?_eq_none_iff.mp free)
    have cut := find?_cut found (by decide)
    have piece : pieceBefore (bytes "&") query = query.take k := by simp only [pieceBefore, found]
    have back : query.drop ((query.take k).length + 1) = query.drop (k + (bytes "&").length) := by
      rw [List.length_take_of_le (by have := find?_bound found; omega)]
      rfl
    rw [piece, back]
    simp only [queryPieces, cut.pieces (by decide) (by decide)]
    split
    · rfl
    · rfl

theorem splitKeyVal_isPair : splitKeyVal piece (bytes "=") = some pair ↔ IsPair piece pair := by
  constructor
  · intro split
    obtain ⟨cut, key⟩ := splitKeyVal_cut (by decide) split
    exact ⟨cut, key⟩
  · intro pair
    rw [pair.cut.whole]
    exact splitKeyVal_joined (by decide) pair.key pair.cut.before

/-- The query is refused at its first bad piece; otherwise every piece is put into the map,
in the order of the query. -/
theorem addParams_pieces (param : StringMap) (nonempty : query ≠ []) :
    (∃ pairs, List.Forall₂ IsPair (queryPieces query) pairs ∧
      addParams param query = (emplaceAll param pairs, true)) ∨
    ((addParams param query).2 = false ∧ ∃ piece ∈ queryPieces query, ∀ pair, ¬ IsPair piece pair) := by
  induction param, query using addParams.induct with
  | case1 param raw bad =>
      right
      rw [addParams, bad, queryPieces_first nonempty]
      refine ⟨rfl, _, List.mem_cons_self, fun pair isPair => ?_⟩
      rw [splitKeyVal_isPair.mpr isPair] at bad
      cases bad
  | case2 param raw key val split last =>
      left
      refine ⟨[(key, val)], ?_, ?_⟩
      · rw [queryPieces_first nonempty, List.drop_eq_nil_of_le last, queryPieces_nil]
        exact .cons (splitKeyVal_isPair.mp split) .nil
      · rw [addParams, split]
        simp only [if_pos last, emplaceAll_cons, emplaceAll_nil]
  | case3 param raw key val split more ih =>
      rw [addParams, split, queryPieces_first nonempty]
      simp only [if_neg more]
      have rest : raw.drop ((pieceBefore (bytes "&") raw).length + 1) ≠ [] := by
        intro none
        exact more (List.drop_eq_nil_iff.mp none)
      rcases ih rest with ⟨pairs, read, ran⟩ | ⟨refused, piece, member, bad⟩
      · left
        exact ⟨(key, val) :: pairs, .cons (splitKeyVal_isPair.mp split) read, ran⟩
      · right
        exact ⟨refused, piece, List.mem_cons_of_mem _ member, bad⟩

theorem IsPair.of_forall₂ {parts : List Bytes} {pairs : List (Bytes × Bytes)}
    (read : List.Forall₂ IsPair parts pairs) : ∀ piece ∈ parts, ∃ pair, IsPair piece pair := by
  induction read with
  | nil => simp
  | cons isPair _ ih =>
      intro piece member
      rcases List.mem_cons.mp member with rfl | later
      · exact ⟨_, isPair⟩
      · exact ih piece later

namespace HttpRequest

/-- `parse_uri` does what the reference says, for every target and without leaving a text. -/
theorem parse_uri_reference (req : HttpRequest) (uri : Bytes) :
    ∃ next ok, { req with param := ∅ }.parseUri uri = .ok (next, ok) ∧
      (¬ bytes "?" <:+: uri →
        (ok = true ↔ uri ≠ []) ∧ (ok = true → next = { req with path := uri, param := ∅ })) ∧
      ∀ path query, FirstCut (bytes "?") uri path query →
        (ok = true ↔
          path ≠ [] ∧ query ≠ [] ∧ ∀ piece ∈ queryPieces query, ∃ pair, IsPair piece pair) ∧
        (ok = true → ∃ pairs param, List.Forall₂ IsPair (queryPieces query) pairs ∧
          next = { req with path, param } ∧ ∀ key, param.lookup key = pairs.lookup key) := by
  refine ⟨({ req with param := ∅ }.takeUri uri).1, ({ req with param := ∅ }.takeUri uri).2,
    parseUri_eq _ uri, fun plain => ?_, fun path query cut => ?_⟩
  · simp only [takeUri, find?_eq_none_iff.mpr plain]
    by_cases empty : uri = []
    · simp [empty]
    · simp [empty]
  · have front : uri.take path.length = path := by rw [cut.whole, take_joined]
    have mark : (bytes "?").length = 1 := rfl
    have back : uri.drop (path.length + 1) = query := by rw [cut.whole, drop_joined mark]
    simp only [takeUri, cut.find? (by decide : Unbordered (bytes "?")), front, back]
    by_cases noPath : path = []
    · simp [noPath]
    · by_cases noQuery : query = []
      · simp [noQuery]
      · simp only [if_neg noPath, if_neg noQuery]
        rcases addParams_pieces ∅ noQuery with ⟨pairs, read, ran⟩ | ⟨refused, piece, member, bad⟩
        · rw [ran]
          exact ⟨⟨fun _ => ⟨noPath, noQuery, IsPair.of_forall₂ read⟩, fun _ => rfl⟩,
            fun _ => ⟨pairs, _, read, rfl, lookup_emplaceAll_empty pairs⟩⟩
        · rw [refused]
          refine ⟨⟨fun wrong => absurd wrong Bool.false_ne_true, fun held => ?_⟩,
            fun wrong => absurd wrong Bool.false_ne_true⟩
          obtain ⟨pair, isPair⟩ := held.2.2 piece member
          exact absurd isPair (bad pair)

end HttpRequest

end LiteWebServer
