import Mathlib.Data.List.AList

namespace LiteWebServer.Data

/-! Hash maps as finite association lists in iteration order.  Which place a new
key gets in that order is left open by the standard library; `HashOrder` is
the choice a concrete table makes. -/

abbrev UnorderedMap (κ ν : Type) := AList (fun _ : κ => ν)

/-- The iteration order after a new entry went into a table.  A rehash may move
the other entries as well, so only the contents are fixed. -/
structure HashOrder (κ ν : Type) where
  place : List (Sigma fun _ : κ => ν) → (Sigma fun _ : κ => ν) → List (Sigma fun _ : κ => ν)
  perm : ∀ entries entry, (place entries entry).Perm (entry :: entries)

def HashOrder.front (κ ν : Type) : HashOrder κ ν where
  place entries entry := entry :: entries
  perm _ _ := .refl _

namespace UnorderedMap

variable {κ ν : Type} [DecidableEq κ]

/-- `emplace` leaves an existing entry alone. -/
def emplace (map : UnorderedMap κ ν) (key : κ) (value : ν) : UnorderedMap κ ν :=
  if key ∈ map then map else map.insert key value

/-- `map[key] = value`. -/
def assign (order : HashOrder κ ν) (map : UnorderedMap κ ν) (key : κ) (value : ν) :
    UnorderedMap κ ν :=
  if present : key ∈ map then map.replace key value
  else ⟨order.place map.entries ⟨key, value⟩, by
    refine (List.perm_nodupKeys (order.perm _ _)).mpr (List.nodupKeys_cons.mpr ⟨?_, map.nodupKeys⟩)
    exact fun member => present (AList.mem_keys.mpr member)⟩

theorem dlookup_kreplace (entries : List (Sigma fun _ : κ => ν)) {key : κ} (value : ν)
    (present : key ∈ entries.keys) (other : κ) :
    (entries.kreplace key value).dlookup other =
      if other = key then some value else entries.dlookup other := by
  induction entries with
  | nil => simp at present
  | cons entry rest ih =>
      obtain ⟨first, old⟩ := entry
      by_cases here : key = first
      · subst first
        have replaced : List.kreplace key value (⟨key, old⟩ :: rest) = ⟨key, value⟩ :: rest :=
          List.lookmap_cons_some _ _ (if_pos rfl)
        rw [replaced]
        by_cases same : other = key
        · subst other
          simp
        · rw [List.dlookup_cons_ne _ _ same, List.dlookup_cons_ne _ _ same, if_neg same]
      · have skipped : List.kreplace key value (⟨first, old⟩ :: rest) =
            ⟨first, old⟩ :: rest.kreplace key value :=
          List.lookmap_cons_none _ _ (if_neg here)
        rw [skipped]
        by_cases same : other = first
        · subst other
          simp [Ne.symm here]
        · rw [List.dlookup_cons_ne _ _ same, List.dlookup_cons_ne _ _ same]
          exact ih (by simpa [here] using present)

theorem lookup_replace (map : UnorderedMap κ ν) (key other : κ) (value : ν) :
    (map.replace key value).lookup other =
      if other = key ∧ key ∈ map then some value else map.lookup other := by
  by_cases present : key ∈ map
  · have replaced := dlookup_kreplace map.entries value (AList.mem_keys.mp present) other
    simp only [present, and_true]
    exact replaced
  · rw [if_neg fun both => present both.2]
    have same : List.kreplace key value map.entries = map.entries :=
      @List.kreplace_of_forall_not κ (fun _ => ν) _ key value _ fun held member =>
        present (AList.mem_keys.mpr (List.mem_keys_of_mem member))
    exact congrArg (List.dlookup other) same

theorem lookup_assign (order : HashOrder κ ν) (map : UnorderedMap κ ν) (key other : κ) (value : ν) :
    (assign order map key value).lookup other =
      if other = key then some value else map.lookup other := by
  unfold assign
  split
  · rename_i present
    exact dlookup_kreplace map.entries value (AList.mem_keys.mp present) other
  · rename_i absent
    have placed : (order.place map.entries ⟨key, value⟩).Perm (map.insert key value).entries := by
      rw [AList.entries_insert_of_notMem absent]
      exact order.perm _ _
    refine (AList.perm_lookup placed).trans ?_
    by_cases same : other = key
    · subst other
      rw [AList.lookup_insert, if_pos rfl]
    · rw [AList.lookup_insert_ne same, if_neg same]

theorem assign_same (order : HashOrder κ ν) {map : UnorderedMap κ ν} {key : κ} {value : ν}
    (found : map.lookup key = some value) : assign order map key value = map := by
  have present : key ∈ map := AList.lookup_isSome.mp (by rw [found]; rfl)
  unfold assign
  rw [dif_pos present]
  apply AList.ext
  exact List.kreplace_self map.nodupKeys (AList.mem_lookup_iff.mp found)

theorem lookup_emplace (map : UnorderedMap κ ν) (key other : κ) (value : ν) :
    (emplace map key value).lookup other =
      (map.lookup other).or (if other = key then some value else none) := by
  by_cases present : key ∈ map
  · rw [emplace, if_pos present]
    by_cases same : other = key
    · subst other
      obtain ⟨found, lookup⟩ := Option.isSome_iff_exists.mp (AList.lookup_isSome.mpr present)
      simp [lookup]
    · simp [same]
  · rw [emplace, if_neg present]
    by_cases same : other = key
    · subst other
      simp [AList.lookup_eq_none.mpr present]
    · simp [AList.lookup_insert_ne same, same]

def emplaceAll (map : UnorderedMap κ ν) (entries : List (κ × ν)) : UnorderedMap κ ν :=
  entries.foldl (fun map entry => emplace map entry.1 entry.2) map

@[simp] theorem emplaceAll_nil (map : UnorderedMap κ ν) : emplaceAll map [] = map := rfl

@[simp] theorem emplaceAll_cons (map : UnorderedMap κ ν) (entry : κ × ν) (entries : List (κ × ν)) :
    emplaceAll map (entry :: entries) = emplaceAll (emplace map entry.1 entry.2) entries := rfl

/-- The first occurrence of a key wins, and an entry that was there before wins
over all of them. -/
theorem lookup_emplaceAll [BEq κ] [LawfulBEq κ] (map : UnorderedMap κ ν) (entries : List (κ × ν))
    (key : κ) :
    (emplaceAll map entries).lookup key = (map.lookup key).or (entries.lookup key) := by
  induction entries generalizing map with
  | nil => simp
  | cons entry rest ih =>
      obtain ⟨first, value⟩ := entry
      rw [emplaceAll_cons, ih, lookup_emplace, Option.or_assoc]
      by_cases same : key = first
      · simp [same]
      · rw [List.lookup_cons, beq_eq_false_iff_ne.mpr same, if_neg same, Option.none_or]

theorem lookup_emplaceAll_empty [BEq κ] [LawfulBEq κ] (entries : List (κ × ν)) (key : κ) :
    (emplaceAll ∅ entries).lookup key = entries.lookup key := by
  rw [lookup_emplaceAll, AList.lookup_empty, Option.none_or]

end UnorderedMap

end LiteWebServer.Data
