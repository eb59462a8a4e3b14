import LiteWebServer.Http.Ambient

namespace LiteWebServer

open Data

/-! Which texts `str_to_inum` takes for a number, against plain decimal numerals. -/

def IsNumeral (text : Bytes) : Prop := text ≠ [] ∧ ∀ c ∈ text, isDigit c = true

instance (text : Bytes) : Decidable (IsNumeral text) :=
  inferInstanceAs (Decidable (text ≠ [] ∧ ∀ c ∈ text, isDigit c = true))

/-- The whole text as `strtoul` reads it. -/
structure StrtoulText (text blank sign digits : Bytes) : Prop where
  whole : text = blank ++ (sign ++ digits)
  blank_space : ∀ c ∈ blank, isSpace c = true
  sign_cases : sign = [] ∨ sign = bytes "+" ∨ sign = bytes "-"
  numeral : IsNumeral digits

/-- The number that a sign makes of the value of the digits. -/
def signed (sign : Bytes) (value : Nat) : Nat :=
  if sign = bytes "-" then (2 ^ 64 - value) % 2 ^ 64 else value

theorem isSpace_of_isDigit {c : UInt8} (digit : isDigit c = true) : isSpace c = false := by
  obtain ⟨low, high⟩ := isDigit_range digit
  simp only [isSpace, Bool.or_eq_false_iff, Bool.and_eq_false_imp, decide_eq_true_eq,
    decide_eq_false_iff_not, UInt8.le_iff_toNat_le, ← UInt8.toNat_inj, UInt8.reduceToNat]
  omega

theorem strtoulSign_append {sign digits rest : Bytes}
    (cases : sign = [] ∨ sign = bytes "+" ∨ sign = bytes "-") (numeral : IsNumeral digits) :
    strtoulSign (sign ++ (digits ++ rest)) = (decide (sign = bytes "-"), sign.length) := by
  rcases cases with rfl | rfl | rfl
  · obtain ⟨first, more, rfl⟩ := List.exists_cons_of_ne_nil numeral.1
    obtain ⟨low, -⟩ := isDigit_range (numeral.2 first List.mem_cons_self)
    have notMinus : first ≠ 45 := fun same => by simp [same] at low
    have notPlus : first ≠ 43 := fun same => by simp [same] at low
    rw [List.nil_append, List.cons_append, strtoulSign, if_neg notMinus, if_neg notPlus]
    rfl
  · rfl
  · rfl

theorem take_strtoulSign (text : Bytes) :
    text.take (strtoulSign text).2 = [] ∨ text.take (strtoulSign text).2 = bytes "+" ∨
      text.take (strtoulSign text).2 = bytes "-" := by
  cases text with
  | nil => exact .inl rfl
  | cons c rest =>
      by_cases minus : c = 45
      · right; right
        simp [strtoulSign, minus, bytes]
      · by_cases plus : c = 43
        · right; left
          simp [strtoulSign, plus, bytes]
        · left
          simp [strtoulSign, minus, plus]

/-- What `strtoul` reads of a text: blanks, a sign, and all the digits behind them. -/
structure StrtoulFront (text blank sign digits rest : Bytes) : Prop where
  whole : text = blank ++ (sign ++ (digits ++ rest))
  blank_space : ∀ c ∈ blank, isSpace c = true
  sign_cases : sign = [] ∨ sign = bytes "+" ∨ sign = bytes "-"
  numeral : IsNumeral digits
  stops : ∀ c ∈ rest.head?, isDigit c = false

theorem StrtoulText.front {text blank sign digits : Bytes}
    (shape : StrtoulText text blank sign digits) : StrtoulFront text blank sign digits [] where
  whole := by rw [List.append_nil, shape.whole]
  blank_space := shape.blank_space
  sign_cases := shape.sign_cases
  numeral := shape.numeral
  stops c member := by cases member

theorem strtoul_front {text blank sign digits rest : Bytes}
    (shape : StrtoulFront text blank sign digits rest) (errno : Errno) :
    strtoul errno text =
      if 2 ^ 64 ≤ decimalValue digits then
        (2 ^ 64 - 1, blank.length + sign.length + digits.length, .erange)
      else (signed sign (decimalValue digits), blank.length + sign.length + digits.length, errno) := by
  have noBlank : (sign ++ (digits ++ rest)).takeWhile isSpace = [] := by
    rcases shape.sign_cases with rfl | rfl | rfl
    · obtain ⟨first, more, rfl⟩ := List.exists_cons_of_ne_nil shape.numeral.1
      have first := isSpace_of_isDigit (shape.numeral.2 first List.mem_cons_self)
      rw [List.nil_append, List.cons_append, List.takeWhile_cons_of_neg (by simp [first])]
    · rfl
    · rfl
  have blanks : text.takeWhile isSpace = blank := by
    rw [shape.whole, List.takeWhile_append_of_pos shape.blank_space, noBlank, List.append_nil]
  have behind : text.drop blank.length = sign ++ (digits ++ rest) := by rw [shape.whole, List.drop_left]
  have last : text.drop (blank.length + sign.length) = digits ++ rest := by
    rw [← List.drop_drop, behind, List.drop_left]
  have noDigit : rest.takeWhile isDigit = [] := by
    cases rest with
    | nil => rfl
    | cons c rest => rw [List.takeWhile_cons_of_neg (by simp [shape.stops c rfl])]
  have all : (digits ++ rest).takeWhile isDigit = digits := by
    rw [List.takeWhile_append_of_pos shape.numeral.2, noDigit, List.append_nil]
  simp only [strtoul, blanks, behind, strtoulSign_append shape.sign_cases shape.numeral, last, all,
    if_neg shape.numeral.1, signed, decide_eq_true_eq]
  split
  · rfl
  · split <;> rfl

/-- A text of this shape is read to its end. -/
theorem strtoul_text {text blank sign digits : Bytes} (shape : StrtoulText text blank sign digits)
    (errno : Errno) :
    strtoul errno text =
      if 2 ^ 64 ≤ decimalValue digits then (2 ^ 64 - 1, text.length, .erange)
      else (signed sign (decimalValue digits), text.length, errno) := by
  rw [strtoul_front shape.front, shape.whole, List.length_append, List.length_append, Nat.add_assoc]

/-- Where `strtoul` finds no digits it reads nothing. -/
theorem strtoul_cases (text : Bytes) :
    (∀ errno, strtoul errno text = (0, 0, errno)) ∨
      ∃ blank sign digits rest, StrtoulFront text blank sign digits rest := by
  let blank := text.takeWhile isSpace
  let behind := text.drop blank.length
  let sign := behind.take (strtoulSign behind).2
  let last := behind.drop (strtoulSign behind).2
  let digits := last.takeWhile isDigit
  by_cases none : digits = []
  · left
    intro errno
    have same : (text.drop (blank.length + (strtoulSign behind).2)).takeWhile isDigit = [] := by
      rw [← List.drop_drop]
      exact none
    simp only [strtoul]
    rw [if_pos same]
  · right
    have front : text.take blank.length = blank :=
      (List.prefix_iff_eq_take.mp (List.takeWhile_prefix _)).symm
    refine ⟨blank, sign, digits, last.dropWhile isDigit, ?_, fun c member => List.mem_takeWhile_imp member,
      take_strtoulSign behind, ⟨none, fun c member => List.mem_takeWhile_imp member⟩, ?_⟩
    · calc text = text.take blank.length ++ behind := (List.take_append_drop _ _).symm
        _ = blank ++ behind := by rw [front]
        _ = blank ++ (sign ++ (digits ++ last.dropWhile isDigit)) := by
          rw [List.takeWhile_append_dropWhile, List.take_append_drop]
    · intro c member
      have first := List.head?_dropWhile_not isDigit last
      rw [Option.mem_def.mp member] at first
      simpa using first

/-- A text that is read to its end is of this shape, or empty. -/
theorem strtoul_ends {text : Bytes} {errno : Errno} (ends : (strtoul errno text).2.1 = text.length) :
    text = [] ∨ ∃ blank sign digits, StrtoulText text blank sign digits := by
  rcases strtoul_cases text with none | ⟨blank, sign, digits, rest, shape⟩
  · left
    rw [none] at ends
    exact List.length_eq_zero_iff.mp ends.symm
  · right
    have reached : blank.length + sign.length + digits.length = text.length := by
      rw [← ends, strtoul_front shape]
      split <;> rfl
    have widths := congrArg List.length shape.whole
    simp only [List.length_append] at widths
    have nothing : rest = [] := List.length_eq_zero_iff.mp (by omega)
    refine ⟨blank, sign, digits, ?_, shape.blank_space, shape.sign_cases, shape.numeral⟩
    rw [shape.whole, nothing, List.append_nil]

theorem contentLength_empty {value : Bytes} (empty : cStr value = []) :
    contentLength value = some 0 := by
  unfold contentLength strToInum
  rw [empty]
  rfl

theorem contentLength_text {value blank sign digits : Bytes}
    (shape : StrtoulText (cStr value) blank sign digits) :
    contentLength value =
      if decimalValue digits < 2 ^ 64 then some (signed sign (decimalValue digits)) else none := by
  unfold contentLength strToInum
  dsimp only
  rw [strtoul_text shape]
  by_cases small : decimalValue digits < 2 ^ 64
  · rw [if_neg (Nat.not_le.mpr small), if_pos small]
    simp
  · rw [if_pos (Nat.not_lt.mp small), if_neg small]
    simp

/-- The text up to its first `NUL` is empty, or a numeral that fits, with blanks and a sign in
front of it or not. -/
def Convertible (value : Bytes) : Prop :=
  cStr value = [] ∨ ∃ blank sign digits, StrtoulText (cStr value) blank sign digits ∧
    decimalValue digits < 2 ^ 64

theorem contentLength_shape {value : Bytes} {len : Nat} (converted : contentLength value = some len) :
    Convertible value := by
  have ends : (strtoul .clear (cStr value)).2.1 = (cStr value).length := by
    by_contra early
    unfold contentLength strToInum at converted
    dsimp only at converted
    rw [if_pos early] at converted
    cases converted
  rcases strtoul_ends ends with empty | ⟨blank, sign, digits, shape⟩
  · exact .inl empty
  · refine .inr ⟨blank, sign, digits, shape, ?_⟩
    by_contra large
    rw [contentLength_text shape, if_neg large] at converted
    cases converted

/-- These texts are the ones that are taken for a number. -/
theorem convertible_iff {value : Bytes} : Convertible value ↔ contentLength value ≠ none := by
  constructor
  · intro convertible
    rcases convertible with empty | ⟨blank, sign, digits, shape, small⟩
    · simp [contentLength_empty empty]
    · rw [contentLength_text shape, if_pos small]
      exact Option.some_ne_none _
  · intro some
    obtain ⟨len, converted⟩ := Option.ne_none_iff_exists'.mp some
    exact contentLength_shape converted

theorem IsNumeral.strtoulText {value : Bytes} (numeral : IsNumeral value) :
    StrtoulText (cStr value) [] [] value where
  whole := cStr_eq_self_iff.mpr fun member => by simpa [isDigit] using numeral.2 0 member
  blank_space c member := by cases member
  sign_cases := .inl rfl
  numeral := numeral

/-- Nothing stands in front of the digits of a plain numeral. -/
theorem IsNumeral.digits_eq {value blank sign digits : Bytes} (numeral : IsNumeral value)
    (shape : StrtoulText (cStr value) blank sign digits) : value = digits := by
  have whole : value = blank ++ (sign ++ digits) := numeral.strtoulText.whole.symm.trans shape.whole
  have noBlank : blank = [] := by
    refine List.eq_nil_iff_forall_not_mem.mpr fun c member => ?_
    have digit := isSpace_of_isDigit (numeral.2 c (by simp [whole, member]))
    exact absurd (shape.blank_space c member) (by simp [digit])
  have noSign : sign = [] := by
    refine shape.sign_cases.resolve_right fun either => ?_
    have digit : ∀ c ∈ sign, isDigit c = true := fun c member => numeral.2 c (by simp [whole, member])
    rcases either with rfl | rfl
    · exact absurd (digit 43 (by decide)) (by decide)
    · exact absurd (digit 45 (by decide)) (by decide)
  rw [whole, noBlank, noSign, List.nil_append, List.nil_append]

/-- The text of a plain numeral in the range of `unsigned long`. -/
def FitsNumeral (value : Bytes) : Prop := IsNumeral value ∧ decimalValue value < 2 ^ 64

instance (value : Bytes) : Decidable (FitsNumeral value) :=
  inferInstanceAs (Decidable (IsNumeral value ∧ decimalValue value < 2 ^ 64))

/-- `str_to_inum` takes the numerals that fit and nothing else, for what they say. -/
def ReadsNumerals (value : Bytes) : Prop :=
  ∀ errno, errno ≠ .erange → ∀ len,
    (strToInum strtoul errno value).1 = some len ↔ FitsNumeral value ∧ len = decimalValue value

namespace HttpRequest

/-- The bad flag, completion, the body and the bytes consumed, as a call of `parse`
leaves them. -/
structure Outcome where
  isBadReq : Bool
  complete : Bool
  body : Bytes
  parsedBytes : Nat
deriving DecidableEq

def outcome (errno : Errno) (req : HttpRequest) (data : Bytes) (startIdx : Nat) :
    Except Fault Outcome := do
  let (next, parsedBytes, _) ← req.parse errno data startIdx
  return ⟨next.isBadReq, next.parseComplete, next.body, parsedBytes⟩

variable {req : HttpRequest} {data : Bytes} {startIdx : Nat}

theorem parseReqBody_errno {errno : Errno} {value : Bytes} (post : req.method = .post)
    (lookup : req.headers.lookup (bytes "Content-Length") = some value)
    (inside : startIdx < data.length) :
    req.parseReqBody errno data startIdx =
      match (strToInum strtoul errno value).1 with
      | none => .ok (req.setBadReq, 0, (strToInum strtoul errno value).2)
      | some contentLen => do
          let remainBodyLen := sizeSub contentLen req.body.length
          let remainBodyLen :=
            if data.length - startIdx < remainBodyLen then data.length - startIdx else remainBodyLen
          let chunk ← substr data startIdx remainBodyLen
          let req := { req with body := req.body ++ chunk }
          let req :=
            if req.body.length = contentLen then { req with state := .parseSuccess } else req
          return (req, u32 remainBodyLen, (strToInum strtoul errno value).2) := by
  simp only [parseReqBody, post, lookup, if_neg (Nat.not_le.mpr inside)]
  rcases strToInum strtoul errno value with ⟨converted, errno'⟩
  cases converted <;> rfl

end HttpRequest

/-- A `POST` with any other length is bad as soon as a byte of its body is there. -/
def RefusesOthers (value : Bytes) : Prop :=
  ¬ FitsNumeral value → ∀ errno, errno ≠ .erange → ∀ (req : HttpRequest) (data : Bytes) (startIdx : Nat),
    req.method = .post → req.headers.lookup (bytes "Content-Length") = some value →
      startIdx < data.length →
        ∃ after, req.parseReqBody errno data startIdx = .ok (req.setBadReq, 0, after)

/-- No plain numeral, and yet taken for a number: the C string is empty, or it is a
numeral that fits with blanks or a sign in front of it, or with a `NUL` behind it. -/
def Misread (value : Bytes) : Prop :=
  cStr value = [] ∨ ∃ blank sign digits, StrtoulText (cStr value) blank sign digits ∧
    decimalValue digits < 2 ^ 64 ∧ value ≠ digits

theorem Misread.converted {value : Bytes} (misread : Misread value) :
    ∃ len, contentLength value = some len := by
  rcases misread with empty | ⟨blank, sign, digits, shape, small, -⟩
  · exact ⟨0, contentLength_empty empty⟩
  · exact ⟨_, (contentLength_text shape).trans (if_pos small)⟩

theorem Misread.not_numeral {value : Bytes} (misread : Misread value) : ¬ IsNumeral value := by
  intro numeral
  rcases misread with empty | ⟨blank, sign, digits, shape, -, other⟩
  · exact numeral.1 (numeral.strtoulText.whole.symm.trans empty)
  · exact other (numeral.digits_eq shape)

/-- A text that is taken for a number is misread, or a numeral that fits. -/
theorem fitsNumeral_of_converted {value : Bytes} {len : Nat} (plain : ¬ Misread value)
    (converted : contentLength value = some len) : FitsNumeral value := by
  rcases contentLength_shape converted with empty | ⟨blank, sign, digits, shape, small⟩
  · exact absurd (.inl empty) plain
  · have same : value = digits := by
      by_contra other
      exact plain (.inr ⟨blank, sign, digits, shape, small, other⟩)
    rw [same]
    exact ⟨shape.numeral, small⟩

theorem FitsNumeral.contentLength {value : Bytes} (fits : FitsNumeral value) :
    contentLength value = some (decimalValue value) :=
  (contentLength_text fits.1.strtoulText).trans (if_pos fits.2)

/-- Lengths are taken as they should be exactly where they are not misread. -/
theorem reads_numerals_iff (value : Bytes) :
    ReadsNumerals value ∧ RefusesOthers value ↔ ¬ Misread value := by
  constructor
  · intro held misread
    obtain ⟨reads, -⟩ := held
    obtain ⟨len, converted⟩ := misread.converted
    exact misread.not_numeral ((reads .clear (by simp) len).mp converted).1.1
  · intro plain
    constructor
    · intro errno clean len
      rw [strToInum_of_ne_erange clean]
      constructor
      · intro converted
        have fits := fitsNumeral_of_converted plain converted
        exact ⟨fits, Option.some.inj (converted.symm.trans fits.contentLength)⟩
      · intro held
        rw [held.2]
        exact held.1.contentLength
    · intro other errno clean req data startIdx post lookup inside
      have fails : (strToInum strtoul errno value).1 = none := by
        rw [strToInum_of_ne_erange clean, Option.eq_none_iff_forall_ne_some]
        exact fun len converted => other (fitsNumeral_of_converted plain converted)
      refine ⟨(strToInum strtoul errno value).2, ?_⟩
      rw [HttpRequest.parseReqBody_errno post lookup inside, fails]

example : contentLength (bytes "-5") = some (2 ^ 64 - 5) := by decide

/-- An empty length is taken for 0, and a `POST` with it for one without a body. -/
theorem empty_length_taken :
    (strToInum strtoul .clear []).1 = some 0 ∧ ¬ ReadsNumerals [] ∧
      HttpRequest.fresh.outcome .clear (bytes "POST / HTTP/1.1\r\nContent-Length: \r\n\r\nx") 0 =
        .ok ⟨false, true, [], 37⟩ := by
  have taken : (strToInum strtoul .clear []).1 = some 0 := rfl
  exact ⟨taken, fun reads => ((reads .clear (by simp) 0).mp taken).1.1.1 rfl, by decide +kernel⟩

end LiteWebServer
