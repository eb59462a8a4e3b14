import Mathlib.Data.List.TakeWhile
import Mathlib.Data.Nat.Digits.Defs
import LiteWebServer.Data.Search

namespace LiteWebServer

open Data

/-! What the code takes from the C and C++ standard libraries: byte strings, the
fixed-width counters, `errno` and `strtoul`. -/

abbrev Bytes := List UInt8

/-- The bytes of an ASCII literal. -/
def bytes (text : String) : Bytes := text.toList.map fun c => UInt8.ofNat c.toNat

def crlf : Bytes := bytes "\r\n"

/-- Why a call has no result: an exception, a loop that never ends, or an access
outside the object it goes to. -/
inductive Fault where
  | outOfRange
  | endless
  | wildRead
deriving DecidableEq, Repr

theorem bind_eq_ok {action : Except Fault α} {next : α → Except Fault β} {result : β} :
    (action >>= next) = .ok result ↔ ∃ middle, action = .ok middle ∧ next middle = .ok result := by
  cases action <;> simp [bind, Except.bind]

/-- A call whose result reads `value` has one. -/
theorem ok_of_map {result : Except Fault α} {read : α → β} {value : β}
    (outcome : result.toOption.map read = some value) :
    ∃ found, result = .ok found ∧ read found = value := by
  cases result with
  | error fault => cases outcome
  | ok found => exact ⟨found, rfl, Option.some.inj outcome⟩

/-- The values of `errno` that the code distinguishes. -/
inductive Errno where
  | clear
  | erange
  | enoent
  | other (code : Nat)
deriving DecidableEq, Repr

def u32 (value : Nat) : Nat := value % 2 ^ 32

/-- Subtraction of two `size_t` (or `unsigned long`) values, which wraps. -/
def sizeSub (left right : Nat) : Nat :=
  if right ≤ left then left - right else left + 2 ^ 64 - right

theorem u32_lt (value : Nat) : u32 value < 2 ^ 32 := Nat.mod_lt _ (Nat.two_pow_pos 32)

theorem u32_of_lt {value : Nat} (small : value < 2 ^ 32) : u32 value = value :=
  Nat.mod_eq_of_lt small

theorem sizeSub_of_le {left right : Nat} (ordered : right ≤ left) :
    sizeSub left right = left - right := if_pos ordered

def substr (text : Bytes) (pos count : Nat) : Except Fault Bytes :=
  if pos ≤ text.length then .ok ((text.drop pos).take count) else .error .outOfRange

def substrFrom (text : Bytes) (pos : Nat) : Except Fault Bytes :=
  if pos ≤ text.length then .ok (text.drop pos) else .error .outOfRange

theorem substr_found {text : Bytes} {pos k : Nat} (inside : pos ≤ text.length) :
    substr text pos (k + pos - pos) = .ok ((text.drop pos).take k) := by
  rw [substr, if_pos inside, Nat.add_sub_cancel]

theorem substrFrom_of_le {text : Bytes} {pos : Nat} (inside : pos ≤ text.length) :
    substrFrom text pos = .ok (text.drop pos) := if_pos inside

/-- The characters a C function sees through `text.c_str()`. -/
def cStr (text : Bytes) : Bytes := text.takeWhile (· ≠ 0)

/-- `std::to_string` of an unsigned number. -/
def decimal (value : Nat) : Bytes :=
  if value = 0 then bytes "0"
  else (Nat.digits 10 value).reverse.map fun digit => UInt8.ofNat (48 + digit)

def isSpace (c : UInt8) : Bool := c = 32 || (9 ≤ c && c ≤ 13)

def isDigit (c : UInt8) : Bool := 48 ≤ c && c ≤ 57

def decimalValue (digits : Bytes) : Nat :=
  digits.foldl (fun value digit => value * 10 + (digit.toNat - 48)) 0

/-- The optional sign in front of the digits: whether it negates, and its width. -/
def strtoulSign : Bytes → Bool × Nat
  | c :: _ => if c = 45 then (true, 1) else if c = 43 then (false, 1) else (false, 0)
  | [] => (false, 0)

/-- `strtoul(text, &end, 10)`: the value, the index `end` points to, and `errno`
afterwards.  Without digits nothing is consumed; a number too large gives
`ULONG_MAX` and `ERANGE`; a minus sign negates modulo `2 ^ 64`. -/
def strtoul (errno : Errno) (text : Bytes) : Nat × Nat × Errno :=
  let blank := (text.takeWhile isSpace).length
  let sign := strtoulSign (text.drop blank)
  let digits := (text.drop (blank + sign.2)).takeWhile isDigit
  if digits = [] then (0, 0, errno)
  else
    let value := decimalValue digits
    let endPtr := blank + sign.2 + digits.length
    if 2 ^ 64 ≤ value then (2 ^ 64 - 1, endPtr, .erange)
    else if sign.1 then ((2 ^ 64 - value) % 2 ^ 64, endPtr, errno)
    else (value, endPtr, errno)

/-! ## `strtoul` undoes `std::to_string` -/

theorem decimalValue_append (front : Bytes) (digit : UInt8) :
    decimalValue (front ++ [digit]) = decimalValue front * 10 + (digit.toNat - 48) := by
  simp [decimalValue]

theorem digitByte_toNat {digit : Nat} (small : digit < 10) :
    (UInt8.ofNat (48 + digit)).toNat = 48 + digit := by
  rw [UInt8.toNat_ofNat']
  omega

theorem digitByte_isDigit {digit : Nat} (small : digit < 10) :
    isDigit (UInt8.ofNat (48 + digit)) = true := by
  have value := digitByte_toNat small
  simp only [isDigit, Bool.and_eq_true, decide_eq_true_eq, UInt8.le_iff_toNat_le, value]
  exact ⟨Nat.le_add_right _ _, Nat.add_le_add_left (Nat.le_of_lt_succ small) 48⟩

theorem decimalValue_digits (digits : List Nat) (small : ∀ digit ∈ digits, digit < 10) :
    decimalValue (digits.reverse.map fun digit => UInt8.ofNat (48 + digit)) =
      Nat.ofDigits 10 digits := by
  induction digits with
  | nil => rfl
  | cons digit higher ih =>
      rw [List.reverse_cons, List.map_append, List.map_singleton, decimalValue_append,
        ih fun digit member => small digit (List.mem_cons_of_mem _ member),
        digitByte_toNat (small digit List.mem_cons_self), Nat.ofDigits_cons]
      rw [Nat.add_sub_cancel_left, Nat.mul_comm, Nat.add_comm]

theorem decimalValue_decimal (value : Nat) : decimalValue (decimal value) = value := by
  unfold decimal
  split
  · rename_i zero
    rw [zero]
    rfl
  · rw [decimalValue_digits _ fun _ member => Nat.digits_lt_base (by omega) member,
      Nat.ofDigits_digits]

theorem decimal_ne_nil (value : Nat) : decimal value ≠ [] := by
  unfold decimal
  split
  · decide
  · rename_i positive
    simpa [Nat.digits_eq_nil_iff_eq_zero] using positive

theorem decimal_isDigit {value : Nat} {c : UInt8} (member : c ∈ decimal value) :
    isDigit c = true := by
  unfold decimal at member
  split at member
  · rw [List.mem_singleton.mp member]
    rfl
  · obtain ⟨digit, inside, rfl⟩ := List.mem_map.mp member
    exact digitByte_isDigit (Nat.digits_lt_base (by omega) (List.mem_reverse.mp inside))

theorem cStr_eq_self_iff {text : Bytes} : cStr text = text ↔ 0 ∉ text := by
  rw [cStr, List.takeWhile_eq_self_iff]
  constructor
  · intro nonzero member
    simpa using nonzero 0 member
  · intro clean c member
    simpa using fun zero : c = 0 => clean (zero ▸ member)

/-- A text that is read as one of these names is that name, unless it holds a `NUL`. -/
theorem mem_names_iff {names : List Bytes} {text : Bytes} (clean : ∀ name ∈ names, 0 ∉ name)
    (named : cStr text ∈ names) : text ∈ names ↔ 0 ∉ text := by
  constructor
  · exact clean text
  · intro whole
    rwa [cStr_eq_self_iff.mpr whole] at named

/-- A text is the C string it is read as, or goes on behind a `NUL`. -/
theorem cStr_split (text : Bytes) : cStr text = text ∨ ∃ rest, text = cStr text ++ 0 :: rest := by
  induction text with
  | nil => exact .inl rfl
  | cons c text ih =>
      by_cases nul : c = 0
      · exact .inr ⟨text, by simp [cStr, nul]⟩
      · have step : cStr (c :: text) = c :: cStr text := by simp [cStr, nul]
        rw [step]
        rcases ih with same | ⟨rest, split⟩
        · exact .inl (by rw [same])
        · exact .inr ⟨rest, by rw [List.cons_append, ← split]⟩

theorem cStr_decimal (value : Nat) : cStr (decimal value) = decimal value := by
  apply cStr_eq_self_iff.mpr
  intro member
  exact absurd (decimal_isDigit member) (by decide)

theorem isDigit_range {c : UInt8} (digit : isDigit c = true) : 48 ≤ c.toNat ∧ c.toNat ≤ 57 := by
  simpa [isDigit, UInt8.le_iff_toNat_le] using digit

theorem strtoul_decimal {value : Nat} (small : value < 2 ^ 64) (errno : Errno) :
    strtoul errno (decimal value) = (value, (decimal value).length, errno) := by
  have digits : (decimal value).takeWhile isDigit = decimal value :=
    List.takeWhile_eq_self_iff.mpr fun _ member => decimal_isDigit member
  obtain ⟨first, rest, shape⟩ := List.exists_cons_of_ne_nil (decimal_ne_nil value)
  have firstDigit : isDigit first = true :=
    decimal_isDigit (by rw [shape]; exact List.mem_cons_self)
  obtain ⟨low, high⟩ := isDigit_range firstDigit
  have noBlank : (decimal value).takeWhile isSpace = [] := by
    rw [shape, List.takeWhile_cons_of_neg]
    simp only [isSpace, Bool.or_eq_true, Bool.and_eq_true, decide_eq_true_eq,
      UInt8.le_iff_toNat_le, ← UInt8.toNat_inj, UInt8.reduceToNat]
    omega
  have noSign : strtoulSign (decimal value) = (false, 0) := by
    rw [shape, strtoulSign, if_neg, if_neg]
    · intro same
      subst same
      exact absurd low (by decide)
    · intro same
      subst same
      exact absurd low (by decide)
  simp only [strtoul, noBlank, List.length_nil, List.drop_zero, noSign, Nat.zero_add, digits,
    if_neg (decimal_ne_nil value), decimalValue_decimal]
  rw [if_neg (by omega), if_neg (by simp)]

end LiteWebServer
