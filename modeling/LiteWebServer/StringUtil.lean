import LiteWebServer.Data.UnorderedMap
import LiteWebServer.Std

namespace LiteWebServer

open Data

abbrev StringMap := UnorderedMap Bytes Bytes

/-- The pieces of `str` from `startPos` on; the fuel bounds the number of turns. -/
def strSplitLoop : Nat → Bytes → Bytes → Nat → List Bytes → Except Fault (List Bytes)
  | 0, _, _, _, _ => .error .endless
  | fuel + 1, str, delim, startPos, ret =>
      match findFrom delim str startPos with
      | none => do
          let last ← substrFrom str startPos
          return ret ++ [last]
      | some pos => do
          let piece ← substr str startPos (pos - startPos)
          strSplitLoop fuel str delim (pos + delim.length) (ret ++ [piece])

def strSplit (str delim : Bytes) : Except Fault (List Bytes) :=
  strSplitLoop (str.length + 1) str delim 0 []

/-- `none` is the `false` return, which leaves the destination alone. -/
def strGetFirstToken (src delim : Bytes) (startPos : Nat) : Except Fault (Option Bytes) :=
  match findFrom delim src startPos with
  | none => .ok none
  | some pos => do
      let token ← substr src startPos (pos - startPos)
      return some token

def strGetKeyVal (dst : StringMap) (src delim : Bytes) (startPos : Nat) :
    Except Fault (StringMap × Bool) :=
  match findFrom delim src startPos with
  | none => .ok (dst, false)
  | some pos => do
      let key ← substr src startPos (pos - startPos)
      let val ← substrFrom src (pos + delim.length)
      if key = [] then return (dst, false)
      else return (dst.emplace key val, true)

/-- The comparison of two C strings, given without their terminators. -/
def chStrIsEqual : Bytes → Bytes → Bool
  | c₁ :: str₁, c₂ :: str₂ => if c₁ ≠ c₂ then false else chStrIsEqual str₁ str₂
  | [], [] => true
  | _, _ => false

/-- `str_to_inum(ret, str, fn)`: the converted number, or `none` for the `false`
return, and `errno` afterwards. -/
def strToInum (fn : Errno → Bytes → Nat × Nat × Errno) (errno : Errno) (str : Bytes) :
    Option Nat × Errno :=
  let text := cStr str
  let (ret, endPtr, errno) := fn errno text
  if endPtr ≠ text.length then (none, errno)
  else if errno = .erange then (none, errno)
  else (some ret, errno)

theorem strToInum_decimal {value : Nat} {errno : Errno} (small : value < 2 ^ 64)
    (clean : errno ≠ .erange) : strToInum strtoul errno (decimal value) = (some value, errno) := by
  simp [strToInum, cStr_decimal, strtoul_decimal small, clean]

/-- `::tolower` in the C locale. -/
def toLower (c : UInt8) : UInt8 := if 65 ≤ c ∧ c ≤ 90 then c + 32 else c

def strToLower (str : Bytes) : Bytes := str.map toLower

end LiteWebServer
