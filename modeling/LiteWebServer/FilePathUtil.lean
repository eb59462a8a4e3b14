import LiteWebServer.Std

namespace LiteWebServer

def rfind (c : UInt8) (text : Bytes) : Option Nat :=
  if c ∈ text then some (text.length - 1 - text.reverse.idxOf c) else none

/-- The extension from the last dot on, or nothing. -/
def getFileExtension (filePath : Bytes) : Bytes :=
  match rfind 46 filePath with
  | some pos => filePath.drop pos
  | none => []

/-- `combine_two_path` joins with exactly one slash at the seam, unless both sides
already bring several. -/
def combineTwoPath (first second : Bytes) : Bytes :=
  if first = [] then second
  else if second = [] then first
  else if first.getLast? = some 47 ∧ second.head? = some 47 then first ++ second.drop 1
  else if first.getLast? ≠ some 47 ∧ second.head? ≠ some 47 then first ++ bytes "/" ++ second
  else first ++ second

end LiteWebServer
