/-!
Well-formed UTF-8.

`fault?` finds the first place where a sequence of bytes stops being UTF-8: how many bytes before
it are well formed, and how long the ill-formed sequence is, or that the bytes ended too early.
-/

namespace GridStencil.Text

/-- Why a sequence of bytes is not UTF-8. -/
inductive Utf8Fault
  /-- `count` bytes from byte `index` on start no character. -/
  | invalid (count index : Nat)
  /-- The bytes end inside the character that starts at byte `index`. -/
  | incomplete (index : Nat)
deriving DecidableEq

/-- A sentence that names the fault and its place. -/
def Utf8Fault.message : Utf8Fault → String
  | .invalid count index =>
    "invalid utf-8 sequence of " ++ toString count ++ " bytes from index " ++ toString index
  | .incomplete index => "incomplete utf-8 byte sequence from index " ++ toString index

/-- The bytes that may follow the first byte of a character, one range per position. -/
def followers (first : UInt8) : Option (List (UInt8 × UInt8)) :=
  if first ≤ 0x7F then some []
  else if 0xC2 ≤ first && first ≤ 0xDF then some [(0x80, 0xBF)]
  else if first = 0xE0 then some [(0xA0, 0xBF), (0x80, 0xBF)]
  else if first = 0xED then some [(0x80, 0x9F), (0x80, 0xBF)]
  else if 0xE1 ≤ first && first ≤ 0xEF then some [(0x80, 0xBF), (0x80, 0xBF)]
  else if first = 0xF0 then some [(0x90, 0xBF), (0x80, 0xBF), (0x80, 0xBF)]
  else if 0xF1 ≤ first && first ≤ 0xF3 then some [(0x80, 0xBF), (0x80, 0xBF), (0x80, 0xBF)]
  else if first = 0xF4 then some [(0x80, 0x8F), (0x80, 0xBF), (0x80, 0xBF)]
  else none

/-- Where the bytes after the first one of the character at `index` leave the given ranges;
`seen` bytes of the character have been accepted. -/
def followerFault? (index seen : Nat) : List (UInt8 × UInt8) → List UInt8 → Option Utf8Fault
  | [], _ => none
  | _ :: _, [] => some (.incomplete index)
  | (low, high) :: ranges, b :: bytes =>
    if low ≤ b && b ≤ high then followerFault? index (seen + 1) ranges bytes
    else some (.invalid seen index)

/-- The first fault of the bytes from byte `index` on; the first `skip` of them belong to a
character that was already checked. -/
def faultFrom? (index skip : Nat) : List UInt8 → Option Utf8Fault
  | [] => none
  | b :: bytes =>
    match skip with
    | skip + 1 => faultFrom? (index + 1) skip bytes
    | 0 =>
      match followers b with
      | none => some (.invalid 1 index)
      | some ranges =>
        match followerFault? index 1 ranges bytes with
        | some fault => some fault
        | none => faultFrom? (index + 1) ranges.length bytes

/-- The first place where `bytes` stop being UTF-8, if there is one. -/
def fault? (bytes : List UInt8) : Option Utf8Fault := faultFrom? 0 0 bytes

end GridStencil.Text
