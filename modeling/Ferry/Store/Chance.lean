import Ferry.Store.Basic

/-!
# Allocations by chance

Names, uids and times as a store draws them where nothing else is asked for:
endings of five hexadecimal digits, and a random uid in its usual form.
-/
namespace Ferry

/-- The two hexadecimal digits of a byte. -/
def hexPair (byte : UInt8) : List Char :=
  [Nat.digitChar (byte.toNat / 16), Nat.digitChar (byte.toNat % 16)]

/-- The text of a random uid: its version is four, and the first bits of its fourth group are
fixed. -/
def uidText (bytes : List UInt8) : String :=
  let marked := bytes.mapIdx fun i byte =>
    if i = 6 then byte &&& 0x0f ||| 0x40 else if i = 8 then byte &&& 0x3f ||| 0x80 else byte
  let group (start count : Nat) : List Char := ((marked.drop start).take count).flatMap hexPair
  String.ofList (group 0 4 ++ '-' :: group 4 2 ++ '-' :: group 6 2 ++ '-' :: group 8 2 ++ '-' ::
    group 10 6)

/-- The number of digits that a store adds to the beginning of a name. -/
def endingLength : Nat := 5

def endingText (bytes : List UInt8) : String :=
  String.ofList ((bytes.flatMap hexPair).take endingLength)

namespace Allocation

/-- So many random bytes make an allocation. -/
def byteCount : Nat := 16 + 3 * nameAttempts

/-- The allocation that random bytes make at a time. -/
def ofBytes (bytes : List UInt8) (now : Timestamp) : Allocation where
  endings := (List.range nameAttempts).map fun i => endingText ((bytes.drop (16 + 3 * i)).take 3)
  uid := uidText (bytes.take 16)
  createdAt := now

end Allocation

end Ferry
