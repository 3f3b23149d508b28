/-! # Request identifiers
A request is identified by a 128-bit number, written as 32 lowercase hexadecimal digits in groups of
8, 4, 4, 4 and 12. -/

namespace WikiMount

structure RequestId where
  value : BitVec 128
deriving DecidableEq

namespace RequestId

/-- The lowest `count` hexadecimal digits of a number, the most significant first. -/
def hexDigits (n : Nat) : Nat → List Char
  | 0 => []
  | count + 1 => hexDigits (n / 16) count ++ [Nat.digitChar (n % 16)]

/-- The digits in groups with a hyphen between two of them. -/
def uuid (id : RequestId) : String :=
  let digits := hexDigits id.value.toNat 32
  let group (start length : Nat) := (digits.drop start).take length
  String.ofList (List.intercalate ['-']
    [group 0 8, group 8 4, group 12 4, group 16 4, group 20 12])

def label (id : RequestId) : String := "Request(" ++ id.uuid ++ ")"

end RequestId

end WikiMount
