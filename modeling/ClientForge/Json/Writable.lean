-- SUMMARY: Which values can be written, which those with too long whole numbers cannot.
import ClientForge.Json.Basic
import ClientForge.Text.Digit

/-!
# Writable values

A document can hold a whole number of any size, in hexadecimal digits for instance.
It is kept, compared and passed on like any other, but it is not written if it takes
more than `Text.mostDigits` decimal digits, and neither is a value that holds it at
any depth. `Json.isWritable` tells the values that are.
-/

namespace ClientForge

/-- Whether a number has at most so many decimal digits. -/
def fitsDigits : Nat → Nat → Bool
  | 0, n => n == 0
  | digits + 1, n => decide (n < 10) || fitsDigits digits (n / 10)

def isWritableInt (n : Int) : Bool := fitsDigits Text.mostDigits n.natAbs

def Key.isWritable : Key → Bool
  | .int n => isWritableInt n
  | _ => true

namespace Json

mutual

/-- Every whole number in a value, at any depth, is short enough to be written. -/
def isWritable : Json → Bool
  | .int n => isWritableInt n
  | .arr items => areWritable items
  | .obj members => areWritableMembers members
  | _ => true

def areWritable : List Json → Bool
  | [] => true
  | v :: vs => v.isWritable && areWritable vs

def areWritableMembers : List (Key × Json) → Bool
  | [] => true
  | (k, v) :: ms => k.isWritable && v.isWritable && areWritableMembers ms

end

end Json

end ClientForge
