/-!
# Padded strings

Strings of a fixed width are filled up with NUL bytes. The order of two strings
does not depend on the widths they are stored at.
-/

namespace Lanewise.Text

/-- The bytes at a fixed width: cut off at its end, or filled up with NUL. -/
def padded (width : Nat) (bytes : List UInt8) : Vector UInt8 width :=
  let bytes := bytes.toArray
  Vector.ofFn fun i => bytes.getD i 0

/-- Order of a string relative to the empty one: what is left to compare are
its bytes with NUL. -/
def compareEmpty : List UInt8 → Ordering
  | [] => .eq
  | x :: xs => (compare x 0).then (compareEmpty xs)

/-- Lexicographic order by unsigned bytes, as if the shorter string were filled
up with NUL. -/
def comparePadded : List UInt8 → List UInt8 → Ordering
  | [], ys => (compareEmpty ys).swap
  | xs, [] => compareEmpty xs
  | x :: xs, y :: ys => (compare x y).then (comparePadded xs ys)

/-- The bytes without the NULs at their end. -/
def trimPadding (bytes : List UInt8) : List UInt8 :=
  (bytes.reverse.dropWhile (· == 0)).reverse

theorem getElem_padded {width : Nat} {bytes : List UInt8} {i : Nat} (h : i < width) :
    (padded width bytes)[i] = bytes.getD i 0 := by
  simp [padded]

end Lanewise.Text
