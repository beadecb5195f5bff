import Lanewise.ElementType
import Lanewise.Number.Floating

/-!
# Values

What a lane of each element type holds while a program runs.
-/

namespace Lanewise

/-- A complex number. -/
structure Complex where
  re : Double
  im : Double
  deriving DecidableEq

/-- A value of an element type. The NUL padding of a stored string is part of
its value. -/
def ElementType.Value : ElementType → Type
  | .bool => Bool
  | .int => Int32
  | .long => Int64
  | .float => Single
  | .double => Double
  | .complex => Complex
  | .str => List UInt8

end Lanewise
