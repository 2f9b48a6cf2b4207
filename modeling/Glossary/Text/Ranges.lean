/-!
Sets of code points as lists of closed ranges.
-/

namespace Glossary.Text

def inRanges (ranges : List (Nat × Nat)) (n : Nat) : Bool :=
  ranges.any fun range => range.1 ≤ n && n ≤ range.2

end Glossary.Text
