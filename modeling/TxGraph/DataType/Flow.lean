import TxGraph.DataType.Basic

/-!
# Which values flow into which ports

A number flows into any integer and is then narrowed to its width; object tags are never compared;
wildcards flow anywhere and take anything.
-/

namespace TxGraph.DataType

mutual

/-- Whether a value of the first type may enter a port of the second. -/
def flowsInto : DataType → DataType → Bool
  | unknown, _ => true
  | typeParam _, _ => true
  | _, unknown => true
  | _, typeParam _ => true
  | scalar .number, integer _ => true
  | vector src, vector dst => flowsInto src dst
  | object _, object _ => true
  | tuple srcs, tuple dsts => flowAll srcs dsts
  | src, dst => src == dst

def flowAll : List DataType → List DataType → Bool
  | [], [] => true
  | src :: srcs, dst :: dsts => flowsInto src dst && flowAll srcs dsts
  | _, _ => false

end

/-- The width to which a number is narrowed on its way into the second type. -/
def castInto? : DataType → DataType → Option Width
  | scalar .number, integer width => some width
  | vector src, vector dst => castInto? src dst
  | _, _ => none

end TxGraph.DataType
