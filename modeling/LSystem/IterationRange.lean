/-!
# Ranges of iteration counts

The counts that a host offers. A range whose lower end is above its upper end contains no count.
-/

namespace LSystem

/-- The counts from `min` to `max`, both included. -/
structure IterationRange where
  min : UInt32
  max : UInt32
deriving DecidableEq

namespace IterationRange

instance : Inhabited IterationRange := ⟨1, 6⟩

/-- The count with the lower end applied first and the upper end last: in a range with counts, the
nearest of them. -/
def clamp (range : IterationRange) (count : UInt32) : UInt32 :=
  let raised := if count < range.min then range.min else count
  if range.max < raised then range.max else raised

def contains (range : IterationRange) (count : UInt32) : Bool :=
  range.min ≤ count && count ≤ range.max

def render (range : IterationRange) : String := s!"{range.min.toNat}..={range.max.toNat}"

end IterationRange

end LSystem
