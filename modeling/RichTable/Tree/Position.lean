/-!
# Positions and segments

A position lies between two symbols of a document and leans to one of its sides. A segment is a pair
of positions; `Segment.between` puts them in order.
-/

namespace RichTable

/-- The side that a position leans to. -/
inductive Direction where
  | backward
  | forward
deriving Repr, DecidableEq, Inhabited

namespace Direction

/-- The other side. -/
def reverse : Direction → Direction
  | backward => forward
  | forward => backward

@[simp]
theorem reverse_reverse (s : Direction) : s.reverse.reverse = s := by cases s <;> rfl

end Direction

/-- The places next to the start and the end of an element. -/
inductive Edge where
  | beforeStart
  | afterStart
  | beforeEnd
  | afterEnd
deriving Repr, DecidableEq, Inhabited

/-- A place between two symbols. -/
structure Position where
  offset : Nat
  direction : Direction
deriving Repr, DecidableEq, Inhabited

/-- The order of two positions in a document. The side that they lean to does not count. -/
def Position.order (a b : Position) : Ordering := compare a.offset b.offset

/-- Two positions, in order unless said otherwise. -/
structure Segment where
  start : Position
  stop : Position
deriving Repr, DecidableEq, Inhabited

namespace Segment

/-- The segment between two positions given in any order. -/
def between (a b : Position) : Segment := if a.offset ≤ b.offset then ⟨a, b⟩ else ⟨b, a⟩

/-- The segment that starts and ends at `p`. -/
def collapsed (p : Position) : Segment := ⟨p, p⟩

/-- Whether nothing lies between the ends. -/
def isEmpty (s : Segment) : Bool := s.start.offset == s.stop.offset

/-- Whether `p` lies between the ends, the ends included. -/
def contains (s : Segment) (p : Position) : Bool :=
  s.start.offset ≤ p.offset && p.offset ≤ s.stop.offset

theorem start_le_stop (a b : Position) :
    (between a b).start.offset ≤ (between a b).stop.offset := by
  unfold between
  split
  · assumption
  · next h => exact Nat.le_of_lt (Nat.lt_of_not_le h)

end Segment

end RichTable
