import RichTable.Format.Record
import RichTable.Tree.Position

/-!
# Positions and segments in JSON

The ends of a segment are read as they are given, in whatever order.
-/

namespace RichTable

namespace Direction

def toJson : Direction → Json
  | backward => .text "Backward"
  | forward => .text "Forward"

def ofJson? : Json → Option Direction :=
  Json.toNamed? [("Backward", backward), ("Forward", forward)] Json.isNull

end Direction

namespace Position

def toJson (p : Position) : Json :=
  .record [("offset", .nat p.offset), ("direction", p.direction.toJson)]

def ofJson? (j : Json) : Option Position := do
  let r ← Record.ofJson? ["offset", "direction"] j
  return {
    offset := ← r.required "offset" Json.toNat?
    direction := ← r.required "direction" Direction.ofJson? }

end Position

namespace Segment

def toJson (s : Segment) : Json := .record [("start", s.start.toJson), ("end", s.stop.toJson)]

def ofJson? (j : Json) : Option Segment := do
  let r ← Record.ofJson? ["start", "end"] j
  return {
    start := ← r.required "start" Position.ofJson?
    stop := ← r.required "end" Position.ofJson? }

end Segment

end RichTable
