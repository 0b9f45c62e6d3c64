/-!
# Stable sorting

Cells of a row are put in the order of their columns. The lists are short, and the sort is by
insertion: elements that are equal in order keep the order they came in.
-/

namespace RichTable

variable {α : Type}

/-- Inserts an element before the first one that it does not exceed. -/
def insertSorted (le : α → α → Bool) (a : α) : List α → List α
  | [] => [a]
  | b :: bs => if le a b then a :: b :: bs else b :: insertSorted le a bs

/-- Sorts a list by `le`, keeping equal elements in place. -/
def sortBy (le : α → α → Bool) : List α → List α
  | [] => []
  | a :: as => insertSorted le a (sortBy le as)

end RichTable
