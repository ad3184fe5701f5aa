import ValueGrammar.Piece.BySize

/-!
Arrangements of operands: the orderings of a list, and its non-empty subsets.
-/
namespace ValueGrammar.Arrangement

variable {α : Type}

/-- Each element of a list with the other elements in their order. -/
def picks : List α → List (α × List α)
  | [] => []
  | x :: rest => (x, rest) :: (picks rest).map fun pick => (pick.1, x :: pick.2)

/-- The ways to pick `count` elements one after the other, in the order of the positions picked. -/
def selections : Nat → List α → List (List α)
  | 0, _ => [[]]
  | count + 1, xs => (picks xs).flatMap fun pick => (selections count pick.2).map (pick.1 :: ·)

/-- The orderings of a list, in lexicographic order of positions. -/
def orderings (xs : List α) : List (List α) :=
  selections xs.length xs

/-- All sublists. Read each as a binary number, the first element being the lowest digit: then
they stand in increasing order. -/
def sublists (xs : List α) : List (List α) :=
  xs.foldl (fun done x => done ++ done.map (· ++ [x])) [[]]

/-- The non-empty sublists, those of one size before those of the next. -/
def subsets (xs : List α) : List (List α) :=
  bySize List.length (sublists xs).tail

def arrangements (xs : List α) : List (List α) :=
  (subsets xs).flatMap orderings

end ValueGrammar.Arrangement
