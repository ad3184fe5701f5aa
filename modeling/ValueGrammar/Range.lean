import ValueGrammar.Unicode.Blank
import ValueGrammar.Number.Text

/-!
Numeric ranges, as a typed reference carries them: `[0,∞]`, `[-5, 10]`, `[,5]`. Both bounds
belong to the range.
-/
namespace ValueGrammar

open Unicode

/-- The numbers from `min` to `max`. -/
structure Range where
  min : Number
  max : Number
  deriving DecidableEq, Repr

namespace Range

def unbounded : Range := ⟨.negInf, .posInf⟩

def contains (range : Range) (x : Number) : Bool :=
  range.min ≤ x && x ≤ range.max

def intersect (a b : Range) : Range :=
  ⟨a.min.max b.min, a.max.min b.max⟩

/-- The text of a range: no blank stands between its parts. -/
def text (range : Range) : String :=
  "[" ++ range.min.text ++ "," ++ range.max.text ++ "]"

/-- The characters after a word of small ASCII letters, written in either case. -/
def dropWord? : List Char → List Char → Option (List Char)
  | [], cs => some cs
  | w :: word, c :: cs => if c.toLower = w then dropWord? word cs else none
  | _ :: _, [] => none

/-- Infinity is written `∞` or `inf`. -/
def dropInfinity? (cs : List Char) : Option (List Char) :=
  match cs with
  | '∞' :: rest => some rest
  | _ => dropWord? ['i', 'n', 'f'] cs

/-- A bound: an infinity that a minus sign may precede, or a number. -/
def readBound? (cs : List Char) : Option (Number × List Char) :=
  match cs with
  | '-' :: rest =>
    match dropInfinity? rest with
    | some rest => some (.negInf, rest)
    | none => Number.read? cs
  | _ =>
    match dropInfinity? cs with
    | some rest => some (.posInf, rest)
    | none => Number.read? cs

/-- A bound that may be left out, in which case it is the given infinity. -/
def readBoundOr (infinity : Number) (cs : List Char) : Number × List Char :=
  (readBound? cs).getD (infinity, cs)

/-- The characters after the blanks between the parts of a range. -/
def skip (cs : List Char) : List Char :=
  cs.dropWhile isPlainBlank

def read? (cs : List Char) : Option (Range × List Char) :=
  match cs with
  | '[' :: rest =>
    let low := readBoundOr .negInf (skip rest)
    match skip low.2 with
    | ',' :: rest =>
      let high := readBoundOr .posInf (skip rest)
      match skip high.2 with
      | ']' :: rest => some (⟨low.1, high.1⟩, rest)
      | _ => none
    | _ => none
  | _ => none

theorem dropWord?_shorter {word cs rest : List Char} (h : dropWord? word cs = some rest) :
    rest.length ≤ cs.length := by
  fun_induction dropWord? word cs with
  | case1 => simp_all
  | case2 c word cs ih =>
    have := ih h
    simp only [List.length_cons]
    omega
  | case3 => cases h
  | case4 => cases h

theorem dropInfinity?_shorter {cs rest : List Char} (h : dropInfinity? cs = some rest) :
    rest.length ≤ cs.length := by
  unfold dropInfinity? at h
  split at h
  · simp_all
  · exact dropWord?_shorter h

theorem readBound?_shorter {cs : List Char} {x : Number} {rest : List Char}
    (h : readBound? cs = some (x, rest)) : rest.length ≤ cs.length := by
  unfold readBound? at h
  split at h
  · split at h
    · next found =>
      have := dropInfinity?_shorter found
      simp only [Option.some.injEq, Prod.mk.injEq] at h
      rw [← h.2, List.length_cons]
      omega
    · exact Nat.le_of_lt (Number.read?_shorter h)
  · split at h
    · next found =>
      have := dropInfinity?_shorter found
      simp only [Option.some.injEq, Prod.mk.injEq] at h
      rw [← h.2]
      exact this
    · exact Nat.le_of_lt (Number.read?_shorter h)

theorem readBoundOr_shorter (infinity : Number) (cs : List Char) :
    (readBoundOr infinity cs).2.length ≤ cs.length := by
  unfold readBoundOr
  cases found : readBound? cs with
  | none => simp
  | some read => exact readBound?_shorter found

theorem length_skip_le (cs : List Char) : (skip cs).length ≤ cs.length :=
  (List.dropWhile_suffix isPlainBlank).length_le

theorem read?_shorter {cs : List Char} {range : Range} {rest : List Char}
    (h : read? cs = some (range, rest)) : rest.length < cs.length := by
  unfold read? at h
  split at h
  · next first =>
    have start := length_skip_le first
    have low := readBoundOr_shorter .negInf (skip first)
    have gap := length_skip_le (readBoundOr .negInf (skip first)).2
    simp only at h
    split at h
    · next second comma =>
      rw [comma, List.length_cons] at gap
      have start' := length_skip_le second
      have high := readBoundOr_shorter .posInf (skip second)
      have gap' := length_skip_le (readBoundOr .posInf (skip second)).2
      split at h
      · next third closed =>
        rw [closed, List.length_cons] at gap'
        simp only [Option.some.injEq, Prod.mk.injEq] at h
        rw [← h.2, List.length_cons]
        omega
      · cases h
    · cases h
  · cases h

end Range

end ValueGrammar
