import ValueGrammar.Proofs.Category.Fragments
import ValueGrammar.Proofs.Value.Joining

/-!
Calls in values. A text that is a call as a whole is a fragment of its own, at whatever separators it is
split, and a scanner is outside quotes and parentheses behind it. It therefore may stand in any place of
a value and is found there again after the fragments are joined.
-/
namespace ValueGrammar.Fragments

open Text

variable {boundaries : List Separator} {texts : List String} {text : String}

/-- A closed fragment may take any place in a row. -/
theorem IsRow.set (row : IsRow boundaries texts) (fragment : IsFragment boundaries text.toList)
    (closed : Closed text.toList) (place : Nat) : IsRow boundaries (texts.set place text) := by
  constructor
  · intro other member
    rcases List.mem_or_eq_of_mem_set member with kept | rfl
    · exact row.fragments other kept
    · exact fragment
  · intro other member
    have inside : other ∈ texts.dropLast.set place text := by
      rw [List.dropLast_eq_take, List.length_set, List.take_set] at member
      rwa [List.dropLast_eq_take]
    rcases List.mem_or_eq_of_mem_set inside with kept | rfl
    · exact row.closed other kept
    · exact closed

/-- The fragments with another text in one place, if there is such a place. -/
def replace (fragments : Fragments) (place : Nat) (text : String) : Fragments :=
  ⟨fragments.texts.set place text, fragments.separators⟩

/-- A closed fragment put into a value is found again, and so are the fragments around it. -/
theorem split_replace (fragment : IsFragment boundaries text.toList) (closed : Closed text.toList)
    (value : String) (place : Nat) :
    split boundaries ((split boundaries value).replace place text).value =
      (split boundaries value).replace place text := by
  have row := (split_isRow boundaries value).set fragment closed place
  have count : (split boundaries value).separators.length =
      ((split boundaries value).texts.set place text).length - 1 := by
    rw [List.length_set, length_split_separators]
  exact split_join row count fun s member => separators_subset boundaries value member

theorem split_of_isFragment (fragment : IsFragment boundaries text.toList) :
    split boundaries text = ⟨[text], []⟩ := by
  have row : IsRow boundaries [text] :=
    ⟨fun other member => List.mem_singleton.mp member ▸ fragment, fun _ member => by cases member⟩
  have count : ([] : List Separator).length = [text].length - 1 := rfl
  have again := split_join row count fun _ member => nomatch member
  rwa [Separator.join] at again

/-! ### Main result -/

/-- What is a call as a whole is its own only fragment, whatever the boundaries are, and leaves a scanner
outside quotes and parentheses. So a fragment that stands for a registered function is one fragment again
when its value is joined and split, and it may also be put in the place of any other fragment. -/
theorem calls_stay_whole (boundaries : List Separator) :
    (∀ (text : String) (call : Call), call? text.toList = some (call, []) →
      split boundaries text = ⟨[text], []⟩ ∧
        Nesting.outside.after text.toList = Nesting.outside) ∧
    ∀ (registry : Registry) (text value : String) (place : Nat),
      Category.function.classify registry text ≠ [] →
        ((split boundaries value).texts[place]? = some text →
          (split boundaries (split boundaries value).value).texts[place]? = some text) ∧
        split boundaries ((split boundaries value).replace place text).value =
          (split boundaries value).replace place text := by
  constructor
  · intro text call read
    obtain ⟨fragment, closed⟩ := isFragment_call boundaries read
    exact ⟨split_of_isFragment fragment, closed⟩
  · intro registry text value place accepted
    obtain ⟨key, member⟩ := List.exists_mem_of_ne_nil _ accepted
    obtain ⟨call, read⟩ := Category.exists_call_of_classify member
    obtain ⟨fragment, closed⟩ := isFragment_call boundaries read
    refine ⟨fun found => ?_, split_replace fragment closed value place⟩
    rwa [(split_value_split boundaries value).1]

/-- The parenthesis in quotes does not end the call, and neither the comma nor the slash cuts it. -/
theorem calls_stay_whole_quoted :
    call? "minmax(\")\", (1 / 2))".toList =
        some (⟨"minmax".toList, "\")\", (1 / 2)".toList⟩, []) ∧
      Category.function.classify .builtin "minmax(\")\", (1 / 2))" ≠ [] ∧
      (split Separator.all "0px,minmax(\")\", (1 / 2))  auto").texts[1]? =
        some "minmax(\")\", (1 / 2))" ∧
      split Separator.all "minmax(\")\", (1 / 2))" = ⟨["minmax(\")\", (1 / 2))"], []⟩ ∧
      (split Separator.all "0px, minmax(\")\", (1 / 2)) auto").texts[1]? =
        some "minmax(\")\", (1 / 2))" ∧
      split Separator.all "0px, minmax(\")\", (1 / 2)) minmax(\")\", (1 / 2))" =
        ⟨["0px", "minmax(\")\", (1 / 2))", "minmax(\")\", (1 / 2))"], [.comma, .space]⟩ := by
  have read : call? "minmax(\")\", (1 / 2))".toList =
      some (⟨"minmax".toList, "\")\", (1 / 2)".toList⟩, []) := by decide +kernel
  have registered : Category.function.classify .builtin "minmax(\")\", (1 / 2))" ≠ [] := by
    decide +kernel
  have typed : split Separator.all "0px,minmax(\")\", (1 / 2))  auto" =
      ⟨["0px", "minmax(\")\", (1 / 2))", "auto"], [.comma, .space]⟩ := by decide +kernel
  have joined : Fragments.value ⟨["0px", "minmax(\")\", (1 / 2))", "auto"], [.comma, .space]⟩ =
      "0px, minmax(\")\", (1 / 2)) auto" := by decide +kernel
  have replaced : Fragments.value
      ⟨["0px", "minmax(\")\", (1 / 2))", "minmax(\")\", (1 / 2))"], [.comma, .space]⟩ =
        "0px, minmax(\")\", (1 / 2)) minmax(\")\", (1 / 2))" := by decide +kernel
  have found : (split Separator.all "0px,minmax(\")\", (1 / 2))  auto").texts[1]? =
      some "minmax(\")\", (1 / 2))" := by rw [typed]; rfl
  obtain ⟨alone, inside⟩ := calls_stay_whole Separator.all
  have again := (inside .builtin _ _ 1 registered).1 found
  have put := (inside .builtin _ "0px,minmax(\")\", (1 / 2))  auto" 2 registered).2
  rw [typed, joined] at again
  rw [typed, replace] at put
  exact ⟨read, registered, found, (alone _ _ read).1, again, replaced ▸ put⟩

end ValueGrammar.Fragments
