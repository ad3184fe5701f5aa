import ValueGrammar.Proofs.Expansion.Outcome
import ValueGrammar.Proofs.Lexeme.Trimming
import ValueGrammar.Proofs.Registry.Unfolding
import ValueGrammar.Slot.Form

/-!
Keys without a definition. They are those of the leaves that are no keywords and not registered, each
listed where it is met first. A single one leaves the grammar as it is: its expansion is the grammar
itself, its text is unchanged, and no value has a form.
-/
namespace ValueGrammar

namespace Substitution

/-- Keys that are noted one by one are listed in the order in which they come first. -/
theorem foldl_note (keys : List String) : keys.foldl note [] = keys.eraseDups := by
  induction keys using List.reverseRecOn with
  | nil => rfl
  | append_singleton keys key ih =>
    rw [List.foldl_append, ih, List.foldl_cons, List.foldl_nil, List.eraseDups_append, note]
    by_cases known : key ∈ keys
    · rw [if_pos (List.mem_eraseDups.mpr known)]
      simp [List.removeAll, known]
    · rw [if_neg fun member => known (List.mem_eraseDups.mp member)]
      simp [List.removeAll, known, List.eraseDups_cons]

theorem nodup_note {unknown : List String} (distinct : unknown.Nodup) (key : String) :
    (note unknown key).Nodup := by
  unfold note
  split
  · exact distinct
  · next fresh =>
    rw [← List.concat_eq_append]
    exact distinct.concat fresh

/-- No key is noted twice. -/
theorem nodup_foldl_note {unknown : List String} (distinct : unknown.Nodup) (keys : List String) :
    (keys.foldl note unknown).Nodup := by
  induction keys generalizing unknown with
  | nil => exact distinct
  | cons key keys ih => exact ih (nodup_note distinct key)

end Substitution

namespace Registry

variable {registry : Registry}

/-- The keys that a substitution notes are those of the leaves without a definition. -/
theorem Writes.mem_unknown {leaves : List Leaf} {result : Substitution}
    (writes : registry.Writes [] leaves result) {key : String} :
    key ∈ result.unknown ↔ ∃ leaf ∈ leaves, leaf.reference.isKeyword = false ∧
      registry.contains leaf.reference.key = false ∧ leaf.reference.key = key := by
  rw [writes.unknown, Substitution.foldl_note, List.mem_eraseDups, undefinedKeys]
  simp only [List.mem_map, List.mem_filter, isUndefined, Bool.and_eq_true, Bool.not_eq_true',
    and_assoc]

/-- The text of a grammar with a key that has no definition is left as it is. -/
theorem expandText_of_unknown {grammar : String} {substitution : Substitution}
    (substituted : registry.substitute grammar = .ok substitution)
    (unknown : substitution.unknown ≠ []) : registry.expandText grammar = .ok grammar := by
  unfold expandText
  rw [substituted]
  change Except.ok (if substitution.unknown.isEmpty then substitution.text else grammar) = _
  rw [if_neg fun none => unknown (List.isEmpty_iff.mp none)]

end Registry

namespace Context

variable {context : Context} {grammar : String} {substitution : Substitution}

/-- A grammar with a key that has no definition is not taken apart. -/
theorem expand_of_unknown (nonblank : (Text.trim grammar).isEmpty = false)
    (substituted : context.registry.substitute grammar = .ok substitution)
    (unknown : substitution.unknown ≠ []) :
    context.expand grammar =
      .ok (Expansion.unstructured (Text.trim grammar) substitution.unknown) := by
  have solid : ¬ (Text.trim grammar).isEmpty = true := by simp [nonblank]
  have noted : (!substitution.unknown.isEmpty) = true := by simp [unknown]
  unfold expand
  dsimp only
  rw [if_neg solid]
  refine bind_eq_ok.mpr ⟨substitution, Registry.substitute_trim.mpr substituted, ?_⟩
  rw [if_pos noted]
  rfl

/-- The expansion of a grammar notes the keys that its substitution notes. -/
theorem unknown_of_expand (nonblank : (Text.trim grammar).isEmpty = false)
    (substituted : context.registry.substitute grammar = .ok substitution) {expansion : Expansion}
    (expanded : context.expand grammar = .ok expansion) :
    expansion.unknown = substitution.unknown := by
  by_cases known : substitution.unknown = []
  · have structured : expansion.isStructured = true := by
      by_contra left
      have left' : expansion.isStructured = false := by simpa using left
      have outcome := (exists_expand_iff nonblank).mp ⟨expansion, expanded, left'⟩
      rw [Registry.outcome_eq_false_iff (Registry.substitute_trim.mpr substituted)] at outcome
      exact outcome known
    rw [known]
    exact List.isEmpty_iff.mp structured
  · rw [expand_of_unknown nonblank substituted known] at expanded
    cases expanded
    rfl

/-! ### Main result -/

/-- The keys without a definition are listed exactly, each where a walk through the definitions meets
it first. If there are any, the grammar is left as it is: it is its own only variant, its text stays,
and every value is refused for them; otherwise an expansion is structured. -/
theorem undefined_keys_exact (nonblank : (Text.trim grammar).isEmpty = false)
    (substituted : context.registry.substitute grammar = .ok substitution) :
    (∃ items leaves, Lexeme.ofGrammar grammar = .ok items ∧
      context.registry.Unfolds [] items leaves ∧
      (∀ others, context.registry.Unfolds [] items others → others = leaves) ∧
      substitution.unknown = (context.registry.undefinedKeys leaves).eraseDups ∧
      ∀ key, key ∈ substitution.unknown ↔ ∃ leaf ∈ leaves, leaf.reference.isKeyword = false ∧
        context.registry.contains leaf.reference.key = false ∧ leaf.reference.key = key) ∧
    substitution.unknown.Nodup ∧
    (∀ expansion, context.expand grammar = .ok expansion →
      expansion.unknown = substitution.unknown ∧
        (expansion.isStructured = false ↔ substitution.unknown ≠ [])) ∧
    (substitution.unknown ≠ [] →
      context.expand grammar = .ok ⟨Text.trim grammar,
        [⟨[⟨Text.trim grammar, Text.trim grammar, none⟩], []⟩], substitution.unknown, false⟩ ∧
      context.registry.expandText grammar = .ok grammar ∧
      ∀ value, context.form grammar value = .error (.unknownTokens substitution.unknown)) := by
  obtain ⟨items, leaves, lexed, unfolds, writes⟩ :=
    Registry.exists_unfolds_of_substitute substituted
  refine ⟨⟨items, leaves, lexed, unfolds, fun others other => unfolds.unique other, ?_,
    fun key => writes.mem_unknown⟩, ?_, fun expansion expanded => ?_, fun unknown => ?_⟩
  · rw [writes.unknown, Substitution.foldl_note]
  · rw [writes.unknown]
    exact Substitution.nodup_foldl_note List.nodup_nil _
  · have same := unknown_of_expand nonblank substituted expanded
    refine ⟨same, ?_⟩
    rw [Expansion.isStructured, same]
    simp
  · have expanded := expand_of_unknown nonblank substituted unknown
    refine ⟨expanded, Registry.expandText_of_unknown substituted unknown, fun value => ?_⟩
    have refused : structured (Expansion.unstructured (Text.trim grammar) substitution.unknown) =
        .error (.unknownTokens substitution.unknown) :=
      if_neg fun none => unknown (List.isEmpty_iff.mp none)
    unfold form
    rw [expanded]
    change (structured _ >>= fun expansion => context.formIn expansion value) = _
    rw [refused]
    rfl

/-- Definitions with gaps: `<gap>`, `<hole>` and `fold()` are not defined. -/
def patchy : Context :=
  ⟨⟨[⟨"<length>", "<length>", none⟩, ⟨"<inner>", "<gap> <length> fold(<hidden>)", none⟩,
    ⟨"<outer>", "<inner> | <hole> | <gap [0,1]>", none⟩], by decide +kernel⟩, Category.standard, .standard⟩

/-- Keys inside of definitions come in the order of the walk, and arguments are not looked at. -/
theorem undefined_keys_exact_patchy : ∃ substitution,
    patchy.registry.substitute " auto <outer> <hole>" = .ok substitution ∧
      substitution.unknown = ["<gap>", "fold()", "<hole>"] ∧
      patchy.expand " auto <outer> <hole>" =
        .ok ⟨"auto <outer> <hole>", [⟨[⟨"auto <outer> <hole>", "auto <outer> <hole>", none⟩], []⟩],
          ["<gap>", "fold()", "<hole>"], false⟩ ∧
      patchy.registry.expandText " auto <outer> <hole>" = .ok " auto <outer> <hole>" ∧
      ∀ value, patchy.form " auto <outer> <hole>" value =
        .error (.unknownTokens ["<gap>", "fold()", "<hole>"]) := by
  have nonblank : (Text.trim " auto <outer> <hole>").isEmpty = false := by decide +kernel
  have trimmed : Text.trim " auto <outer> <hole>" = "auto <outer> <hole>" := by decide +kernel
  have computed : (patchy.registry.substitute " auto <outer> <hole>").toOption.any
      (fun substitution => substitution.unknown == ["<gap>", "fold()", "<hole>"]) = true := by
    decide +kernel
  obtain ⟨substitution, substituted, same⟩ := exists_ok_of_any computed
  have unknown := eq_of_beq same
  obtain ⟨-, -, -, left⟩ := undefined_keys_exact nonblank substituted
  obtain ⟨expanded, text, refused⟩ := left (by simp [unknown])
  rw [trimmed, unknown] at expanded
  rw [unknown] at refused
  exact ⟨substitution, substituted, unknown, expanded, text, refused⟩

end Context

end ValueGrammar
