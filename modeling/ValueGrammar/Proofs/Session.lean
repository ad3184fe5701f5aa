import ValueGrammar.Session

/-!
Sessions answer as their contexts do. A new session remembers nothing, and what is remembered later
is what the context has answered, so it makes no difference which grammars have been asked for before.
-/
namespace ValueGrammar

namespace Session

/-- A session of a context in which all that is recalled is what the context answers. -/
structure Serves (context : Context) (session : Session) : Prop where
  same : session.context = context
  recalled : ∀ grammar expansion, session.recalled? grammar = some expansion →
    context.expand grammar = .ok expansion

variable {context : Context} {session : Session}

theorem serves_start (context : Context) : (start context).Serves context := by
  refine ⟨rfl, fun grammar expansion recalled => ?_⟩
  unfold recalled? start at recalled
  split at recalled
  · cases recalled
  · cases recalled

theorem serves_clear (serves : session.Serves context) : session.clear.Serves context := by
  refine ⟨serves.same, fun grammar expansion recalled => ?_⟩
  unfold recalled? clear at recalled
  split at recalled
  · cases recalled
  · cases recalled

theorem Serves.remember (serves : session.Serves context) {grammar : String}
    {expansion : Expansion} (expanded : context.expand grammar = .ok expansion) :
    (session.remember grammar expansion).Serves context := by
  unfold Session.remember
  split
  · next remembers =>
    refine ⟨serves.same, fun other found recalled => ?_⟩
    unfold recalled? at recalled
    dsimp only at recalled
    rw [if_pos remembers, Std.TreeMap.getElem?_insert] at recalled
    split at recalled
    · next same =>
      cases recalled
      rw [← Std.LawfulEqCmp.eq_of_compare same]
      exact expanded
    · apply serves.recalled other found
      rw [recalled?, if_pos remembers]
      exact recalled
  · exact serves

/-- An expansion is that of the context, whether it is recalled or not. -/
theorem Serves.expand (serves : session.Serves context) (grammar : String) :
    (session.expand grammar).1 = context.expand grammar ∧
      (session.expand grammar).2.Serves context := by
  unfold Session.expand
  split
  · next expansion recalled => exact ⟨(serves.recalled grammar expansion recalled).symm, serves⟩
  · rw [serves.same]
    split
    · next expansion expanded => exact ⟨expanded.symm, serves.remember expanded⟩
    · next e failed => exact ⟨failed.symm, serves⟩

theorem Serves.form (serves : session.Serves context) (grammar value : String) :
    (session.form grammar value).1 = context.form grammar value ∧
      (session.form grammar value).2.Serves context := by
  obtain ⟨answer, later⟩ := serves.expand grammar
  refine ⟨?_, later⟩
  unfold Session.form Context.form
  dsimp only
  rw [answer, later.same, bind_assoc]

theorem Serves.edit (serves : session.Serves context) (grammar : String) (fragments : List String)
    (slot : Nat) (text : String) :
    (session.edit grammar fragments slot text).1 = context.edit grammar fragments slot text ∧
      (session.edit grammar fragments slot text).2.Serves context := by
  obtain ⟨answer, later⟩ := serves.expand grammar
  unfold Session.edit Context.edit
  cases checkSlot fragments slot with
  | error e => exact ⟨rfl, serves⟩
  | ok checked =>
    refine ⟨?_, later⟩
    dsimp only
    change _ = (pure checked >>= fun _ => _)
    rw [answer, later.same, bind_assoc, pure_bind]

end Session

end ValueGrammar
