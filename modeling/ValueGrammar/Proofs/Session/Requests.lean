import Mathlib.Data.List.DropRight
import ValueGrammar.Proofs.Session
import ValueGrammar.Proofs.Text.Enclosing

/-!
Requests to a session. After any requests a session remembers exactly the grammars asked for since
it was last cleared whose expansion succeeded, each with its expansion, and nothing if its context
remembers nothing. What it answers is what it would answer to the request as its first one.
-/
namespace ValueGrammar

inductive Request where
  | expand (grammar : String)
  | form (grammar value : String)
  | edit (grammar : String) (fragments : List String) (slot : Nat) (text : String)
  | clear
  deriving DecidableEq, Repr

inductive Answer where
  | expansion (result : Except Error Expansion)
  | form (result : Except Error Form)
  | value (result : Except Error String)
  | cleared

/-- The grammar that has to be expanded for a request. An edit of a slot out of range does not get
that far. -/
def Request.grammar? : Request → Option String
  | expand grammar => some grammar
  | form grammar _ => some grammar
  | edit grammar fragments slot _ => if slot ≤ fragments.length then some grammar else none
  | clear => none

/-- The grammars asked for since the last clearing. -/
def Request.asked (past : List Request) : List String :=
  (past.rtakeWhile (· ≠ clear)).filterMap grammar?

theorem Request.asked_clear (past : List Request) : asked (past ++ [clear]) = [] := by
  rw [asked, List.rtakeWhile_concat_neg _ _ _ (by simp), List.filterMap_nil]

theorem Request.asked_concat (past : List Request) {request : Request} (keeps : request ≠ clear) :
    asked (past ++ [request]) = asked past ++ request.grammar?.toList := by
  rw [asked, List.rtakeWhile_concat_pos _ _ _ (by simpa using keeps), List.filterMap_append]
  rfl

namespace Session

def serve (session : Session) : Request → Answer × Session
  | .expand grammar => (session.expand grammar).map .expansion id
  | .form grammar value => (session.form grammar value).map .form id
  | .edit grammar fragments slot text => (session.edit grammar fragments slot text).map .value id
  | .clear => (.cleared, session.clear)

def serveAll (session : Session) (requests : List Request) : Session :=
  requests.foldl (fun session request => (session.serve request).2) session

theorem serveAll_concat (session : Session) (requests : List Request) (request : Request) :
    session.serveAll (requests ++ [request]) = ((session.serveAll requests).serve request).2 := by
  rw [serveAll, List.foldl_append]
  rfl

variable {context : Context} {session : Session} {past : List Request} {request : Request}

/-! ### One request -/

def answer (context : Context) : Request → Answer
  | .expand grammar => .expansion (context.expand grammar)
  | .form grammar value => .form (context.form grammar value)
  | .edit grammar fragments slot text => .value (context.edit grammar fragments slot text)
  | .clear => .cleared

/-- A request is answered as the context would, and the session still serves the context. -/
theorem Serves.serve (serves : session.Serves context) (request : Request) :
    (session.serve request).1 = answer context request ∧
      (session.serve request).2.Serves context := by
  cases request with
  | expand grammar =>
    obtain ⟨same, later⟩ := serves.expand grammar
    exact ⟨congrArg Answer.expansion same, later⟩
  | form grammar value =>
    obtain ⟨same, later⟩ := serves.form grammar value
    exact ⟨congrArg Answer.form same, later⟩
  | edit grammar fragments slot text =>
    obtain ⟨same, later⟩ := serves.edit grammar fragments slot text
    exact ⟨congrArg Answer.value same, later⟩
  | clear => exact ⟨rfl, serves_clear serves⟩

/-- Apart from a clearing, a request changes a session as the expansion of its grammar does. -/
theorem session_of_serve (keeps : request ≠ .clear) :
    (session.serve request).2 =
      request.grammar?.elim session fun grammar => (session.expand grammar).2 := by
  cases request with
  | expand grammar => rfl
  | form grammar value => rfl
  | edit grammar fragments slot text =>
    by_cases within : slot ≤ fragments.length
    · have checked : checkSlot fragments slot = .ok () := if_neg (Nat.not_lt.mpr within)
      simp [serve, edit, checked, Request.grammar?, within]
    · have refused : checkSlot fragments slot = .error (.slotOutOfRange slot fragments.length) :=
        if_pos (Nat.not_le.mp within)
      simp [serve, edit, refused, Request.grammar?, within]
  | clear => exact absurd rfl keeps

/-! ### What is remembered -/

theorem recalled?_eq_some {grammar : String} {expansion : Expansion} :
    session.recalled? grammar = some expansion ↔
      session.context.limits.remembers = true ∧ session.remembered[grammar]? = some expansion := by
  unfold recalled?
  rw [Option.ite_none_right_eq_some]

theorem getElem?_remember (session : Session) (grammar : String) (expansion : Expansion)
    (other : String) :
    (session.remember grammar expansion).remembered[other]? =
      if session.context.limits.remembers = true ∧ other = grammar then some expansion
      else session.remembered[other]? := by
  have same : compare grammar other = .eq ↔ other = grammar := by
    rw [Std.LawfulEqCmp.compare_eq_iff_eq, eq_comm]
  unfold remember
  by_cases on : session.context.limits.remembers = true
  · rw [if_pos on]
    dsimp only
    rw [Std.TreeMap.getElem?_insert]
    simp only [on, same, true_and]
  · rw [if_neg on, if_neg fun both => on both.1]

/-- Behind an expansion the same is remembered, and the expansion if there is one. -/
theorem Serves.remembered_expand (serves : session.Serves context) {grammar other : String}
    {expansion : Expansion} :
    (session.expand grammar).2.remembered[other]? = some expansion ↔
      session.remembered[other]? = some expansion ∨
        (context.limits.remembers = true ∧ other = grammar ∧
          context.expand grammar = .ok expansion) := by
  unfold Session.expand
  split
  · next found recalled =>
    constructor
    · exact Or.inl
    · intro given
      rcases given with before | ⟨-, rfl, again⟩
      · exact before
      · rw [serves.recalled other found recalled] at again
        cases again
        exact (recalled?_eq_some.mp recalled).2
  · next new =>
    rw [serves.same]
    split
    · next found expanded =>
      rw [getElem?_remember, serves.same]
      split
      · next given =>
        obtain ⟨on, rfl⟩ := given
        have unknown : session.remembered[other]? ≠ some expansion := by
          intro kept
          have limits : session.context.limits = context.limits := by rw [serves.same]
          rw [recalled?_eq_some.mpr ⟨limits ▸ on, kept⟩] at new
          cases new
        simp [on, unknown, expanded]
      · next apart =>
        constructor
        · exact Or.inl
        · intro given
          rcases given with before | ⟨on, same, -⟩
          · exact before
          · exact absurd ⟨on, same⟩ apart
    · next e failed => simp [failed]

/-- A session in which exactly the expansions of some grammars are remembered. -/
structure Remembers (context : Context) (grammars : List String) (session : Session) : Prop where
  serves : session.Serves context
  entries : ∀ grammar expansion, session.remembered[grammar]? = some expansion ↔
    context.limits.remembers = true ∧ grammar ∈ grammars ∧ context.expand grammar = .ok expansion

theorem remembers_nothing (serves : session.Serves context) (empty : session.remembered = ∅) :
    session.Remembers context [] := by
  refine ⟨serves, fun grammar expansion => ?_⟩
  rw [empty, Std.TreeMap.getElem?_emptyc]
  simp

/-- One more request keeps track of the grammars asked for. -/
theorem Remembers.serve (remembers : session.Remembers context (Request.asked past))
    (request : Request) :
    (session.serve request).2.Remembers context (Request.asked (past ++ [request])) := by
  have serves := (remembers.serves.serve request).2
  by_cases keeps : request = .clear
  · subst keeps
    rw [Request.asked_clear]
    exact remembers_nothing serves rfl
  · refine ⟨serves, fun grammar expansion => ?_⟩
    rw [session_of_serve keeps, Request.asked_concat past keeps]
    cases request.grammar? with
    | none => simpa using remembers.entries grammar expansion
    | some asked =>
      rw [Option.elim_some, remembers.serves.remembered_expand, remembers.entries]
      simp only [Option.toList_some, List.mem_append, List.mem_singleton]
      constructor
      · intro given
        rcases given with ⟨on, old, expanded⟩ | ⟨on, rfl, expanded⟩
        · exact ⟨on, Or.inl old, expanded⟩
        · exact ⟨on, Or.inr rfl, expanded⟩
      · intro given
        obtain ⟨on, old | rfl, expanded⟩ := given
        · exact Or.inl ⟨on, old, expanded⟩
        · exact Or.inr ⟨on, rfl, expanded⟩

/-- After any requests, the grammars asked for since the last clearing are remembered. -/
theorem remembers_serveAll (context : Context) (past : List Request) :
    ((start context).serveAll past).Remembers context (Request.asked past) := by
  induction past using List.reverseRecOn with
  | nil => exact remembers_nothing (serves_start context) rfl
  | append_singleton past request ih =>
    rw [serveAll_concat]
    exact ih.serve request

theorem Remembers.size_eq_zero {grammars : List String}
    (remembers : session.Remembers context grammars) (off : context.limits.remembers = false) :
    session.size = 0 := by
  have empty : session.remembered.isEmpty = true := by
    rw [Std.TreeMap.isEmpty_iff_forall_not_mem]
    intro grammar member
    obtain ⟨on, -⟩ := (remembers.entries grammar _).mp (Std.TreeMap.getElem?_eq_some_getElem member)
    rw [off] at on
    cases on
  rw [Std.TreeMap.isEmpty_eq_size_eq_zero] at empty
  exact beq_iff_eq.mp empty

/-- A request whose grammar has no expansion leaves the session as it is. -/
theorem Serves.serve_of_error (serves : session.Serves context) {grammar : String} {e : Error}
    (asks : request.grammar? = some grammar) (failed : context.expand grammar = .error e) :
    (session.serve request).2 = session := by
  have keeps : request ≠ .clear := by
    rintro rfl
    cases asks
  rw [session_of_serve keeps, asks, Option.elim_some]
  unfold Session.expand
  split
  · rfl
  · rw [serves.same, failed]

end Session

/-- Blanks around a grammar make no difference to its expansion. -/
theorem Context.expand_trim (context : Context) (grammar : String) :
    context.expand (Text.trim grammar) = context.expand grammar := by
  unfold Context.expand
  rw [Text.trim_trim]

namespace Session

/-! ### Main result -/

/-- After any requests, exactly the expansions of the grammars asked for since the last clearing are
remembered, under the grammars as they were written, and none if the context does not remember. The
next request is answered as the first one of a new session would be, and leaves the session as it is
if its grammar has no expansion. A grammar has one expansion with and without blanks around it, and it
is remembered for each spelling that has been asked for. -/
theorem served_as_first (context : Context) (past : List Request) :
    (∀ grammar expansion,
      ((start context).serveAll past).remembered[grammar]? = some expansion ↔
        context.limits.remembers = true ∧ grammar ∈ Request.asked past ∧
          context.expand grammar = .ok expansion) ∧
    (∀ request, (((start context).serveAll past).serve request).1 =
      ((start context).serve request).1) ∧
    (∀ request grammar e, request.grammar? = some grammar → context.expand grammar = .error e →
      (((start context).serveAll past).serve request).2 = (start context).serveAll past) ∧
    (context.limits.remembers = false → ((start context).serveAll past).size = 0) ∧
    ∀ grammar, context.expand (Text.trim grammar) = context.expand grammar ∧
      ∀ expansion, context.limits.remembers = true → context.expand grammar = .ok expansion →
        ∀ spelling ∈ [grammar, Text.trim grammar], ((start context).serveAll
          (past ++ [.expand grammar] ++ [.expand (Text.trim grammar)])).remembered[spelling]? =
            some expansion := by
  have remembers := remembers_serveAll context past
  refine ⟨remembers.entries, fun request => ?_, fun request grammar e asks failed => ?_,
    remembers.size_eq_zero, fun grammar => ⟨context.expand_trim grammar, ?_⟩⟩
  · rw [(remembers.serves.serve request).1, ((serves_start context).serve request).1]
  · exact remembers.serves.serve_of_error asks failed
  · intro expansion on expanded spelling either
    refine ((remembers_serveAll context _).entries spelling expansion).mpr ⟨on, ?_, ?_⟩
    · rw [Request.asked_concat _ (by simp), Request.asked_concat _ (by simp)]
      rcases List.mem_pair.mp either with rfl | rfl
      · simp [Request.grammar?]
      · simp [Request.grammar?]
    · rcases List.mem_pair.mp either with rfl | rfl
      · exact expanded
      · rw [context.expand_trim]
        exact expanded

end Session

end ValueGrammar
