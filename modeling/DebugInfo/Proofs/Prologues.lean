import DebugInfo.Proofs.Opening
import DebugInfo.Session

/-!
What a prologue leaves behind. It always leaves the fresh root of its function as its only
scope, however far it comes and whatever was known of the function before. Where it
succeeds in an active registry it has set the descriptor that it gives, which is also that
of the root. Until something has to be described it does what the tracker alone would do.
-/

namespace DebugInfo

/-- A function whose scopes were begun and for which nothing else was done. -/
def FunctionState.begun {δ : Type} (function : FunctionState δ) : FunctionState δ where
  input := function.input
  tracker :=
    { arena := #[⟨function.input.body.rootPlace, Link.none⟩]
      stack := [0]
      position := function.tracker.position }
  described _ := none
  file := function.file
  subprogram := function.subprogram

/-- The scopes of a function and which of them are open. -/
def FunctionState.scopes {δ : Type} (function : FunctionState δ) : Arena × List Nat :=
  (function.tracker.arena, function.tracker.stack)

/-- The descriptors of a function and of its root. -/
def FunctionState.descriptors {δ : Type} (function : FunctionState δ) : Option δ × Option δ :=
  (function.subprogram, function.described 0)

namespace Prologue

variable {δ : Type}

theorem answer_beginScopes (prologue : Prologue δ) :
    beginScopes.answer prologue =
      (.ok (), { prologue with function := prologue.function.begun }) := by
  simp only [beginScopes, Action.answer_bind, Action.answer_get, answer_onTracker,
    Tracker.pushRoot, Action.answer_modify, answer_modifyFunction]
  rfl

section Views

variable {γ : Type} (view : FunctionState δ → γ)

theorem keeps_onRegistry {α : Type} (action : Action (Registry δ) α) :
    Action.Keeps (fun prologue => view prologue.function) (onRegistry action) := by
  intro prologue
  rw [answer_onRegistry]

theorem keeps_modifyFunction {change : FunctionState δ → FunctionState δ}
    (hchange : ∀ function, view (change function) = view function) :
    Action.Keeps (fun prologue => view prologue.function) (modifyFunction change) :=
  fun prologue => hchange prologue.function

/-- Describing a variable does not touch the function. -/
theorem keeps_describeVariable (table : TypeTable) (scope : δ) (point : Option SequencePoint)
    (type : TypeId) (name : String) (parameter : Option Nat) :
    Action.Keeps (fun prologue => view prologue.function)
      (describeVariable table scope point type name parameter) :=
  (Action.keeps_get _).bind fun _ =>
    (keeps_onRegistry view _).bind fun _ => Action.keeps_pure _ _

/-- Describing the variables only moves the position. -/
theorem keeps_describeVariables
    (hview : ∀ function position,
      view { function with tracker := { function.tracker with position } } = view function)
    (table : TypeTable) (subprogram : δ) :
    Action.Keeps (fun prologue => view prologue.function)
      (describeVariables table subprogram) := by
  have henter (context : FunctionContext) :
      Action.Keeps (fun prologue => view prologue.function)
        (onTracker (Tracker.enter context 0)) := by
    intro prologue
    obtain ⟨position, hposition⟩ :=
      Tracker.enter_keeps context 0 prologue.function.tracker
    rw [answer_onTracker, hposition]
    exact hview prologue.function position
  have hroot (root : ScopeNode) : Action.Keeps (fun prologue => view prologue.function)
      (enterRoot table subprogram root) :=
    (Action.keeps_get _).bind fun _ => (henter _).bind fun _ =>
      (Action.keeps_ofExcept _ _).bind fun _ => .forM fun _ =>
        (Action.keeps_ofExcept _ _).bind fun _ => keeps_describeVariable view _ _ _ _ _ _
  have hlocals : Action.Keeps (fun prologue => view prologue.function)
      (describeLocals table subprogram) :=
    (Action.keeps_get _).bind fun _ => .forM fun (_, _) =>
      keeps_describeVariable view _ _ _ _ _ _
  have hparameters : Action.Keeps (fun prologue => view prologue.function)
      (describeParameters table subprogram) :=
    (Action.keeps_get _).bind fun _ => .forM fun (_, _) =>
      keeps_describeVariable view _ _ _ _ _ _
  refine (Action.keeps_get _).bind fun prologue => ?_
  cases prologue.function.input.body.root with
  | none => exact hlocals.bind fun _ => hparameters
  | some root => exact (hroot root).bind fun _ => hparameters

end Views

section Descriptors

variable {table : TypeTable} {writer : Writer δ} {prologue next : Prologue δ} {subprogram : δ}

theorem keeps_scopes_describeFunction (writer : Writer δ) (table : TypeTable) :
    Action.Keeps (fun prologue => prologue.function.scopes) (describeFunction writer table) := by
  refine (Action.keeps_get _).bind fun _ => (keeps_onRegistry _ _).bind fun _ => ?_
  refine (Action.keeps_ofExcept _ _).bind fun _ => ?_
  refine (keeps_modifyFunction FunctionState.scopes ?_).bind fun _ => ?_
  · exact fun _ => rfl
  refine (Action.keeps_ofExcept _ _).bind fun _ => (Action.keeps_ofExcept _ _).bind fun _ => ?_
  refine (keeps_modifyFunction FunctionState.scopes ?_).bind fun _ => Action.keeps_pure _ _
  exact fun _ => rfl

/-- However far it comes, a prologue leaves the fresh root as the only scope. -/
theorem scopes_after_prepare (table : TypeTable) (prologue : Prologue δ) :
    ((prepare table).answer prologue).2.function.scopes =
      (#[⟨prologue.function.input.body.rootPlace, Link.none⟩], [0]) := by
  have hvariables (subprogram : δ) :
      Action.Keeps (fun prologue => prologue.function.scopes)
        (describeVariables table subprogram) :=
    keeps_describeVariables _ (fun _ _ => rfl) table subprogram
  simp only [prepare, Action.answer_bind, answer_beginScopes, Action.answer_get]
  cases prologue.registry.activeWriter? with
  | none => rfl
  | some writer =>
      exact ((keeps_scopes_describeFunction writer table).bind fun subprogram =>
        (hvariables subprogram).bind fun _ => Action.keeps_pure _ _) _

/-- Describing a function sets the descriptor that it gives, also for the root. -/
theorem descriptors_describeFunction
    (hdescribed : (describeFunction writer table).answer prologue = (.ok subprogram, next)) :
    next.function.descriptors = (some subprogram, some subprogram) := by
  unfold describeFunction at hdescribed
  -- Six steps come before the descriptor is set.
  iterate 6 obtain ⟨_, _, -, hdescribed⟩ := Action.exists_of_bind_ok hdescribed
  obtain ⟨_, _, hset, hgiven⟩ := Action.exists_of_bind_ok hdescribed
  cases hset
  cases hgiven
  rfl

/-- A prologue that gives a descriptor has set it, also for the root. -/
theorem descriptors_after_prepare
    (hprepared : (prepare table).answer prologue = (.ok (some subprogram), next)) :
    next.function.descriptors = (some subprogram, some subprogram) := by
  simp only [prepare, Action.answer_bind _ _ prologue, answer_beginScopes,
    Action.answer_bind get, Action.answer_get] at hprepared
  cases hwriter : prologue.registry.activeWriter? with
  | none =>
      rw [hwriter] at hprepared
      cases hprepared
  | some writer =>
      rw [hwriter] at hprepared
      obtain ⟨_, described, hdescribe, hvariables⟩ := Action.exists_of_bind_ok hprepared
      obtain ⟨_, _, hvariables, hgiven⟩ := Action.exists_of_bind_ok hvariables
      cases hgiven
      have hkept := keeps_describeVariables FunctionState.descriptors (fun _ _ => rfl) table
        subprogram described
      rw [hvariables] at hkept
      exact hkept.trans (descriptors_describeFunction hdescribe)

end Descriptors

section Endings

variable {registry : Registry δ} {table : TypeTable} {function : FunctionState δ}

/-- A prologue whose class cannot be had stops once the scopes are begun. -/
theorem answer_prepare_of_error {writer : Writer δ} (hwriter : registry.activeWriter? = some writer)
    {failure : Failure} {next : Registry δ}
    (hclass : (Registry.declareClass writer table function.input.declaring).answer registry =
      (.error failure, next)) :
    (prepare table).answer ⟨registry, function⟩ = (.error failure, ⟨next, function.begun⟩) := by
  have hdescribe : (describeFunction writer table).answer ⟨registry, function.begun⟩ =
      (.error failure, ⟨next, function.begun⟩) := by
    have hinput : function.begun.input = function.input := rfl
    simp only [describeFunction, Action.answer_bind, Action.answer_get, answer_onRegistry,
      hinput, hclass]
  simp only [prepare, Action.answer_bind, answer_beginScopes, Action.answer_get, hwriter,
    hdescribe]

theorem answer_prepare_of_inactive (hinactive : registry.activeWriter? = none)
    (table : TypeTable) (function : FunctionState δ) :
    (prepare table).answer ⟨registry, function⟩ = (.ok none, ⟨registry, function.begun⟩) := by
  simp only [prepare, Action.answer_bind, answer_beginScopes, Action.answer_get, hinactive]
  rfl

/-- The prologue begins as the tracker alone would begin the function, and where nothing
has to be described the two end alike. -/
theorem prepare_eq_tracker_prepare (unit : CompilationUnit δ) (function : FunctionState δ)
    {context : FunctionContext}
    (hcontext : context = unit.functionContext function.input.declaring function.input.body
      function.input.locals)
    (hdescribes : ((Tracker.prepare context).answer function.tracker).1 ≠
      .error .writerRequired) :
    ((prepare unit.table).answer ⟨unit.registry, function⟩).1.map (fun _ => ()) =
        ((Tracker.prepare context).answer function.tracker).1 ∧
      ((prepare unit.table).answer ⟨unit.registry, function⟩).2.function.tracker =
        ((Tracker.prepare context).answer function.tracker).2 := by
  subst hcontext
  cases hwriter : unit.registry.activeWriter? with
  | none =>
      have hinactive : unit.registry.isActive = false := by rw [Registry.isActive, hwriter]; rfl
      rw [answer_prepare_of_inactive hwriter]
      simp only [CompilationUnit.functionContext, hinactive]
      exact ⟨rfl, rfl⟩
  | some writer =>
      have hactive : unit.registry.isActive = true := by rw [Registry.isActive, hwriter]; rfl
      have hclassOf : (Registry.classOf unit.table function.input.declaring).answer
          unit.registry = (some <$> Registry.declareClass writer unit.table
            function.input.declaring).answer unit.registry := by
        simp only [Registry.classOf, Action.answer_bind, Action.answer_get, hwriter]
      simp only [CompilationUnit.functionContext, hactive, hclassOf, Action.answer_map,
        if_true] at hdescribes ⊢
      cases hclass : (Registry.declareClass writer unit.table function.input.declaring).answer
          unit.registry with
      | mk result next =>
          cases result with
          | error failure =>
              rw [answer_prepare_of_error hwriter hclass]
              exact ⟨rfl, rfl⟩
          | ok descriptor =>
              rw [hclass] at hdescribes
              exact absurd rfl hdescribes

end Endings

end Prologue

end DebugInfo
