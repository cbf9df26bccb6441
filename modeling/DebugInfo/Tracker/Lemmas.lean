import DebugInfo.Tracker.Basic

/-!
What the parts of an advance leave behind. Closing scopes takes from the front
of the stack and touches nothing else, and it never takes the last scope. While
functions are not described, making a scope cannot fail and adds one scope at
the end of the arena.
-/

namespace DebugInfo

/-- Closing scopes leaves an outer part of the stack. -/
theorem closeFinished_suffix (finished : Nat → Except Failure Bool) (stack : List Nat) :
    (closeFinished finished stack).2 <:+ stack := by
  induction stack with
  | nil => exact List.suffix_refl _
  | cons top outer ih =>
      cases outer with
      | nil => exact List.suffix_refl _
      | cons next outer =>
          simp only [closeFinished]
          split
          · exact ih.trans (List.suffix_cons _ _)
          · exact List.suffix_refl _
          · exact List.suffix_refl _

/-- The last scope stays open. -/
theorem closeFinished_ne_nil (finished : Nat → Except Failure Bool) {stack : List Nat}
    (hstack : stack ≠ []) : (closeFinished finished stack).2 ≠ [] := by
  induction stack with
  | nil => exact absurd rfl hstack
  | cons top outer ih =>
      cases outer with
      | nil => simp [closeFinished]
      | cons next outer =>
          simp only [closeFinished]
          split
          · exact ih (by simp)
          · simp
          · simp

namespace Tracker

theorem answer_pushRoot (source : Option Place) (tracker : Tracker) :
    (pushRoot source).answer tracker =
      (.ok (), { tracker with arena := #[⟨source, Link.none⟩], stack := [0] }) := rfl

theorem answer_leave (body : Body) (offset : Nat) (tracker : Tracker) :
    (leave body offset).answer tracker =
      let (result, stack) := closeFinished (tracker.isFinished body offset) tracker.stack
      (result, { tracker with stack }) := by
  simp [leave]

/-- While functions are not described, a scope is made without any check. -/
theorem answer_create_of_silent {context : FunctionContext}
    (hsilent : context.mode.isDescribing = false) (parent : Nat) (place : Place)
    (tracker : Tracker) :
    (create context parent place).answer tracker =
      (.ok tracker.arena.size,
        { tracker with arena := tracker.arena.push ⟨some place, Link.ofIndex parent⟩ }) := by
  simp only [create, hsilent]
  rfl

/-- Preparing a function that is not described begins with the root of its
body. -/
theorem answer_prepare_of_silent {context : FunctionContext}
    (hsilent : context.mode = .silent) (tracker : Tracker) :
    (prepare context).answer tracker =
      (pushRoot context.body.rootPlace).answer tracker := by
  simp only [prepare, hsilent]
  rfl

/-- Checking links changes nothing, whatever it finds. -/
theorem answer_checkLinks (index : Nat) (tracker : Tracker) :
    (checkLinks index).answer tracker =
      ((tracker.arena.nearest (fun _ => (none : Option Unit)) none index).map fun _ => (),
        tracker) := by
  simp only [checkLinks, Action.answer_bind, Action.answer_get, Action.answer_ofExcept]
  cases tracker.arena.nearest (fun _ => (none : Option Unit)) none index <;> rfl

end Tracker

end DebugInfo
