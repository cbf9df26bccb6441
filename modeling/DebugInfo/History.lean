/-!
Runs of requests. A step answers one request on a state and leaves a state;
`trail` lists what a whole run answers and leaves, step by step, and `after` is
the state that it ends in. Both are taken apart at any point of the run.
-/

namespace DebugInfo.History

variable {σ ρ α : Type}

/-- What each request of a run is answered, with the state it leaves. -/
def trail (step : σ → ρ → α × σ) (state : σ) : List ρ → List (α × σ)
  | [] => []
  | request :: requests =>
      let answered := step state request
      answered :: trail step answered.2 requests

/-- The state after a run. -/
def after (step : σ → ρ → α × σ) (state : σ) (requests : List ρ) : σ :=
  requests.foldl (fun current request => (step current request).2) state

@[simp] theorem after_nil (step : σ → ρ → α × σ) (state : σ) :
    after step state [] = state := rfl

@[simp] theorem after_cons (step : σ → ρ → α × σ) (state : σ) (request : ρ)
    (requests : List ρ) :
    after step state (request :: requests) = after step (step state request).2 requests := rfl

theorem after_append (step : σ → ρ → α × σ) (state : σ) (first second : List ρ) :
    after step state (first ++ second) = after step (after step state first) second := by
  simp [after]

theorem trail_append (step : σ → ρ → α × σ) (state : σ) (first second : List ρ) :
    trail step state (first ++ second) =
      trail step state first ++ trail step (after step state first) second := by
  induction first generalizing state with
  | nil => rfl
  | cons request requests ih => simp [trail, ih]

/-- A request of a run is answered on the state that those before it left. -/
theorem getElem?_trail (step : σ → ρ → α × σ) (state : σ) (requests : List ρ)
    (position : Nat) :
    (trail step state requests)[position]? =
      requests[position]?.map (step (after step state (requests.take position))) := by
  induction requests generalizing state position with
  | nil => rfl
  | cons request requests ih =>
      cases position with
      | zero => rfl
      | succ position => exact ih (step state request).2 position

/-- What every step keeps, every run keeps. -/
theorem after_induction {step : σ → ρ → α × σ} {invariant : σ → Prop}
    (hstep : ∀ state request, invariant state → invariant (step state request).2)
    {state : σ} (hstate : invariant state) (requests : List ρ) :
    invariant (after step state requests) := by
  induction requests generalizing state with
  | nil => exact hstate
  | cons request requests ih => exact ih (hstep state request hstate)

end DebugInfo.History
