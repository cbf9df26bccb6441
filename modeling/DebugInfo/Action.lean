import DebugInfo.Failure

/-!
Work on a state that can fail half-way. A failure does not undo what was done
before it, so the state that is left counts as much as the answer, and `answer`
gives both. The lemmas say how `answer` goes through the building blocks of an
action, and how what holds of each block, however it ends, holds of the whole.
-/

namespace DebugInfo

/-- Work on a state `σ` that gives an `α` or fails, and in either case leaves a
state. -/
abbrev Action (σ α : Type) := EStateM Failure σ α

namespace Action

variable {σ α β : Type}

/-- What an action gives, and the state it leaves. -/
def answer (action : Action σ α) (state : σ) : Except Failure α × σ :=
  match action.run state with
  | .ok value next => (.ok value, next)
  | .error failure next => (.error failure, next)

/-- A computation that does not touch the state. -/
def ofExcept : Except Failure α → Action σ α
  | .ok value => pure value
  | .error failure => throw failure

/-- Work on a state by a function that also says how it went. -/
def ofStep (step : σ → Except Failure α × σ) : Action σ α := fun state =>
  match step state with
  | (.ok value, next) => .ok value next
  | (.error failure, next) => .error failure next

@[simp] theorem answer_pure (value : α) (state : σ) :
    answer (pure value : Action σ α) state = (.ok value, state) := rfl

@[simp] theorem answer_get (state : σ) :
    answer (get : Action σ σ) state = (.ok state, state) := rfl

@[simp] theorem answer_modify (change : σ → σ) (state : σ) :
    answer (modify change : Action σ Unit) state = (.ok (), change state) := rfl

@[simp] theorem answer_ofExcept (result : Except Failure α) (state : σ) :
    answer (ofExcept result : Action σ α) state = (result, state) := by
  cases result <;> rfl

@[simp] theorem answer_ofStep (step : σ → Except Failure α × σ) (state : σ) :
    answer (ofStep step) state = step state := by
  cases hstep : step state with
  | mk result next => cases result <;> simp [answer, ofStep, EStateM.run, hstep]

/-- The second action runs only if the first succeeds, on the state it left. -/
theorem answer_bind (first : Action σ α) (second : α → Action σ β) (state : σ) :
    answer (first >>= second) state =
      match answer first state with
      | (.ok value, next) => answer (second value) next
      | (.error failure, next) => (.error failure, next) := by
  simp only [answer, EStateM.run, bind, EStateM.bind]
  cases first state <;> rfl

/-- Reading the state leaves what is done next. -/
theorem answer_get_bind (next : σ → Action σ β) (state : σ) :
    answer (get >>= next) state = answer (next state) state := rfl

theorem answer_ofExcept_bind (result : Except Failure α) (next : α → Action σ β) (state : σ) :
    answer (ofExcept result >>= next) state =
      match result with
      | .ok value => answer (next value) state
      | .error failure => (.error failure, state) := by
  cases result <;> rfl

/-- Work on what an action gives keeps the state that it leaves. -/
theorem answer_bind_pure (action : Action σ α) (change : α → β) (state : σ) :
    answer (action >>= fun value => pure (change value)) state =
      ((answer action state).1.map change, (answer action state).2) := by
  rw [answer_bind]
  cases answer action state with
  | mk result next => cases result <;> rfl

/-- Work on what was given does not change whether it was. -/
@[simp] theorem isOk_map (change : α → β) (result : Except Failure α) :
    (result.map change).isOk = result.isOk := by
  cases result <;> rfl

theorem exists_of_isOk {answered : Except Failure α × σ} (hok : answered.1.isOk = true) :
    ∃ value, answered = (.ok value, answered.2) := by
  obtain ⟨result, next⟩ := answered
  cases result with
  | error failure => cases hok
  | ok value => exact ⟨value, rfl⟩

@[simp] theorem answer_map (change : α → β) (action : Action σ α) (state : σ) :
    answer (change <$> action) state =
      ((answer action state).1.map change, (answer action state).2) := by
  rw [map_eq_pure_bind]
  exact answer_bind_pure action change state

/-- Where two actions in a row succeed, both do. -/
theorem exists_of_bind_ok {first : Action σ α} {second : α → Action σ β} {state next : σ}
    {value : β} (hanswer : (first >>= second).answer state = (.ok value, next)) :
    ∃ between middle, first.answer state = (.ok between, middle) ∧
      (second between).answer middle = (.ok value, next) := by
  rw [answer_bind] at hanswer
  cases hfirst : first.answer state with
  | mk result middle =>
      rw [hfirst] at hanswer
      cases result with
      | error failure => cases hanswer
      | ok between => exact ⟨between, middle, rfl, hanswer⟩

/-- What two actions in a row do to a state adds up, also where the second does not run. -/
theorem bind_relates (relation : σ → σ → Prop)
    (htrans : ∀ {before middle after}, relation before middle → relation middle after →
      relation before after)
    {first : Action σ α} {second : α → Action σ β} {state : σ}
    (hfirst : relation state (first.answer state).2)
    (hsecond : ∀ value next, first.answer state = (.ok value, next) →
      relation next ((second value).answer next).2) :
    relation state ((first >>= second).answer state).2 := by
  rw [answer_bind]
  cases hanswer : first.answer state with
  | mk result next =>
      rw [hanswer] at hfirst
      cases result with
      | error failure => exact hfirst
      | ok value => exact htrans hfirst (hsecond value next hanswer)

section Keeps

variable {γ : Type} {view : σ → γ}

/-- Whatever it gives, an action does not change what is seen of the state. -/
def Keeps (view : σ → γ) (action : Action σ α) : Prop :=
  ∀ state, view (action.answer state).2 = view state

theorem keeps_pure (view : σ → γ) (value : α) : Keeps view (pure value : Action σ α) :=
  fun _ => rfl

theorem keeps_throw (view : σ → γ) (failure : Failure) :
    Keeps view (throw failure : Action σ α) :=
  fun _ => rfl

theorem keeps_get (view : σ → γ) : Keeps view (get : Action σ σ) := fun _ => rfl

theorem keeps_modify {change : σ → σ} (hchange : ∀ state, view (change state) = view state) :
    Keeps view (modify change : Action σ Unit) := hchange

theorem keeps_ofExcept (view : σ → γ) (result : Except Failure α) :
    Keeps view (ofExcept result : Action σ α) := by
  intro state
  rw [answer_ofExcept]

theorem Keeps.bind {first : Action σ α} {second : α → Action σ β} (hfirst : Keeps view first)
    (hsecond : ∀ value, Keeps view (second value)) : Keeps view (first >>= second) := fun state =>
  bind_relates (fun before after => view after = view before)
    (fun hbefore hafter => hafter.trans hbefore) (hfirst state)
    fun value next _ => hsecond value next

theorem Keeps.forM {items : List α} {work : α → Action σ Unit}
    (hwork : ∀ item, Keeps view (work item)) : Keeps view (items.forM work) := by
  induction items with
  | nil => exact keeps_pure view ()
  | cons item items ih => exact (hwork item).bind fun _ => ih

end Keeps

end Action

end DebugInfo
