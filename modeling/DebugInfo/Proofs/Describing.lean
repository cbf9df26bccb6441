import DebugInfo.Proofs.Modes

/-!
Tracking scopes with functions described and with functions not described. Where
nothing is missing that a description reads, a request does the same in both
modes. A scope that starts outside the body is not made. A variable that names no
local stops a request behind the scope that declares it, which by then is entered
and, in an advance, open. In a body whose scopes below the root start at no
sequence point there is no third difference.
-/

namespace DebugInfo.Tracker

/-- All requests but preparing a function, which needs a descriptor at once, and
making a second scope for the root of the tree. -/
def Request.TracksScopes : Request → Prop
  | .prepare => False
  | .create _ path => path ≠ []
  | _ => True

/-- The sources of the scopes that a request entered if it left the tracker `next`. -/
def entered (tracker next : Tracker) : Request → List (Option Place)
  | .enter index => [tracker.arena.place? index]
  | .advance _ => next.madePlaces.drop tracker.arena.size
  | _ => []

/-- What comes of a request while functions are not described, and next to it what
comes of the same request while they are. -/
inductive Comparison (context : FunctionContext) (tracker : Tracker) :
    Request → Except Failure Answer × Tracker → Except Failure Answer × Tracker → Prop where
  /-- Nothing is missing that a description would read. -/
  | same {request : Request} {reply : Except Failure Answer × Tracker}
      (hinside : ∀ parent path place, request = .create parent path →
        context.body.place path = .ok place →
          place.node.start < context.body.instructions.size)
      (hknown : reply.1.isOk = true → ∀ place, some place ∈ entered tracker reply.2 request →
        ¬ place.node.NamesUnknown context.locals) :
      Comparison context tracker request reply reply
  /-- The scope to be made starts outside the body. -/
  | startsOutside {parent : Nat} {path : List Nat} {place : Place}
      (hplace : context.body.place path = .ok place)
      (hstart : context.body.instructions.size ≤ place.node.start) :
      Comparison context tracker (.create parent path)
        (.ok (.index tracker.arena.size),
          { tracker with arena := tracker.arena.push ⟨some place, Link.ofIndex parent⟩ })
        (.error .noInstruction, tracker)
  /-- The scope to be entered has a variable of an unknown local. -/
  | entersUnknown {index : Nat} {place : Place} {next : Tracker}
      (hplace : tracker.arena.place? index = some place)
      (hunknown : place.node.NamesUnknown context.locals) :
      Comparison context tracker (.enter index) (.ok .done, next) (.error .noLocal, next)
  /-- A scope that opens at the instruction has a variable of an unknown local. It is
  made, opened and entered like those before it, and nothing opens inside it. -/
  | opensUnknown {index : Nat} {instruction : Instruction} {stack : List Nat}
      {known rest : List Place} {stop : Place}
      (hinstruction : context.body.instruction index = .ok instruction)
      (hclosing : tracker.closing context.body instruction.offset = (.ok (), stack))
      (hopening : opening { tracker with stack } index = known ++ stop :: rest)
      (hknown : ∀ inner ∈ known, ¬ inner.node.NamesUnknown context.locals)
      (hunknown : stop.node.NamesUnknown context.locals) :
      Comparison context tracker (.advance index)
        (.ok .done, (known ++ stop :: rest).foldl (nest ⟨0, 0⟩) { tracker with stack })
        (.error .noLocal, (known ++ [stop]).foldl (nest ⟨0, 0⟩) { tracker with stack })

section Requests

variable {context : FunctionContext} {tracker : Tracker}

/-- Describing a function never makes a scope, and never leaves one open, that would
not be there if it were not described. -/
theorem Comparison.within {request : Request}
    {silent described : Except Failure Answer × Tracker}
    (hcomparison : Comparison context tracker request silent described) :
    Extends described.2 silent.2 ∧ described.2.stack <:+ silent.2.stack := by
  cases hcomparison with
  | same => exact ⟨.refl _, List.suffix_refl _⟩
  | startsOutside => exact ⟨by simp [Extends], List.suffix_refl _⟩
  | entersUnknown => exact ⟨.refl _, List.suffix_refl _⟩
  | @opensUnknown _ _ stack known rest stop =>
      have hrest := within_foldl_nest ⟨0, 0⟩ rest
        ((known ++ [stop]).foldl (nest ⟨0, 0⟩) { tracker with stack })
      rw [← List.foldl_append, List.append_assoc, List.singleton_append] at hrest
      exact hrest

theorem step_enter (context : FunctionContext) (index : Nat) (tracker : Tracker) :
    step context tracker (.enter index) =
      (((Tracker.enter context index).answer tracker).1.map fun _ => .done,
        ((Tracker.enter context index).answer tracker).2) :=
  Action.answer_bind_pure (Tracker.enter context index) (fun _ => Answer.done) tracker

theorem step_create (context : FunctionContext) (parent : Nat) {path : List Nat}
    {place : Place} (hplace : context.body.place path = .ok place) (tracker : Tracker) :
    step context tracker (.create parent path) =
      (((create context parent place).answer tracker).1.map Answer.index,
        ((create context parent place).answer tracker).2) := by
  rw [step, perform, Action.answer_bind, Action.answer_ofExcept, hplace]
  exact Action.answer_bind_pure (create context parent place) Answer.index tracker

theorem comparison_create (hunmarked : context.body.Unmarked)
    (declaringClass : Except Failure Unit) (tracker : Tracker) (parent : Nat)
    {path : List Nat} (hpath : path ≠ []) :
    Comparison context tracker (.create parent path)
      (step (context.inMode .silent) tracker (.create parent path))
      (step (context.inMode (.describing declaringClass)) tracker (.create parent path)) := by
  cases hplace : context.body.place path with
  | error failure =>
      have hfails (mode : Mode) : step (context.inMode mode) tracker (.create parent path) =
          (.error failure, tracker) := by
        simp only [step, perform, Action.answer_bind, Action.answer_ofExcept,
          FunctionContext.body_inMode, hplace]
      rw [hfails, hfails]
      refine .same ?_ ?_
      · rintro _ _ place ⟨⟩ hfound
        rw [hplace] at hfound
        cases hfound
      · rintro ⟨⟩
  | ok place =>
      have hinner := Body.mem_innerPlaces_of_place hpath hplace
      rw [step_create (context.inMode .silent) parent hplace,
        step_create (context.inMode (.describing declaringClass)) parent hplace,
        answer_create_of_silent rfl]
      rcases Nat.lt_or_ge place.node.start context.body.instructions.size with
        hinside | houtside
      · have hpoint := hunmarked.startPoint_eq hinner hinside
        rw [answer_create_of_unmarked hpoint]
        refine .same ?_ ?_
        · rintro _ _ other ⟨⟩ hfound
          rw [hplace] at hfound
          cases hfound
          exact hinside
        · intro _ other hother
          cases hother
      · have hfails : (create (context.inMode (.describing declaringClass)) parent
            place).answer tracker = (.error .noInstruction, tracker) := by
          have hpoint := Body.startPoint_of_le houtside
          simp only [create, Mode.isDescribing, FunctionContext.mode_inMode,
            FunctionContext.body_inMode, if_true, Action.answer_bind,
            Action.answer_ofExcept, hpoint]
        rw [hfails]
        exact .startsOutside hplace houtside

theorem comparison_enter (declaringClass : Except Failure Unit) (tracker : Tracker)
    (index : Nat) :
    Comparison context tracker (.enter index)
      (step (context.inMode .silent) tracker (.enter index))
      (step (context.inMode (.describing declaringClass)) tracker (.enter index)) := by
  rw [step_enter, step_enter, answer_enter_describing]
  cases (enter (context.inMode .silent) index).answer tracker with
  | mk result next =>
      cases result with
      | error failure => exact .same (by rintro _ _ _ ⟨⟩) (by rintro ⟨⟩)
      | ok _ =>
          cases hplace : tracker.arena.place? index with
          | none =>
              refine .same (by rintro _ _ _ ⟨⟩) ?_
              intro _ place hentered
              rw [entered, hplace] at hentered
              cases List.mem_singleton.mp hentered
          | some place =>
              by_cases hunknown : place.node.NamesUnknown context.locals
              · simp only [Option.elim_some, checkVariables_of_unknown hunknown]
                exact .entersUnknown hplace hunknown
              · simp only [Option.elim_some, checkVariables_of_known hunknown]
                refine .same (by rintro _ _ _ ⟨⟩) ?_
                intro _ other hentered
                rw [entered, hplace] at hentered
                cases List.mem_singleton.mp hentered
                exact hunknown

/-- After closing, an advance opens what starts at the instruction. -/
theorem comparison_openAt (hunmarked : context.body.Unmarked)
    (declaringClass : Except Failure Unit) {index : Nat} {instruction : Instruction}
    {stack : List Nat} (hinstruction : context.body.instruction index = .ok instruction)
    (hclosing : tracker.closing context.body instruction.offset = (.ok (), stack))
    (hbegun : Begun context.body { tracker with stack })
    (hsmall : ((openAt (context.inMode .silent) instruction index).answer
      { tracker with stack }).2.arena.size ≤ 2 ^ 31) :
    Comparison context tracker (.advance index)
      (((openAt (context.inMode .silent) instruction index).answer
          { tracker with stack }).1.map fun _ => .done,
        ((openAt (context.inMode .silent) instruction index).answer
          { tracker with stack }).2)
      (((openAt (context.inMode (.describing declaringClass)) instruction index).answer
          { tracker with stack }).1.map fun _ => .done,
        ((openAt (context.inMode (.describing declaringClass)) instruction index).answer
          { tracker with stack }).2) := by
  have hmode : (context.inMode .silent).mode.isDescribing = false := rfl
  have hsilent : (openAt (context.inMode .silent) instruction index).answer
      { tracker with stack } = (.ok (), reached { tracker with stack } instruction index) := by
    obtain ⟨root, -, hnested⟩ := hbegun
    exact (hnested.answer_openAt hmode hinstruction hsmall).1
  have hroom : tracker.arena.size + (opening { tracker with stack } index).length ≤ 2 ^ 31 := by
    rw [hsilent] at hsmall
    exact (size_foldl_nest _ _ { tracker with stack }).symm.le.trans hsmall
  rcases known_or_first_unknown context.locals (opening { tracker with stack } index) with
    hknown | ⟨known, stop, rest, hopening, hknown, hunknown⟩
  · rw [hbegun.openAt_known hunmarked declaringClass hinstruction hknown hroom, hsilent]
    refine .same (by rintro _ _ _ ⟨⟩) ?_
    -- What was entered is what was made behind the old end of the arena.
    intro _ place hentered
    have hmade := madePlaces_reached { tracker with stack } instruction index
    simp only [entered, hmade] at hentered
    rw [List.drop_left' (by simp [madePlaces])] at hentered
    obtain ⟨_, hplace, ⟨⟩⟩ := List.mem_map.mp hentered
    exact hknown place hplace
  · have hnone := hbegun.point_eq_none hunmarked hinstruction
      (hopening ▸ by simp : stop ∈ opening { tracker with stack } index)
    have hreached : reached { tracker with stack } instruction index =
        (known ++ stop :: rest).foldl (nest ⟨0, 0⟩) { tracker with stack } := by
      simp only [reached, hnone, hopening]
      rfl
    rw [hbegun.openAt_stops hunmarked declaringClass hinstruction hopening hknown hunknown
      hroom, hsilent, hreached]
    exact .opensUnknown hinstruction hclosing hopening hknown hunknown

theorem comparison_advance (hunmarked : context.body.Unmarked)
    (declaringClass : Except Failure Unit) (hbegun : Begun context.body tracker) (index : Nat)
    (hsmall : (step (context.inMode .silent) tracker (.advance index)).2.arena.size ≤ 2 ^ 31) :
    Comparison context tracker (.advance index)
      (step (context.inMode .silent) tracker (.advance index))
      (step (context.inMode (.describing declaringClass)) tracker (.advance index)) := by
  rw [step_advance, answer_advance] at hsmall
  rw [step_advance, step_advance, answer_advance, answer_advance]
  simp only [FunctionContext.body_inMode] at hsmall ⊢
  cases hinstruction : context.body.instruction index with
  | error failure => exact .same (by rintro _ _ _ ⟨⟩) (by rintro ⟨⟩)
  | ok instruction =>
      have hclosed := hbegun.closing instruction.offset
      simp only [hinstruction] at hsmall ⊢
      cases hclosing : tracker.closing context.body instruction.offset with
      | mk result stack =>
          rw [hclosing] at hclosed hsmall
          cases result with
          | error failure => exact .same (by rintro _ _ _ ⟨⟩) (by rintro ⟨⟩)
          | ok _ =>
              exact comparison_openAt hunmarked declaringClass hinstruction hclosing hclosed
                hsmall

/-- Requests that read nothing of the mode and enter nothing. -/
theorem comparison_rfl {request : Request} (reply : Except Failure Answer × Tracker)
    (hcreate : ∀ parent path, request ≠ .create parent path)
    (hentered : entered tracker reply.2 request = []) :
    Comparison context tracker request reply reply := by
  refine .same ?_ ?_
  · intro parent path _ hrequest
    exact absurd hrequest (hcreate parent path)
  · intro _ place hplace
    rw [hentered] at hplace
    cases hplace

/-- Scope tracking hardly depends on whether functions are described. Take a body in
which no scope below the root starts at a sequence point, and any tracker that a history
in either mode, or in both, leaves of a function that was begun. A request does the same
in both modes, failures included, with two exceptions: a scope that starts outside the
body is not made while functions are described, and the request stops at the first scope
it enters that has a variable of an unknown local. `Comparison` says which is the case and
what is left. Links can lead to no more than `2 ^ 31` scopes. -/
theorem describing_follows_silent (hunmarked : context.body.Unmarked) (start : Tracker)
    {first : Mode × Request} {root : Option Place}
    (hfirst : first.2.root? (context.inMode first.1) = some root)
    (earlier : List (Mode × Request)) {current : Tracker}
    (hcurrent : afterIn context start (first :: earlier) = current)
    (declaringClass : Except Failure Unit) {request : Request}
    (hrequest : request.TracksScopes)
    (hsmall : (step (context.inMode .silent) current request).2.arena.size ≤ 2 ^ 31) :
    Comparison context current request (step (context.inMode .silent) current request)
      (step (context.inMode (.describing declaringClass)) current request) := by
  cases request with
  | pushRoot bare => exact comparison_rfl _ (by simp) rfl
  | prepare => exact absurd hrequest id
  | advance index =>
      have hgrown : current.arena.size ≤
          (step (context.inMode .silent) current (.advance index)).2.arena.size :=
        (extends_step rfl current).size_le
      subst hcurrent
      have hbegun := begun_afterIn start hfirst earlier (hgrown.trans hsmall)
      exact comparison_advance hunmarked declaringClass hbegun index hsmall
  | create parent path => exact comparison_create hunmarked declaringClass current parent hrequest
  | enter index => exact comparison_enter declaringClass current index
  | parent index => exact comparison_rfl _ (by simp) rfl
  | nearest index described subprogram => exact comparison_rfl _ (by simp) rfl

end Requests

/-- Three scopes that start together, of which the second has a variable that names the
second of one local. -/
def unknownTree : ScopeNode :=
  ⟨0, 1, [], [⟨0, 1, [⟨0, "a"⟩], [⟨0, 1, [⟨0, "b"⟩, ⟨1, "c"⟩], [⟨0, 0, [], []⟩]⟩]⟩]⟩

def unknownLocal : FunctionContext where
  body := ⟨#[⟨0, none⟩, ⟨2, some ⟨"", 3, 5⟩⟩], some unknownTree⟩
  locals := #[0]
  mode := .silent

theorem unmarked_unknownLocal : unknownLocal.body.Unmarked := by
  unfold Body.Unmarked
  decide +kernel

/-- Begin without describing the function, and enter its root while describing it. -/
def bothModes : Tracker :=
  afterIn unknownLocal initial [(.silent, .pushRoot false), (.describing (.ok ()), .enter 0)]

/-- Describing the function, the advance fails at the unknown local. The scope with it is open
by then, the scope inside it is not. -/
theorem comparison_unknownLocal :
    Comparison unknownLocal bothModes (.advance 0)
        (step (unknownLocal.inMode .silent) bothModes (.advance 0))
        (step (unknownLocal.inMode (.describing (.ok ()))) bothModes (.advance 0)) ∧
      (step (unknownLocal.inMode .silent) bothModes (.advance 0)).1 = .ok .done ∧
      (step (unknownLocal.inMode .silent) bothModes (.advance 0)).2.stack = [3, 2, 1, 0] ∧
      (step (unknownLocal.inMode (.describing (.ok ()))) bothModes (.advance 0)).1 =
        .error .noLocal ∧
      (step (unknownLocal.inMode (.describing (.ok ()))) bothModes (.advance 0)).2.stack =
        [2, 1, 0] := by
  refine ⟨?_, by decide +kernel, by decide +kernel, by decide +kernel, by decide +kernel⟩
  exact describing_follows_silent unmarked_unknownLocal initial rfl
    [(.describing (.ok ()), .enter 0)] rfl (.ok ()) trivial (by decide +kernel)

end DebugInfo.Tracker
