import DebugInfo.Proofs.Opening

/-!
All that following the instructions to one of them can do while functions are
not described. Either there is no such instruction and nothing changes, or
closing stops at a scope that ends outside the body and only the stack is cut,
or every finished scope is closed, the places that start there are opened and
the position moves. `reached` is the tracker of the last case.
-/

namespace DebugInfo.Tracker

/-- What is left open when closing is done, and how closing went. -/
def closing (tracker : Tracker) (body : Body) (offset : Nat) :
    Except Failure Unit × List Nat :=
  closeFinished (tracker.isFinished body offset) tracker.stack

/-- Whether a scope with a source is finished is told by its last instruction. -/
theorem isFinished_of_place {tracker : Tracker} {body : Body} {scope : Nat} {place : Place}
    (hplace : tracker.arena.place? scope = some place) (offset : Nat) :
    tracker.isFinished body offset scope =
      (body.instruction place.node.stop).map fun last => decide (last.offset < offset) := by
  obtain ⟨found, hscope, hsource⟩ := Option.bind_eq_some_iff.mp hplace
  unfold isFinished
  rw [Arena.scope, hscope, Failure.ofNone_some]
  simp only [hsource, bind, Except.bind]
  cases body.instruction place.node.stop <;> rfl

/-- Open all places that start at an instruction and move to its sequence point,
if it has one. The openings move to that point too, or to no place in the source
text. -/
def reached (tracker : Tracker) (instruction : Instruction) (index : Nat) : Tracker :=
  let opened := (tracker.opening index).foldl (nest (.ofPoint instruction.point)) tracker
  { opened with
    position := if instruction.point.isSome then .ofPoint instruction.point
      else opened.position }

theorem openPlaces_reached {tracker : Tracker}
    (hstack : ∀ scope ∈ tracker.stack, scope < tracker.arena.size)
    (instruction : Instruction) (index : Nat) :
    (tracker.reached instruction index).openPlaces =
      tracker.openPlaces ++ (tracker.opening index).map some :=
  openPlaces_foldl_nest (.ofPoint instruction.point) (tracker.opening index) hstack

theorem madePlaces_reached (tracker : Tracker) (instruction : Instruction) (index : Nat) :
    (tracker.reached instruction index).madePlaces =
      tracker.madePlaces ++ (tracker.opening index).map some :=
  madePlaces_foldl_nest (.ofPoint instruction.point) (tracker.opening index) tracker

section

variable {context : FunctionContext} {root : Option Place} {tracker : Tracker}

theorem Nested.closing (hnested : tracker.Nested root) (body : Body) (offset : Nat) :
    Nested root { tracker with stack := (tracker.closing body offset).2 } :=
  Arena.Nested.suffix hnested (closeFinished_suffix _ _)
    (closeFinished_ne_nil _ hnested.ne_nil)

theorem Nested.of_closing (hnested : tracker.Nested root) {body : Body} {offset : Nat}
    {result : Except Failure Unit} {stack : List Nat}
    (hclosing : tracker.closing body offset = (result, stack)) :
    Nested root { tracker with stack } := by
  have hclosed := hnested.closing body offset
  rwa [hclosing] at hclosed

/-- The part of an advance that comes after closing. -/
def openAt (context : FunctionContext) (instruction : Instruction) (index : Nat) :
    Action Tracker Unit := do
  let tracker ← get
  (tracker.opening index).forM (openPlace context)
  if instruction.point.isSome then
    let scope ← top
    locate instruction.point scope

/-- An advance in three parts: find the instruction, close, open. -/
theorem answer_advance (context : FunctionContext) (index : Nat) (tracker : Tracker) :
    (advance context index).answer tracker =
      match context.body.instruction index with
      | .error failure => (.error failure, tracker)
      | .ok instruction =>
          match tracker.closing context.body instruction.offset with
          | (.error failure, stack) => (.error failure, { tracker with stack })
          | (.ok (), stack) =>
              (openAt context instruction index).answer { tracker with stack } := by
  simp only [advance, Action.answer_bind, Action.answer_ofExcept, answer_leave]
  cases context.body.instruction index with
  | error failure => rfl
  | ok instruction =>
      simp only [closing]
      cases closeFinished (tracker.isFinished context.body instruction.offset)
        tracker.stack with
      | mk result stack =>
          cases result with
          | error failure => rfl
          | ok _ => simp only [openAt, Action.answer_bind]

theorem openAt_keeps (context : FunctionContext) (instruction : Instruction) (index : Nat)
    (tracker : Tracker) :
    ∃ position, ((openAt context instruction index).answer tracker).2 =
      { (((tracker.opening index).forM (openPlace context)).answer tracker).2 with
        position } := by
  have hkeep (next : Tracker) : ∃ position, next = { next with position } :=
    ⟨next.position, rfl⟩
  simp only [openAt, Action.answer_bind, Action.answer_get]
  cases ((tracker.opening index).forM (openPlace context)).answer tracker with
  | mk result next =>
      cases result with
      | error failure => exact hkeep next
      | ok _ =>
          simp only
          split
          · simp only [top, locate, Action.answer_bind, Action.answer_get,
              Action.answer_ofExcept]
            cases Failure.noRoot.ofNone next.stack.head? with
            | error failure => exact hkeep next
            | ok scope =>
                simp only [answer_checkLinks]
                cases next.arena.nearest (fun _ => (none : Option Unit)) none scope with
                | error failure => exact hkeep next
                | ok found => exact ⟨.ofPoint instruction.point, rfl⟩
          · exact hkeep next

theorem extends_advance (context : FunctionContext) (index : Nat) (tracker : Tracker) :
    Extends tracker ((advance context index).answer tracker).2 := by
  rw [answer_advance]
  cases context.body.instruction index with
  | error failure => exact .refl tracker
  | ok instruction =>
      simp only
      cases tracker.closing context.body instruction.offset with
      | mk result stack =>
          cases result with
          | error failure => exact .refl tracker
          | ok _ =>
              obtain ⟨position, hposition⟩ :=
                openAt_keeps context instruction index { tracker with stack }
              simp only [hposition]
              exact extends_forM_openPlace context _ { tracker with stack }

theorem Nested.forM_opening (hnested : tracker.Nested root) {index : Nat}
    (hsmall : (((tracker.opening index).forM (openPlace context)).answer
      tracker).2.arena.size ≤ 2 ^ 31) :
    Nested root (((tracker.opening index).forM (openPlace context)).answer tracker).2 := by
  rw [opening_eq] at hsmall ⊢
  cases hplace : tracker.innermost? with
  | none => exact hnested
  | some place =>
      rw [hplace] at hsmall
      exact hnested.forM_openPlace hplace (place.isChain_descent index) hsmall

theorem startPoint_of_mem_descent {body : Body} {instruction : Instruction} {index : Nat}
    (hinstruction : body.instruction index = .ok instruction) {place : Place} :
    ∀ inner ∈ place.descent index, body.startPoint inner.node = .ok instruction.point := by
  intro inner hinner
  rw [Body.startPoint, Place.start_of_mem_descent hinner, hinstruction]
  rfl

theorem innermost?_of_mem_opening {index : Nat} {inner : Place}
    (hinner : inner ∈ tracker.opening index) :
    ∃ place, tracker.innermost? = some place ∧ tracker.opening index = place.descent index := by
  rw [opening_eq] at hinner ⊢
  cases hplace : tracker.innermost? with
  | none => rw [hplace] at hinner; cases hinner
  | some place => exact ⟨place, rfl, rfl⟩

theorem start_of_mem_opening {index : Nat} {inner : Place}
    (hinner : inner ∈ tracker.opening index) : inner.node.start = index := by
  obtain ⟨place, -, hdescent⟩ := innermost?_of_mem_opening hinner
  rw [hdescent] at hinner
  exact Place.start_of_mem_descent hinner

theorem startPoint_of_mem_opening {body : Body} {instruction : Instruction} {index : Nat}
    (hinstruction : body.instruction index = .ok instruction) {inner : Place}
    (hinner : inner ∈ tracker.opening index) :
    body.startPoint inner.node = .ok instruction.point := by
  obtain ⟨place, -, hdescent⟩ := innermost?_of_mem_opening hinner
  rw [hdescent] at hinner
  exact startPoint_of_mem_descent hinstruction inner hinner

/-- Where the open scopes are nested, the places that start at an instruction
are opened without failure, if afterwards every index still fits into a link. -/
theorem Nested.answer_forM_opening (hsilent : context.mode.isDescribing = false)
    (hnested : tracker.Nested root) {instruction : Instruction} {index : Nat}
    (hinstruction : context.body.instruction index = .ok instruction)
    (hsmall : (((tracker.opening index).forM (openPlace context)).answer
      tracker).2.arena.size ≤ 2 ^ 31) :
    ((tracker.opening index).forM (openPlace context)).answer tracker =
        (.ok (), (tracker.opening index).foldl
          (Tracker.nest (.ofPoint instruction.point)) tracker) ∧
      Nested root ((tracker.opening index).foldl
        (Tracker.nest (.ofPoint instruction.point)) tracker) := by
  cases hplace : tracker.innermost? with
  | none =>
      have hopening : tracker.opening index = [] := by rw [opening_eq, hplace]
      rw [hopening]
      exact ⟨rfl, hnested⟩
  | some place =>
      have hopening : tracker.opening index = place.descent index := by
        rw [opening_eq, hplace]
      rw [hopening] at hsmall ⊢
      have hchain := place.isChain_descent index
      have hopened := hnested.answer_forM_openPlace hsilent hplace hchain
        (startPoint_of_mem_descent hinstruction) hsmall
      refine ⟨hopened, hnested.foldl_nest hplace hchain ?_ _⟩
      rw [hopened, size_foldl_nest] at hsmall
      exact hsmall

/-- Where more places start at an instruction than fit into links, they are opened up to the
first that does not. -/
theorem Nested.openAt_overruns (hsilent : context.mode.isDescribing = false)
    (hnested : tracker.Nested root) {instruction : Instruction} {index : Nat}
    (hinstruction : context.body.instruction index = .ok instruction)
    (hsmall : tracker.arena.size ≤ 2 ^ 31)
    (hlarge : 2 ^ 31 < tracker.arena.size + (tracker.opening index).length) :
    ∃ opened stop, opened ++ [stop] <+: tracker.opening index ∧
      tracker.arena.size + opened.length = 2 ^ 31 ∧
      (openAt context instruction index).answer tracker =
        (.error .noScope, tracker.overrun (.ofPoint instruction.point) opened stop) := by
  cases hplace : tracker.innermost? with
  | none =>
      rw [opening_eq, hplace] at hlarge
      simp only [List.length_nil] at hlarge
      omega
  | some place =>
      have hopening : tracker.opening index = place.descent index := by
        rw [opening_eq, hplace]
      rw [hopening] at hlarge ⊢
      obtain ⟨opened, stop, hopens, hfull, hfails⟩ :=
        hnested.forM_openPlace_fails hsilent hplace (place.isChain_descent index)
          (startPoint_of_mem_descent hinstruction) hsmall hlarge
      refine ⟨opened, stop, hopens, hfull, ?_⟩
      simp only [openAt, Action.answer_bind, Action.answer_get, hopening, hfails]

theorem Nested.answer_openAt (hsilent : context.mode.isDescribing = false)
    (hnested : tracker.Nested root) {instruction : Instruction} {index : Nat}
    (hinstruction : context.body.instruction index = .ok instruction)
    (hsmall : ((openAt context instruction index).answer tracker).2.arena.size ≤ 2 ^ 31) :
    (openAt context instruction index).answer tracker =
        (.ok (), tracker.reached instruction index) ∧
      Nested root (tracker.reached instruction index) := by
  obtain ⟨position, hposition⟩ := openAt_keeps context instruction index tracker
  rw [hposition] at hsmall
  obtain ⟨hopened, hreached⟩ := hnested.answer_forM_opening hsilent hinstruction hsmall
  rw [hopened] at hsmall
  refine ⟨?_, hreached⟩
  obtain ⟨scope, outer, hstack⟩ := List.exists_cons_of_ne_nil hreached.ne_nil
  have hlocate := hreached.answer_locate hstack hsmall instruction.point
  simp only [openAt, Action.answer_bind, Action.answer_get, hopened, reached]
  split
  · simp only [top, Action.answer_bind, Action.answer_get, Action.answer_ofExcept, hstack,
      List.head?_cons, Failure.ofNone_some, hlocate]
  · rfl

/-- All that an advance can do. -/
theorem Nested.advance_cases (hsilent : context.mode.isDescribing = false)
    (hnested : tracker.Nested root) (index : Nat)
    (hsmall : ((advance context index).answer tracker).2.arena.size ≤ 2 ^ 31) :
    (∃ failure, context.body.instruction index = .error failure ∧
      (advance context index).answer tracker = (.error failure, tracker)) ∨
    (∃ instruction failure stack, context.body.instruction index = .ok instruction ∧
      tracker.closing context.body instruction.offset = (.error failure, stack) ∧
      (advance context index).answer tracker = (.error failure, { tracker with stack })) ∨
    (∃ instruction stack, context.body.instruction index = .ok instruction ∧
      tracker.closing context.body instruction.offset = (.ok (), stack) ∧
      (advance context index).answer tracker =
        (.ok (), Tracker.reached { tracker with stack } instruction index) ∧
      Nested root (Tracker.reached { tracker with stack } instruction index)) := by
  have hadvance := answer_advance context index tracker
  rw [hadvance] at hsmall
  cases hinstruction : context.body.instruction index with
  | error failure =>
      simp only [hinstruction] at hadvance
      exact Or.inl ⟨failure, rfl, hadvance⟩
  | ok instruction =>
      cases hclosing : tracker.closing context.body instruction.offset with
      | mk result stack =>
          have hclosed := hnested.of_closing hclosing
          simp only [hinstruction, hclosing] at hadvance hsmall
          cases result with
          | error failure =>
              exact Or.inr (Or.inl ⟨instruction, failure, stack, rfl, hclosing, hadvance⟩)
          | ok _ =>
              obtain ⟨hopened, hreached⟩ := hclosed.answer_openAt hsilent hinstruction hsmall
              exact Or.inr (Or.inr
                ⟨instruction, stack, rfl, hclosing, hadvance.trans hopened, hreached⟩)

/-- What outlasts making a scope inside an earlier one, for a place directly inside that of
the other, outlasts a chain of openings. -/
theorem Nested.foldl_nest_induction {kept : Arena → Prop}
    (hpush : ∀ (arena : Arena) (parent : Nat) (place child : Place),
      arena.place? parent = some place → place.HasChild child → kept arena →
        kept (Array.push arena ⟨some child, (parent : Int)⟩))
    (hnested : tracker.Nested root) (hstart : kept tracker.arena) {place : Place}
    {chain : List Place} (hplace : tracker.innermost? = some place)
    (hchain : (place :: chain).IsChain Place.HasChild)
    (hsmall : tracker.arena.size + chain.length ≤ 2 ^ 31) (position : Position) :
    kept (chain.foldl (Tracker.nest position) tracker).arena := by
  induction chain generalizing tracker place with
  | nil => exact hstart
  | cons child rest ih =>
      obtain ⟨hchild, hrest⟩ := List.isChain_cons_cons.mp hchain
      rw [List.length_cons] at hsmall
      have hroom : tracker.arena.size ≤ 2 ^ 31 := by omega
      obtain ⟨top, outer, hstack⟩ := List.exists_cons_of_ne_nil hnested.ne_nil
      have htop : tracker.arena.place? top = some place := by
        simpa [innermost?, hstack] using hplace
      have hlink : Link.ofIndex top = (top : Int) :=
        Link.ofIndex_of_lt (Nat.lt_of_lt_of_le (Arena.lt_size_of_place? htop) hroom)
      have hopened : kept (tracker.nest position child).arena := by
        simp only [Tracker.nest, hstack, List.headD_cons, hlink]
        exact hpush tracker.arena top place child htop hchild hstart
      apply ih (hnested.nest hplace hchild hroom position) hopened
        (innermost?_nest _ _ _) hrest
      rw [size_nest]
      omega

/-- And it outlasts an advance, which makes scopes in no other way. -/
theorem Nested.advance_induction {kept : Arena → Prop}
    (hpush : ∀ (arena : Arena) (parent : Nat) (place child : Place),
      arena.place? parent = some place → place.HasChild child → kept arena →
        kept (Array.push arena ⟨some child, (parent : Int)⟩))
    (hsilent : context.mode.isDescribing = false) (hnested : tracker.Nested root)
    (hstart : kept tracker.arena) (index : Nat)
    (hsmall : ((Tracker.advance context index).answer tracker).2.arena.size ≤ 2 ^ 31) :
    kept ((Tracker.advance context index).answer tracker).2.arena := by
  rcases hnested.advance_cases hsilent index hsmall with ⟨failure, -, hadvance⟩ |
    ⟨instruction, failure, stack, -, -, hadvance⟩ |
    ⟨instruction, stack, -, hclosing, hadvance, -⟩
  · rw [hadvance]
    exact hstart
  · rw [hadvance]
    exact hstart
  · have hleft := hnested.of_closing hclosing
    rw [hadvance] at hsmall ⊢
    simp only [reached] at hsmall ⊢
    rw [size_foldl_nest] at hsmall
    cases hplace : innermost? { tracker with stack } with
    | none =>
        simp only [opening_eq, hplace, List.foldl_nil]
        exact hstart
    | some place =>
        have hopening : opening { tracker with stack } index = place.descent index := by
          rw [opening_eq, hplace]
        rw [hopening] at hsmall ⊢
        exact hleft.foldl_nest_induction hpush hstart hplace (place.isChain_descent index)
          hsmall _

/-- However far it comes, an advance keeps the open scopes nested. -/
theorem Nested.advance (hnested : tracker.Nested root) (index : Nat)
    (hsmall : ((Tracker.advance context index).answer tracker).2.arena.size ≤ 2 ^ 31) :
    Nested root ((Tracker.advance context index).answer tracker).2 := by
  rw [answer_advance] at hsmall ⊢
  cases hinstruction : context.body.instruction index with
  | error failure => exact hnested
  | ok instruction =>
      simp only [hinstruction] at hsmall ⊢
      cases hclosing : tracker.closing context.body instruction.offset with
      | mk result stack =>
          have hclosed := hnested.of_closing hclosing
          rw [hclosing] at hsmall
          cases result with
          | error failure => exact hclosed
          | ok _ =>
              simp only at hclosed hsmall ⊢
              obtain ⟨position, hposition⟩ :=
                openAt_keeps context instruction index { tracker with stack }
              rw [hposition] at hsmall ⊢
              exact hclosed.forM_opening hsmall

end

end DebugInfo.Tracker
