import DebugInfo.Proofs.Lockstep

/-!
Where the source position comes from, while functions are not described. A visit
moves the position if its instruction has a sequence point or if a scope opens at
it, and then it moves to that sequence point, however many scopes open and whatever
was closed before. Every other visit, a failed one among them, leaves the position
alone. So after a walk the position is that of the last visit that moved it.

Nothing is asked of the body, and the visits may come in any order.
-/

namespace DebugInfo

/-- The sequence point of an instruction, if there is one. -/
def Body.pointAt? (body : Body) (index : Nat) : Option SequencePoint :=
  body.instructions[index]?.bind Instruction.point

theorem Body.pointAt?_eq {body : Body} {index : Nat} {instruction : Instruction}
    (hinstruction : body.instruction index = .ok instruction) :
    body.pointAt? index = instruction.point := by
  unfold Body.instruction at hinstruction
  unfold Body.pointAt?
  cases hfound : body.instructions[index]? with
  | none => rw [hfound] at hinstruction; cases hinstruction
  | some found => rw [hfound] at hinstruction; cases hinstruction; rfl

namespace Tracker

/-- A visit moves the position: it succeeds, and its instruction has a sequence point or
a scope is open after it that was not open before. -/
def Moves (context : FunctionContext) (tracker : Tracker) (index : Nat) : Prop :=
  (step context tracker (.advance index)).1.isOk = true ∧
    ((context.body.pointAt? index).isSome = true ∨
      ∃ scope ∈ (step context tracker (.advance index)).2.openScopes,
        scope ∉ tracker.openScopes)

instance (context : FunctionContext) (tracker : Tracker) (index : Nat) :
    Decidable (Moves context tracker index) :=
  inferInstanceAs (Decidable (_ ∧ (_ ∨ ∃ scope ∈ _, _)))

/-- Those of a row of visits that move the position. -/
def moving (context : FunctionContext) (tracker : Tracker) : List Nat → List Nat
  | [] => []
  | index :: rest =>
      (if Moves context tracker index then [index] else []) ++
        moving context (step context tracker (.advance index)).2 rest

theorem moving_concat (context : FunctionContext) (tracker : Tracker) (visits : List Nat)
    (index : Nat) :
    moving context tracker (visits ++ [index]) = moving context tracker visits ++
      if Moves context (after context tracker (visits.map .advance)) index then [index]
      else [] := by
  induction visits generalizing tracker with
  | nil => simp [moving, after]
  | cons first rest ih =>
      rw [List.cons_append, moving, ih, moving, List.append_assoc]
      rfl

theorem position_foldl_nest (position : Position) (chain : List Place) (tracker : Tracker) :
    (chain.foldl (nest position) tracker).position =
      if chain = [] then tracker.position else position := by
  induction chain generalizing tracker with
  | nil => rfl
  | cons place rest ih =>
      rw [List.foldl_cons, ih, if_neg (List.cons_ne_nil _ _)]
      exact ite_self _

theorem position_reached (tracker : Tracker) (instruction : Instruction) (index : Nat) :
    (tracker.reached instruction index).position =
      if instruction.point.isSome = true ∨ tracker.opening index ≠ [] then
        .ofPoint instruction.point
      else tracker.position := by
  simp only [reached, position_foldl_nest]
  by_cases hpoint : instruction.point.isSome = true
  · rw [if_pos hpoint, if_pos (Or.inl hpoint)]
  · by_cases hopening : tracker.opening index = []
    · simp [hpoint, hopening]
    · simp [hpoint, hopening]

section Steps

variable {context : FunctionContext} {root : Option Place} {tracker : Tracker}

/-- After closing, a scope opens exactly if one is open that was not open before. -/
theorem Nested.opens_iff (hnested : tracker.Nested root) {stack : List Nat}
    (hstack : stack <:+ tracker.stack) (instruction : Instruction) (index : Nat) :
    (∃ scope ∈ (Tracker.reached { tracker with stack } instruction index).openScopes,
      scope ∉ tracker.openScopes) ↔ Tracker.opening { tracker with stack } index ≠ [] := by
  simp only [openScopes, reached, List.mem_reverse]
  cases Tracker.opening { tracker with stack } index with
  | nil =>
      simp only [List.foldl_nil, ne_eq, not_true_eq_false, iff_false]
      rintro ⟨scope, hscope, hclosed⟩
      exact hclosed (hstack.subset hscope)
  | cons place rest =>
      simp only [ne_eq, List.cons_ne_nil, not_false_eq_true, iff_true]
      -- The first scope that opens is the one behind the end of the arena.
      refine ⟨tracker.arena.size, ?_, ?_⟩
      · have hinner := (within_foldl_nest (.ofPoint instruction.point) rest
          (Tracker.nest (.ofPoint instruction.point) { tracker with stack } place)).2
        exact hinner.subset List.mem_cons_self
      · intro hopen
        exact Nat.lt_irrefl _ (Arena.Nested.lt_size hnested _ hopen)

/-- A visit moves the position to the sequence point of its instruction, or leaves it
alone. -/
theorem Nested.moves_or_keeps (hsilent : context.mode.isDescribing = false)
    (hnested : tracker.Nested root) (index : Nat)
    (hsmall : (Tracker.step context tracker (.advance index)).2.arena.size ≤ 2 ^ 31) :
    (Moves context tracker index ∧
      (Tracker.step context tracker (.advance index)).2.position =
        .ofPoint (context.body.pointAt? index)) ∨
    (¬ Moves context tracker index ∧
      (Tracker.step context tracker (.advance index)).2.position = tracker.position) := by
  rw [step_advance] at hsmall
  simp only [Moves, step_advance]
  rcases hnested.advance_cases hsilent index hsmall with ⟨failure, -, hadvance⟩ |
    ⟨instruction, failure, stack, -, -, hadvance⟩ |
    ⟨instruction, stack, hinstruction, hclosing, hadvance, -⟩
  · rw [hadvance]
    exact Or.inr ⟨by rintro ⟨⟨⟩, -⟩, rfl⟩
  · rw [hadvance]
    exact Or.inr ⟨by rintro ⟨⟨⟩, -⟩, rfl⟩
  · have hstack : (tracker.closing context.body instruction.offset).2 <:+ tracker.stack :=
      closeFinished_suffix _ _
    rw [hclosing] at hstack
    rw [hadvance, Body.pointAt?_eq hinstruction, hnested.opens_iff hstack, position_reached]
    by_cases hmoves : instruction.point.isSome = true ∨
        Tracker.opening { tracker with stack } index ≠ []
    · exact Or.inl ⟨⟨rfl, hmoves⟩, if_pos hmoves⟩
    · exact Or.inr ⟨fun hboth => hmoves hboth.2, if_neg hmoves⟩

end Steps

theorem lastRoot_walk {context : FunctionContext} {first : Request} {root : Option Place}
    (hfirst : first.root? context = some root) (visits : List Nat) :
    lastRoot context (walk first visits) = some root := by
  induction visits using List.reverseRecOn with
  | nil => simp [lastRoot, walk, hfirst]
  | append_singleton earlier index ih => rw [walk_concat, lastRoot_concat, ih]; rfl

/-- After a walk the position is that of the last visit that moved it: the sequence
point of its instruction, or no place in the source text if it has none. It is the
position from before where no visit moved it. -/
theorem position_after_walk {context : FunctionContext} (hsilent : context.mode = .silent)
    (tracker : Tracker) {first : Request} {root : Option Place}
    (hfirst : first.root? context = some root) (visits : List Nat)
    (hsmall : (after context tracker (walk first visits)).arena.size ≤ 2 ^ 31) :
    (after context tracker (walk first visits)).position =
      match (moving context (step context tracker first).2 visits).getLast? with
      | some index => .ofPoint (context.body.pointAt? index)
      | none => tracker.position := by
  induction visits using List.reverseRecOn with
  | nil =>
      obtain ⟨answer, hstep⟩ := step_of_root? hsilent hfirst tracker
      simp only [walk, List.map_nil, after, History.after_cons, History.after_nil, hstep]
      rfl
  | append_singleton earlier index ih =>
      rw [walk_concat, after_concat] at hsmall ⊢
      have hgrown : (after context tracker (walk first earlier)).arena.size ≤
          (step context (after context tracker (walk first earlier))
            (.advance index)).2.arena.size := (extends_step rfl _).size_le
      have hnested := nested_after hsilent tracker (lastRoot_walk hfirst earlier)
        (hgrown.trans hsmall)
      have hmode : context.mode.isDescribing = false := by rw [hsilent]; rfl
      have hstart : after context (step context tracker first).2 (earlier.map .advance) =
          after context tracker (walk first earlier) := rfl
      rw [moving_concat, hstart]
      rcases hnested.moves_or_keeps hmode index hsmall with ⟨hmoves, hposition⟩ |
        ⟨hkeeps, hposition⟩
      · rw [if_pos hmoves, List.getLast?_concat, hposition]
      · rw [if_neg hkeeps, List.append_nil, hposition]
        exact ih (hgrown.trans hsmall)

/-- Three scopes that start together where no sequence point is, one with its stop
outside the body, and a fourth scope behind them. -/
def silentStartTree : ScopeNode :=
  ⟨0, 9, [], [⟨1, 2, [], [⟨1, 9, [], [⟨1, 1, [], []⟩]⟩]⟩, ⟨2, 2, [], []⟩]⟩

def silentStart : FunctionContext where
  body := ⟨#[⟨0, some ⟨"", 4, 1⟩⟩, ⟨2, none⟩, ⟨5, some ⟨"", 6, 3⟩⟩, ⟨9, none⟩],
    some silentStartTree⟩
  locals := #[]
  mode := .silent

/-- The second visit opens three scopes where no sequence point is. The third closes one
of them and fails, since the next has its stop outside the body. For the last there is
no instruction. -/
theorem position_silentStart :
    (after silentStart ⟨#[], [], ⟨8, 8⟩⟩ (walk .prepare [0, 1, 2, 7])).arena.size ≤ 2 ^ 31 ∧
      moving silentStart (step silentStart ⟨#[], [], ⟨8, 8⟩⟩ .prepare).2 [0, 1, 2, 7] =
        [0, 1] ∧
      (after silentStart ⟨#[], [], ⟨8, 8⟩⟩ (walk .prepare [0, 1, 2, 7])).position =
        ⟨0, 0⟩ := by
  have hsmall : (after silentStart ⟨#[], [], ⟨8, 8⟩⟩
      (walk .prepare [0, 1, 2, 7])).arena.size ≤ 2 ^ 31 := by decide +kernel
  have hmoving : moving silentStart (step silentStart ⟨#[], [], ⟨8, 8⟩⟩ .prepare).2
      [0, 1, 2, 7] = [0, 1] := by decide +kernel
  have hposition := position_after_walk rfl ⟨#[], [], ⟨8, 8⟩⟩ rfl [0, 1, 2, 7] hsmall
  rw [hmoving] at hposition
  exact ⟨hsmall, hmoving, hposition⟩

end Tracker

end DebugInfo
