import DebugInfo.Proofs.StepLaw

/-!
Why an advance fails, and what a failure leaves. There may be no instruction to go to,
and then nothing changes. Or closing comes, from the innermost scope outwards, to one that
ends outside the body. That is only noticed once every scope inside it is finished, so those
are closed and nothing else is done. Past the range of a link an advance fails too.

A tracker that met such a scope cannot get past it. Every further advance stops at once,
until a function is begun anew.
-/

namespace DebugInfo

theorem Body.instruction_eq_error_iff {body : Body} {index : Nat} {failure : Failure} :
    body.instruction index = .error failure ↔
      failure = .noInstruction ∧ body.instructions.size ≤ index := by
  by_cases hindex : index < body.instructions.size
  · simp [instruction, hindex]
  · simp [instruction, hindex, Nat.le_of_not_lt hindex, eq_comm]

namespace Tracker

/-- The last instruction of a scope lies outside the body. -/
def EndsOutside (tracker : Tracker) (body : Body) (scope : Nat) : Prop :=
  ∃ place, tracker.arena.place? scope = some place ∧ body.instructions.size ≤ place.node.stop

/-- An advance to an instruction gets stuck at a scope. Scanning the open scopes from the
innermost outwards, it is the first that does not end before the instruction; it ends
outside the body, and it is not the root. Around it are the scopes `outer`, the outermost
first. -/
structure StuckAt (body : Body) (index : Nat) (tracker : Tracker) (outer : List Nat)
    (scope : Nat) : Prop where
  notRoot : outer ≠ []
  outside : tracker.EndsOutside body scope
  reached : ∃ instruction inner, body.instruction index = .ok instruction ∧
    tracker.openScopes = outer ++ scope :: inner ∧
    ∀ other ∈ inner, tracker.EndsBefore body instruction.offset other

/-- The innermost open scope is not the root and ends outside the body. -/
structure Blocked (body : Body) (tracker : Tracker) (scope : Nat) (outer : List Nat) :
    Prop where
  stack : tracker.stack = scope :: outer
  notRoot : outer ≠ []
  outside : tracker.EndsOutside body scope

theorem isFinished_eq_true_iff {tracker : Tracker} {body : Body} {offset scope : Nat} :
    tracker.isFinished body offset scope = .ok true ↔ tracker.EndsBefore body offset scope := by
  constructor
  · exact endsBefore_of_isFinished
  · rintro ⟨place, last, hplace, hlast, hoffset⟩
    rw [isFinished_of_place hplace, hlast]
    exact congrArg Except.ok (decide_eq_true hoffset)

theorem isFinished_eq_error_iff {tracker : Tracker} {body : Body} {offset scope : Nat}
    {place : Place} (hplace : tracker.arena.place? scope = some place) {failure : Failure} :
    tracker.isFinished body offset scope = .error failure ↔
      failure = .noInstruction ∧ body.instructions.size ≤ place.node.stop := by
  rw [isFinished_of_place hplace, ← Body.instruction_eq_error_iff]
  cases body.instruction place.node.stop with
  | ok last => exact ⟨nofun, nofun⟩
  | error other => exact ⟨fun h => by cases h; rfl, fun h => by cases h; rfl⟩

/-! What comes after a failure -/

section Blocked

variable {context : FunctionContext} {tracker : Tracker} {scope : Nat} {outer : List Nat}

/-- Behind a scope that ends outside the body every advance fails and changes nothing. -/
theorem Blocked.answer_advance (hblocked : Blocked context.body tracker scope outer)
    (index : Nat) : (advance context index).answer tracker = (.error .noInstruction, tracker) := by
  rw [Tracker.answer_advance]
  cases hinstruction : context.body.instruction index with
  | error failure =>
      obtain ⟨rfl, -⟩ := Body.instruction_eq_error_iff.mp hinstruction
      rfl
  | ok instruction =>
      obtain ⟨place, hplace, hstop⟩ := hblocked.outside
      have hfails : tracker.isFinished context.body instruction.offset scope =
          .error .noInstruction := (isFinished_eq_error_iff hplace).mpr ⟨rfl, hstop⟩
      have hclosing : tracker.closing context.body instruction.offset =
          (.error .noInstruction, tracker.stack) := by
        apply closeFinished_eq_error_iff.mpr
        refine ⟨[], scope, outer, hblocked.stack, hblocked.stack, ?_, hblocked.notRoot, hfails⟩
        exact fun _ hscope => absurd hscope List.not_mem_nil
      simp only [hclosing]

/-- Only beginning a function opens the way again. -/
theorem Blocked.step (hblocked : Blocked context.body tracker scope outer)
    {request : Request} (hroot : request.root? context = none) :
    Blocked context.body (Tracker.step context tracker request).2 scope outer := by
  obtain ⟨hstack, hnotRoot, place, hplace, hstop⟩ := hblocked
  rcases step_cases hroot tracker with ⟨position, hstep⟩ | ⟨_, _, _, -, hstep⟩ |
    ⟨index, rfl, hstep⟩
  · rw [hstep]
    exact ⟨hstack, hnotRoot, place, hplace, hstop⟩
  · rw [hstep]
    refine ⟨hstack, hnotRoot, place, ?_, hstop⟩
    exact (Arena.place?_push_of_lt _ (Arena.lt_size_of_place? hplace)).trans hplace
  · rw [hstep, Blocked.answer_advance ⟨hstack, hnotRoot, place, hplace, hstop⟩ index]
    exact ⟨hstack, hnotRoot, place, hplace, hstop⟩

theorem Blocked.after (hblocked : Blocked context.body tracker scope outer)
    {requests : List Request} (hroots : ∀ request ∈ requests, request.root? context = none) :
    Blocked context.body (Tracker.after context tracker requests) scope outer := by
  induction requests generalizing tracker with
  | nil => exact hblocked
  | cons request rest ih =>
      obtain ⟨hroot, hrest⟩ := List.forall_mem_cons.mp hroots
      exact ih (hblocked.step hroot) hrest

end Blocked

/-! What makes an advance fail -/

section Failures

variable {context : FunctionContext} {tracker : Tracker} {index : Nat}

theorem answer_advance_of_le (hindex : context.body.instructions.size ≤ index)
    (tracker : Tracker) :
    (advance context index).answer tracker = (.error .noInstruction, tracker) := by
  have hmissing := Body.instruction_eq_error_iff.mpr ⟨rfl, hindex⟩
  rw [answer_advance]
  simp only [hmissing]

/-- An advance that gets stuck closes the scopes inside the one where it does, and nothing
else. -/
theorem StuckAt.answer_advance {outer : List Nat} {scope : Nat}
    (hstuck : StuckAt context.body index tracker outer scope) :
    (advance context index).answer tracker =
      (.error .noInstruction, { tracker with stack := scope :: outer.reverse }) := by
  obtain ⟨hnotRoot, ⟨place, hplace, hstop⟩, instruction, inner, hinstruction, hopen,
    hfinished⟩ := hstuck
  have hstack : tracker.stack = inner.reverse ++ scope :: outer.reverse := by
    have hreverse := congrArg List.reverse hopen
    simpa [openScopes] using hreverse
  have hclosing : tracker.closing context.body instruction.offset =
      (.error .noInstruction, scope :: outer.reverse) := by
    apply closeFinished_eq_error_iff.mpr
    refine ⟨inner.reverse, scope, outer.reverse, hstack, rfl, ?_, ?_, ?_⟩
    · intro other hother
      exact isFinished_eq_true_iff.mpr (hfinished other (List.mem_reverse.mp hother))
    · exact List.reverse_ne_nil_iff.mpr hnotRoot
    · exact (isFinished_eq_error_iff hplace).mpr ⟨rfl, hstop⟩
  rw [Tracker.answer_advance]
  simp only [hinstruction, hclosing]

/-- From there on the tracker is blocked. -/
theorem StuckAt.blocked {outer : List Nat} {scope : Nat}
    (hstuck : StuckAt context.body index tracker outer scope) :
    Blocked context.body { tracker with stack := scope :: outer.reverse } scope
      outer.reverse where
  stack := rfl
  notRoot := List.reverse_ne_nil_iff.mpr hstuck.notRoot
  outside := hstuck.outside

/-- Where closing fails, it is stuck. -/
theorem Nested.exists_stuckAt {root : Option Place} (hnested : tracker.Nested root)
    {instruction : Instruction} (hinstruction : context.body.instruction index = .ok instruction)
    {failure : Failure} {kept : List Nat}
    (hclosing : tracker.closing context.body instruction.offset = (.error failure, kept)) :
    ∃ outer scope, StuckAt context.body index tracker outer scope := by
  obtain ⟨inner, scope, outer, hstack, -, hfinished, houter, hfails⟩ :=
    closeFinished_eq_error_iff.mp hclosing
  obtain ⟨place, hplace⟩ := hnested.exists_place hstack houter
  refine ⟨outer.reverse, scope, List.reverse_ne_nil_iff.mpr houter,
    ⟨place, hplace, ((isFinished_eq_error_iff hplace).mp hfails).2⟩,
    instruction, inner.reverse, hinstruction, by simp [openScopes, hstack], ?_⟩
  intro other hother
  exact isFinished_eq_true_iff.mp (hfinished other (List.mem_reverse.mp hother))

/-- An advance fails for no other reason. -/
theorem Nested.advance_fails_iff (hsilent : context.mode.isDescribing = false)
    {root : Option Place} (hnested : tracker.Nested root)
    (hsmall : tracker.arena.size ≤ 2 ^ 31) :
    ((Tracker.advance context index).answer tracker).1.isOk = false ↔
      context.body.instructions.size ≤ index ∨
        (∃ outer scope, StuckAt context.body index tracker outer scope) ∨
        2 ^ 31 < ((Tracker.advance context index).answer tracker).2.arena.size := by
  constructor
  · intro hfails
    rcases Nat.lt_or_ge (2 ^ 31) ((Tracker.advance context index).answer tracker).2.arena.size
      with hlarge | hroom
    · exact .inr (.inr hlarge)
    · rcases hnested.advance_cases hsilent index hroom with ⟨failure, hmissing, -⟩ |
        ⟨instruction, failure, stack, hinstruction, hclosing, -⟩ |
        ⟨instruction, stack, -, -, hadvance, -⟩
      · exact .inl (Body.instruction_eq_error_iff.mp hmissing).2
      · exact .inr (.inl (hnested.exists_stuckAt hinstruction hclosing))
      · rw [hadvance] at hfails
        cases hfails
  · rintro (hindex | ⟨outer, scope, hstuck⟩ | hlarge)
    · rw [answer_advance_of_le hindex]
      rfl
    · rw [hstuck.answer_advance]
      rfl
    · rw [(hnested.advance_overruns hsilent hsmall hlarge).1]
      rfl

end Failures

/-- Why an advance fails, for any body and after any history in which a function was begun:
there is no instruction to go to, or it gets stuck at a scope that ends outside the body, or
it makes more scopes than links can lead to, which it cannot where there is room for every
level of the tree. In the first case nothing changes, and in the second only the scopes
inside that scope are closed. After that every advance fails and changes nothing, whatever
is asked in between, until a function is begun anew. In the third case the advance has
closed, and it has opened all it could and the first scope too many. -/
theorem failing_advance {context : FunctionContext} (hsilent : context.mode = .silent)
    (tracker : Tracker) {requests : List Request} {root : Option Place}
    (hroot : lastRoot context requests = some root) {current : Tracker}
    (hcurrent : after context tracker requests = current)
    (hsmall : current.arena.size ≤ 2 ^ 31) {index : Nat} {reply : Except Failure Answer}
    {next : Tracker} (hadvance : step context current (.advance index) = (reply, next)) :
    (reply.isOk = false ↔ context.body.instructions.size ≤ index ∨
      (∃ outer scope, StuckAt context.body index current outer scope) ∨
      2 ^ 31 < next.arena.size) ∧
    (current.HasRoom root → (reply.isOk = false ↔ context.body.instructions.size ≤ index ∨
      ∃ outer scope, StuckAt context.body index current outer scope)) ∧
    (context.body.instructions.size ≤ index →
      reply = .error .noInstruction ∧ next = current) ∧
    (2 ^ 31 < next.arena.size → reply = .error .noScope ∧
      ∃ instruction stack opened stop,
        Overruns context.body index current next instruction stack opened stop) ∧
    ∀ outer scope, StuckAt context.body index current outer scope →
      reply = .error .noInstruction ∧
      next = { current with stack := scope :: outer.reverse } ∧
      ∀ later, (∀ request ∈ later, request.root? context = none) →
        (after context next later).openScopes = outer ++ [scope] ∧
        ∀ other, step context (after context next later) (.advance other) =
          (.error .noInstruction, after context next later) := by
  subst hcurrent
  have hnested := nested_after hsilent tracker hroot hsmall
  rw [step_advance] at hadvance
  obtain ⟨rfl, rfl⟩ := Prod.mk.inj hadvance
  have hmode : context.mode.isDescribing = false := by rw [hsilent]; rfl
  refine ⟨?_, fun hroom => ?_, fun hindex => ?_, fun hlarge => ?_, fun outer scope hstuck => ?_⟩
  · rw [Action.isOk_map, hnested.advance_fails_iff hmode hsmall]
  · have hfits : ((advance context index).answer (after context tracker requests)).2.arena.size ≤
        2 ^ 31 := hnested.size_advance_le_of_hasRoom hsmall hroom index
    rw [Action.isOk_map, hnested.advance_fails_iff hmode hsmall,
      or_iff_left (Nat.not_lt.mpr hfits)]
  · rw [answer_advance_of_le hindex]
    exact ⟨rfl, rfl⟩
  · obtain ⟨hfails, hoverruns⟩ := hnested.advance_overruns hmode hsmall hlarge
    rw [hfails]
    exact ⟨rfl, hoverruns⟩
  · rw [hstuck.answer_advance]
    refine ⟨rfl, rfl, fun later hlater => ?_⟩
    have hblocked := hstuck.blocked.after hlater
    refine ⟨?_, fun other => ?_⟩
    · rw [openScopes, hblocked.stack]
      simp
    · rw [step_advance, hblocked.answer_advance]
      rfl

/-- Two scopes are open inside the root, and a third was made that is not. -/
def midway : List Request := [.prepare, .create (2 ^ 32 - 1) [0], .advance 0]

/-- A further scope is made and entered, and an advance fails. -/
def meanwhile : List Request := [.create 2 [1], .enter 4, .advance 0]

/-- The inner scope is closed, and the one around it ends outside the body. -/
theorem stuckAt_overlapping :
    StuckAt overlapping.body 2 (after overlapping initial midway) [0] 2 ∧
      ∃ next, step overlapping (after overlapping initial midway) (.advance 2) =
          (.error .noInstruction, next) ∧
        next.openScopes = [0, 2] ∧
        step overlapping (after overlapping next meanwhile) (.advance 1) =
          (.error .noInstruction, after overlapping next meanwhile) := by
  have hsmall : (after overlapping initial midway).arena.size ≤ 2 ^ 31 := by decide +kernel
  have hadvance : step overlapping (after overlapping initial midway) (.advance 2) =
      ((step overlapping (after overlapping initial midway) (.advance 2)).1,
        (step overlapping (after overlapping initial midway) (.advance 2)).2) := rfl
  have hstack : (step overlapping (after overlapping initial midway) (.advance 2)).2.stack =
      [2, 0] := by decide +kernel
  have hroot : lastRoot overlapping midway = some (some ⟨[], overlappingTree⟩) := rfl
  have hroom : (after overlapping initial midway).HasRoom (some ⟨[], overlappingTree⟩) := by
    rintro _ ⟨⟩
    decide +kernel
  obtain ⟨-, hcauses, -, -, hleft⟩ := failing_advance rfl initial hroot rfl hsmall hadvance
  rcases (hcauses hroom).mp (by decide +kernel) with hindex | ⟨outer, scope, hstuck⟩
  · exact absurd hindex (by decide)
  · obtain ⟨hreply, hnext, hlater⟩ := hleft outer scope hstuck
    rw [hnext] at hstack
    obtain ⟨rfl, houter⟩ := List.cons.inj hstack
    obtain rfl : outer = [0] := List.reverse_eq_iff.mp houter
    obtain ⟨-, hblocked⟩ := hlater meanwhile (by decide +kernel)
    exact ⟨hstuck, _, hadvance.trans (by rw [hreply]), by decide +kernel, hblocked 1⟩

end Tracker

end DebugInfo
