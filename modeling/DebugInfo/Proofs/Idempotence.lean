import DebugInfo.Proofs.Modes
import DebugInfo.Proofs.StepLaw

/-!
Following the instructions twice to the same one. Closing stops where it has stopped
before, and nothing more opens at an instruction that was reached, so a second advance
could only close what the first has opened. It does not where scopes end inside the body
and not before they start. Nothing else is asked of the ranges: siblings may overlap,
scopes may end behind those around them, and the cursor may have come from anywhere.
-/

namespace DebugInfo

/-- Below the root, every scope starts and ends inside the body, and its last instruction
does not come before its first. -/
def Body.RunsForward (body : Body) : Prop :=
  ∀ place ∈ body.innerPlaces,
    ∃ (hstart : place.node.start < body.instructions.size)
      (hstop : place.node.stop < body.instructions.size),
      body.instructions[place.node.start].offset ≤ body.instructions[place.node.stop].offset

instance (body : Body) : Decidable body.RunsForward :=
  inferInstanceAs (Decidable (∀ place ∈ body.innerPlaces, ∃ _ _, _ ≤ _))

theorem closeFinished_again {finished : Nat → Except Failure Bool} {stack kept : List Nat}
    (hclosing : closeFinished finished stack = (.ok (), kept)) :
    closeFinished finished kept = (.ok (), kept) := by
  rcases eq_or_ne stack [] with rfl | hstack
  · cases hclosing
    rfl
  · obtain ⟨-, top, outer, -, -, hstop, hrest⟩ := closeFinished_split finished hstack
    have hkept : kept = top :: outer := by
      rw [hclosing, closeFinished_stop hstop] at hrest
      exact congrArg Prod.snd hrest
    rw [hkept, ← hrest, hclosing, hkept]

/-- A scope of a nested stack that is not the root comes from a place below that of the
root. -/
theorem Arena.Nested.exists_inside {arena : Arena} {root : Place} {index : Nat}
    {outer : List Nat} (hnested : arena.Nested (some root) (index :: outer))
    (houter : outer ≠ []) : ∃ place ∈ root.inside, arena.place? index = some place := by
  obtain ⟨chain, hplaces, hchain⟩ := hnested.way
  rcases List.eq_nil_or_concat chain with rfl | ⟨earlier, last, rfl⟩
  · have hlength := congrArg List.length hplaces
    simp only [List.length_map, List.length_reverse, List.length_cons, List.length_nil] at hlength
    exact absurd (List.length_eq_zero_iff.mp (by omega)) houter
  · have hlast := congrArg List.getLast? hplaces
    refine ⟨last, Place.mem_inside_of_isChain hchain (by simp), ?_⟩
    simpa [List.getLast?_cons] using hlast

namespace Tracker

theorem begun_after {context : FunctionContext} (hsilent : context.mode = .silent)
    (tracker : Tracker) {requests : List Request} {root : Option Place}
    (hroot : lastRoot context requests = some root)
    (hsmall : (after context tracker requests).arena.size ≤ 2 ^ 31) :
    Begun context.body (after context tracker requests) := by
  obtain ⟨request, -, hrequest⟩ := List.exists_of_findSome?_eq_some hroot
  exact ⟨root, source_of_root? hrequest, nested_after hsilent tracker hroot hsmall⟩

section Steps

variable {context : FunctionContext} {tracker : Tracker}

/-- An open scope that is not the last comes from a place below the root of the body. -/
theorem Begun.exists_innerPlace {body : Body} (hbegun : Begun body tracker) {index : Nat}
    {inner outer : List Nat} (hstack : tracker.stack = inner ++ index :: outer)
    (houter : outer ≠ []) :
    ∃ place ∈ body.innerPlaces, tracker.arena.place? index = some place := by
  have hsuffix : index :: outer <:+ tracker.stack := ⟨inner, hstack.symm⟩
  rcases hbegun.root_cases with hnested | ⟨root, hroot, hnested⟩
  · -- A root without a source stands alone.
    cases (Arena.Nested.suffix hnested hsuffix (List.cons_ne_nil _ _)).alone
    exact absurd rfl houter
  · rw [Body.innerPlaces_eq hroot]
    exact (Arena.Nested.suffix hnested hsuffix (List.cons_ne_nil _ _)).exists_inside houter

/-- Of every scope that ends inside the body it can be told whether it is finished. -/
theorem Begun.closing_isOk (hforward : context.body.RunsForward)
    (hbegun : Begun context.body tracker) (offset : Nat) :
    ∃ stack, tracker.closing context.body offset = (.ok (), stack) := by
  cases hclosing : tracker.closing context.body offset with
  | mk result stack =>
      cases result with
      | ok _ => exact ⟨stack, rfl⟩
      | error failure =>
          obtain ⟨closed, top, outer, hsplit, -, -, houter, hfails⟩ :=
            closeFinished_eq_error_iff.mp hclosing
          obtain ⟨place, hinner, hplace⟩ := hbegun.exists_innerPlace hsplit houter
          obtain ⟨-, hstop, -⟩ := hforward place hinner
          rw [isFinished_of_place hplace, Body.instruction_eq_ok hstop] at hfails
          cases hfails

theorem closing_again {body : Body} {offset : Nat} {stack : List Nat}
    (hclosing : tracker.closing body offset = (.ok (), stack)) :
    closing { tracker with stack } body offset = (.ok (), stack) :=
  closeFinished_again hclosing

/-- What was opened at an instruction is not finished there. -/
theorem Begun.closing_reached (hforward : context.body.RunsForward)
    (hbegun : Begun context.body tracker) {index : Nat} {instruction : Instruction}
    (hinstruction : context.body.instruction index = .ok instruction)
    (hclosing : tracker.closing context.body instruction.offset = (.ok (), tracker.stack)) :
    (tracker.reached instruction index).closing context.body instruction.offset =
      (.ok (), (tracker.reached instruction index).stack) := by
  rcases List.eq_nil_or_concat (tracker.opening index) with hopening | ⟨outer, last, hopening⟩
  · simp only [reached, hopening]
    exact hclosing
  · have hlast : last ∈ tracker.opening index := by simp [hopening]
    obtain ⟨place, hplace, -⟩ := innermost?_of_mem_opening hlast
    have hinnermost : (tracker.reached instruction index).innermost? = some last := by
      rw [innermost?_reached hplace, hopening, List.concat_eq_append, List.getLastD_concat]
    obtain ⟨top, htop, hsource⟩ := Option.bind_eq_some_iff.mp hinnermost
    obtain ⟨rest, hstack⟩ := List.head?_eq_some_iff.mp htop
    have hfinished : (tracker.reached instruction index).isFinished context.body
        instruction.offset top = .ok false := by
      obtain ⟨hstart, hstop, hoffset⟩ := hforward last (hbegun.mem_innerPlaces hlast)
      have hsame := hinstruction
      rw [← start_of_mem_opening hlast, Body.instruction_eq_ok hstart] at hsame
      rw [Except.ok.inj hsame] at hoffset
      rw [isFinished_of_place hsource, Body.instruction_eq_ok hstop]
      exact congrArg Except.ok (decide_eq_false (Nat.not_lt_of_le hoffset))
    unfold Tracker.closing
    rw [hstack, closeFinished_stop (.inr (by rw [hfinished]; decide)), hfinished]
    exact Prod.ext (ite_self _) rfl

/-- What was reached is reached again without a change. -/
theorem reached_reached (tracker : Tracker) (instruction : Instruction) (index : Nat) :
    (tracker.reached instruction index).reached instruction index =
      tracker.reached instruction index := by
  have hopening := opening_reached tracker instruction index
  have hposition : instruction.point.isSome = true →
      (tracker.reached instruction index).position = .ofPoint instruction.point :=
    fun hpoint => if_pos hpoint
  generalize tracker.reached instruction index = next at hopening hposition
  simp only [reached, hopening, List.foldl_nil]
  split
  · rename_i hpoint
    rw [← hposition hpoint]
  · rfl

/-- What was reached needs no more links, so opening there again cannot fail. -/
theorem Nested.answer_openAt_reached (hsilent : context.mode.isDescribing = false)
    {root : Option Place} {instruction : Instruction} {index : Nat}
    (hinstruction : context.body.instruction index = .ok instruction)
    (hnested : Nested root (tracker.reached instruction index))
    (hsmall : (tracker.reached instruction index).arena.size ≤ 2 ^ 31) :
    (openAt context instruction index).answer (tracker.reached instruction index) =
      (.ok (), tracker.reached instruction index) := by
  obtain ⟨position, hposition⟩ := openAt_keeps context instruction index
    (tracker.reached instruction index)
  rw [opening_reached] at hposition
  have hroom : ((openAt context instruction index).answer
      (tracker.reached instruction index)).2.arena.size ≤ 2 ^ 31 := by
    rw [hposition]
    exact hsmall
  rw [(hnested.answer_openAt hsilent hinstruction hroom).1, reached_reached]

/-- Where scopes run forward, an advance to an instruction of the body succeeds unless it
makes more scopes than links can lead to, and a second one changes nothing. -/
theorem Begun.advance_again (hsilent : context.mode.isDescribing = false)
    (hforward : context.body.RunsForward) (hbegun : Begun context.body tracker) {index : Nat}
    (hindex : index < context.body.instructions.size)
    (hsmall : ((advance context index).answer tracker).2.arena.size ≤ 2 ^ 31) :
    ∃ next, (advance context index).answer tracker = (.ok (), next) ∧
      (advance context index).answer next = (.ok (), next) := by
  have hinstruction := Body.instruction_eq_ok hindex
  generalize context.body.instructions[index] = instruction at hinstruction
  obtain ⟨stack, hclosing⟩ := hbegun.closing_isOk hforward instruction.offset
  have hleft := hbegun.closing instruction.offset
  have hfirst := answer_advance context index tracker
  simp only [hinstruction, hclosing] at hleft hfirst
  rw [hfirst] at hsmall
  obtain ⟨root, -, hnested⟩ := id hleft
  obtain ⟨hopened, hreached⟩ := hnested.answer_openAt hsilent hinstruction hsmall
  rw [hopened] at hsmall
  have hsecond := answer_advance context index
    (Tracker.reached { tracker with stack } instruction index)
  have hclosed := hleft.closing_reached hforward hinstruction (closing_again hclosing)
  simp only [hinstruction, hclosed] at hsecond
  exact ⟨_, hfirst.trans hopened,
    hsecond.trans (hreached.answer_openAt_reached hsilent hinstruction hsmall)⟩

end Steps

/-- Once a function was begun, in a body whose scopes run forward an advance to any
instruction succeeds exactly where every scope it makes can be linked to, and then the
same advance succeeds once more and leaves the whole tracker as it is. So it does wherever
there is room for every level of the tree. -/
theorem advance_idempotent {context : FunctionContext} (hsilent : context.mode = .silent)
    (hforward : context.body.RunsForward) (tracker : Tracker) {requests : List Request}
    {root : Option Place} (hroot : lastRoot context requests = some root) {current : Tracker}
    (hcurrent : after context tracker requests = current)
    (hsmall : current.arena.size ≤ 2 ^ 31) {index : Nat}
    (hindex : index < context.body.instructions.size) {reply : Except Failure Answer}
    {next : Tracker} (hadvance : step context current (.advance index) = (reply, next)) :
    (reply = .ok .done ↔ next.arena.size ≤ 2 ^ 31) ∧
      (next.arena.size ≤ 2 ^ 31 →
        step context next (.advance index) = (.ok .done, next)) ∧
      (current.HasRoom root →
        reply = .ok .done ∧ step context next (.advance index) = (.ok .done, next)) := by
  subst hcurrent
  have hmode : context.mode.isDescribing = false := by rw [hsilent]; rfl
  have hnested := nested_after hsilent tracker hroot hsmall
  have hbegun := begun_after hsilent tracker hroot hsmall
  rw [step_advance] at hadvance
  obtain ⟨hreply, hnext⟩ := Prod.mk.inj hadvance
  have htwice : next.arena.size ≤ 2 ^ 31 →
      reply = .ok .done ∧ step context next (.advance index) = (.ok .done, next) := by
    intro hfits
    rw [← hnext] at hfits
    obtain ⟨left, hfirst, hsecond⟩ := hbegun.advance_again hmode hforward hindex hfits
    rw [hfirst] at hreply hnext
    obtain rfl : left = next := hnext
    rw [← hreply, step_advance, hsecond]
    exact ⟨rfl, rfl⟩
  refine ⟨⟨fun hsucceeds => ?_, fun hfits => (htwice hfits).1⟩, fun hfits => (htwice hfits).2,
    fun hroom => htwice ?_⟩
  · rw [← hnext]
    apply hnested.size_advance_le hmode hsmall
    rw [← Action.isOk_map fun _ => Answer.done, hreply, hsucceeds]
    rfl
  · rw [← hnext]
    exact hnested.size_advance_le_of_hasRoom hsmall hroom index

/-- Two siblings of the tree overlap, a scope ends behind the one around it, and offsets
do not increase. The root lies outside the body. -/
def protruding : FunctionContext where
  body := ⟨#[⟨1, none⟩, ⟨4, some ⟨"", 3, 5⟩⟩, ⟨6, none⟩, ⟨5, none⟩],
    some ⟨9, 9, [], [⟨0, 0, [], []⟩, ⟨1, 2, [], [⟨1, 3, [], []⟩]⟩, ⟨2, 2, [], []⟩]⟩⟩
  locals := #[]
  mode := .silent

/-- The cursor goes back to the start, and a scope is made that is not opened. -/
def backAndForth : List Request := [.prepare, .advance 3, .advance 0, .create 7 [1]]

/-- The first advance closes a scope and opens two, the second does nothing. -/
theorem advance_twice_protruding : ∃ next,
    (after protruding initial backAndForth).stack = [1, 0] ∧ next.stack = [4, 3, 0] ∧
      step protruding (after protruding initial backAndForth) (.advance 1) =
        (.ok .done, next) ∧
      step protruding next (.advance 1) = (.ok .done, next) := by
  have hindex : 1 < protruding.body.instructions.size := by decide
  have hroot : lastRoot protruding backAndForth = some protruding.body.rootPlace := rfl
  have hsmall : (after protruding initial backAndForth).arena.size ≤ 2 ^ 31 := by
    decide +kernel
  have hroom : (after protruding initial backAndForth).HasRoom protruding.body.rootPlace := by
    rintro _ ⟨⟩
    decide +kernel
  obtain ⟨-, -, htwice⟩ := advance_idempotent rfl (by decide +kernel) initial hroot rfl hsmall
    hindex rfl
  obtain ⟨hsucceeds, hagain⟩ := htwice hroom
  exact ⟨_, by decide +kernel, by decide +kernel, Prod.ext hsucceeds rfl, hagain⟩

end Tracker

end DebugInfo
