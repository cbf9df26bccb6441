import DebugInfo.Proofs.Describing
import DebugInfo.Proofs.ParentLinks

/-!
Indices that no scope has. Entering such a scope and reading its parent fail, since the index
is looked up as it is. Finding what describes a scope reads the index as a link first, and
making a scope stores its parent as one. There only the low word counts: an index far behind
the arena can be taken for a scope, even for the one that is just being made, or for no
parent.
-/

namespace DebugInfo

namespace Arena

/-- What is found by following links from an index that is read as a link. -/
structure ReadsLowWord {δ : Type} (arena : Arena) (described : Nat → Option δ)
    (subprogram : Option δ) (index : Nat) (found : Except Failure (Option δ)) : Prop where
  /-- A low word with all bits set stands for no parent. -/
  noParent : index % UInt32.size = UInt32.size - 1 → found = .ok subprogram
  nowhere : arena.size ≤ index % UInt32.size → index % UInt32.size ≠ UInt32.size - 1 →
    found = .error .noScope
  /-- The scope that has the low word as its index is taken for the one that was meant. -/
  scope : index % UInt32.size < arena.size → ∀ descriptor,
    described (index % UInt32.size) = some descriptor → found = .ok (some descriptor)

section LowWord

variable {δ : Type} {arena : Arena} {described : Nat → Option δ} {subprogram : Option δ}

theorem target?_ofIndex_of_le {index : Nat} (hlow : arena.size ≤ index % UInt32.size) :
    arena.target? (Link.ofIndex index) = none := by
  apply if_neg
  rintro ⟨hnonneg, hlt⟩
  rw [Link.toNat_ofIndex hnonneg] at hlt
  exact Nat.not_lt.mpr hlow hlt

theorem readsLowWord (hsmall : arena.size ≤ 2 ^ 31) (steps index : Nat) :
    arena.ReadsLowWord described subprogram index
      (arena.nearestFrom described subprogram steps (Link.ofIndex index)) where
  noParent := by
    intro hnone
    rw [Link.ofIndex_eq_none_iff.mpr hnone, nearestFrom_none]
  nowhere := by
    intro hlow hparent
    have hlink : Link.ofIndex index ≠ Link.none := mt Link.ofIndex_eq_none_iff.mp hparent
    exact nearestFrom_nowhere hlink (target?_ofIndex_of_le hlow) steps
  scope := by
    intro hlow descriptor hdescribed
    have hlink : Link.ofIndex index = (index % UInt32.size : Nat) := by
      rw [← Link.ofIndex_mod]
      exact Link.ofIndex_of_lt (Nat.lt_of_lt_of_le hlow hsmall)
    rw [hlink, nearestFrom_described hlow hdescribed]

/-- A scope that is its own parent is left by no link. -/
theorem nearestFrom_loop {index : Nat} {source : Option Place}
    (hscope : arena[index]? = some ⟨source, (index : Int)⟩) (hdescribed : described index = none)
    (steps : Nat) :
    arena.nearestFrom described subprogram steps (index : Int) = .error .cyclicLinks := by
  induction steps with
  | zero => exact nearestFrom_zero (Array.getElem?_eq_some_iff.mp hscope).1 hdescribed
  | succ steps ih => rw [nearestFrom_undescribed hscope hdescribed, ih]

theorem nearest_mod (arena : Arena) (described : Nat → Option δ) (subprogram : Option δ)
    (index : Nat) :
    arena.nearest described subprogram (index % UInt32.size) =
      arena.nearest described subprogram index := by
  rw [nearest, nearest, Link.ofIndex_mod]

/-- What describes a scope that was just made is what its parent is read as. -/
theorem nearest_push (hsmall : arena.size < 2 ^ 31) (source : Option Place) (parent : Nat)
    (hnew : described arena.size = none) :
    nearest (Array.push arena ⟨source, Link.ofIndex parent⟩) described subprogram arena.size =
      nearest (Array.push arena ⟨source, Link.ofIndex parent⟩) described subprogram parent :=
  nearest_of_undescribed Array.getElem?_push_size hsmall hnew

end LowWord

end Arena

namespace Tracker

section Requests

variable {context : FunctionContext} {tracker : Tracker}

theorem step_enter_of_le {index : Nat} (hindex : tracker.arena.size ≤ index) :
    step context tracker (.enter index) = (.error .noScope, tracker) := by
  have hmissing : tracker.arena[index]? = none := Array.getElem?_eq_none hindex
  rw [step_enter]
  simp only [enter, Action.answer_bind, Action.answer_get, Action.answer_ofExcept, Arena.scope,
    hmissing]
  rfl

theorem step_parent_of_le {index : Nat} (hindex : tracker.arena.size ≤ index) :
    step context tracker (.parent index) = (.error .noScope, tracker) := by
  have hmissing : tracker.arena[index]? = none := Array.getElem?_eq_none hindex
  simp only [step, perform, Action.answer_bind, Action.answer_get, Action.answer_ofExcept,
    Arena.scope, hmissing]
  rfl

/-- While functions are not described, a scope is made for every place, whatever its parent
is said to be. -/
theorem step_create_of_silent (hsilent : context.mode = .silent) (parent : Nat)
    {path : List Nat} {place : Place} (hplace : context.body.place path = .ok place) :
    step context tracker (.create parent path) =
      (.ok (.index tracker.arena.size),
        { tracker with arena := tracker.arena.push ⟨some place, Link.ofIndex parent⟩ }) := by
  rw [step_create context parent hplace, answer_create_of_silent (by rw [hsilent]; rfl)]
  rfl

/-- In either mode a scope that is made is the last of the arena. -/
theorem made_of_step_create {parent : Nat} {path : List Nat} {answer : Answer} {next : Tracker}
    (hcreate : step context tracker (.create parent path) = (.ok answer, next)) :
    answer = .index tracker.arena.size ∧ ∃ place, next =
      { tracker with arena := tracker.arena.push ⟨some place, Link.ofIndex parent⟩ } := by
  cases hplace : context.body.place path with
  | error failure =>
      simp only [step, perform, Action.answer_bind, Action.answer_ofExcept, hplace] at hcreate
      cases hcreate
  | ok place =>
      rw [step_create context parent hplace] at hcreate
      rcases create_cases context parent place tracker with hmade | ⟨failure, hfailed⟩
      · rw [hmade] at hcreate
        cases hcreate
        exact ⟨rfl, place, rfl⟩
      · rw [hfailed] at hcreate
        cases hcreate

end Requests

/-- Indices behind the arena are rejected where a scope is entered or its parent is read. To
find what describes a scope, and for the parent of a scope that is made, they are read by
their low words, and making the scope does not fail on them. As long as it is not described
itself, what describes it is what describes the low word. A scope that names its own index
that way is its own parent, and following its links does not end. -/
theorem stray_indices (context : FunctionContext) (tracker : Tracker)
    (hsmall : tracker.arena.size < 2 ^ 31) :
    (∀ index, tracker.arena.size ≤ index →
      step context tracker (.enter index) = (.error .noScope, tracker) ∧
      step context tracker (.parent index) = (.error .noScope, tracker) ∧
      ∀ {δ : Type} (described : Nat → Option δ) (subprogram : Option δ),
        tracker.arena.nearest described subprogram index =
          tracker.arena.nearest described subprogram (index % UInt32.size) ∧
        tracker.arena.ReadsLowWord described subprogram index
          (tracker.arena.nearest described subprogram index)) ∧
    (context.mode = .silent → ∀ parent path place, context.body.place path = .ok place →
      (step context tracker (.create parent path)).1 = .ok (.index tracker.arena.size)) ∧
    ∀ parent path answer next,
      step context tracker (.create parent path) = (.ok answer, next) →
      answer = .index tracker.arena.size ∧
      ∀ {δ : Type} (described : Nat → Option δ) (subprogram : Option δ),
        described tracker.arena.size = none →
        next.arena.nearest described subprogram tracker.arena.size =
          next.arena.nearest described subprogram (parent % UInt32.size) ∧
        next.arena.ReadsLowWord described subprogram parent
          (next.arena.nearest described subprogram tracker.arena.size) ∧
        (parent % UInt32.size = tracker.arena.size →
          next.arena.nearest described subprogram tracker.arena.size =
            .error .cyclicLinks) := by
  refine ⟨fun index hindex => ⟨step_enter_of_le hindex, step_parent_of_le hindex, ?_⟩, ?_, ?_⟩
  · intro δ described subprogram
    exact ⟨(tracker.arena.nearest_mod described subprogram index).symm,
      Arena.readsLowWord hsmall.le _ index⟩
  · intro hsilent parent path place hplace
    rw [step_create_of_silent hsilent parent hplace]
  · intro parent path answer next hcreate
    obtain ⟨rfl, place, rfl⟩ := made_of_step_create hcreate
    refine ⟨rfl, fun described subprogram hnew => ?_⟩
    simp only [Arena.nearest_push hsmall (some place) parent hnew, Arena.nearest_mod]
    refine ⟨trivial, Arena.readsLowWord ?_ _ parent, fun hself => ?_⟩
    · rw [Array.size_push]
      exact hsmall
    · have hloop : Link.ofIndex parent = (tracker.arena.size : Int) := by
        rw [← Link.ofIndex_mod, hself]
        exact Link.ofIndex_of_lt hsmall
      rw [Arena.nearest, hloop]
      exact Arena.nearestFrom_loop Array.getElem?_push_size hnew _

/-- The root is open, and there is no other scope. -/
def started : Tracker := after overlapping initial [.prepare]

/-- The first scope inside the root, made by hand. -/
def startedInside : Tracker := after overlapping started [.create 0 [0]]

/-- Entering scope `2 ^ 32` fails, but what describes it is taken from the root. Index
`2 ^ 32 - 1` is taken for no parent. A scope made inside scope `2 ^ 32 + 1` is taken to be
inside scope 1, and where that is not described inside the root. -/
theorem stray_indices_started :
    step overlapping started (.enter (2 ^ 32)) = (.error .noScope, started) ∧
      started.arena.nearest (fun index => if index = 0 then some "root" else none) none
          (2 ^ 32) = .ok (some "root") ∧
      started.arena.nearest (fun _ => none) (some "subprogram") (2 ^ 32 - 1) =
          .ok (some "subprogram") ∧
      (step overlapping startedInside (.create (2 ^ 32 + 1) [0])).2.arena.nearest
          (fun index => if index = 1 then some "inside" else none) none 2 =
        .ok (some "inside") ∧
      (step overlapping startedInside (.create (2 ^ 32 + 1) [0])).2.arena.nearest
          (fun index => if index = 0 then some "root" else none) none 2 =
        .ok (some "root") := by
  obtain ⟨hstray, -, -⟩ := stray_indices overlapping started (by decide +kernel)
  obtain ⟨-, -, hmade⟩ := stray_indices overlapping startedInside (by decide +kernel)
  obtain ⟨henter, -, hroot⟩ := hstray (2 ^ 32) (by decide +kernel)
  obtain ⟨-, -, hnone⟩ := hstray (2 ^ 32 - 1) (by decide +kernel)
  obtain ⟨-, hinside⟩ := hmade (2 ^ 32 + 1) [0] (.index 2)
    (step overlapping startedInside (.create (2 ^ 32 + 1) [0])).2 rfl
  refine ⟨henter, ?_, ?_, ?_, ?_⟩
  · exact (hroot _ none).2.scope (by decide +kernel) "root" rfl
  · exact (hnone _ (some "subprogram")).2.noParent (by decide)
  · exact (hinside _ none rfl).2.1.scope (by decide +kernel) "inside" rfl
  · -- The low word is scope 1, from which the search goes on to the root.
    exact (hinside (fun index => if index = 0 then some "root" else none) none rfl).1.trans rfl

/-- Not every index behind the arena is rejected. -/
theorem exists_stray_index_found :
    ¬ ∀ index, started.arena.size ≤ index → index < 2 ^ 64 → ∀ described subprogram,
      step overlapping started (.nearest index described subprogram) =
        (.error .noScope, started) := by
  intro hrejected
  have hfails := hrejected (2 ^ 32) (by decide +kernel) (by decide) [0] false
  have hfound : (step overlapping started (.nearest (2 ^ 32) [0] false)).1 =
      .ok (.owner (some (.scope 0))) := by decide +kernel
  rw [hfails] at hfound
  cases hfound

end Tracker

end DebugInfo
