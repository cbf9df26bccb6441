import DebugInfo.Proofs.Advance
import DebugInfo.Tracker.Request

/-!
What every history of requests leaves of a tracker, while functions are not
described. Nothing is asked of the body, of the order of the requests or of how
they end. The arena may hold scopes with any links, but those on the stack are
always a way down the scope tree, each linked to the one before. The only bound
is the range of a link: at most `2 ^ 31` scopes have indices that it can hold.
-/

namespace DebugInfo.Tracker

/-- The source of the root that a request begins with, if it begins a function. -/
def Request.root? (context : FunctionContext) : Request → Option (Option Place)
  | .pushRoot bare => some (if bare then none else context.body.rootPlace)
  | .prepare => some context.body.rootPlace
  | _ => none

/-- The source of the root that a history pushed last. -/
def lastRoot (context : FunctionContext) (requests : List Request) :
    Option (Option Place) :=
  requests.reverse.findSome? (Request.root? context)

theorem lastRoot_concat (context : FunctionContext) (requests : List Request)
    (request : Request) :
    lastRoot context (requests ++ [request]) =
      (request.root? context).or (lastRoot context requests) := by
  simp only [lastRoot, List.reverse_append, List.reverse_singleton, List.singleton_append,
    List.findSome?_cons]
  cases request.root? context <;> rfl

theorem after_concat (context : FunctionContext) (tracker : Tracker)
    (requests : List Request) (request : Request) :
    after context tracker (requests ++ [request]) =
      (step context (after context tracker requests) request).2 := by
  simp only [after, History.after_append, History.after_cons, History.after_nil]

section Steps

variable {context : FunctionContext} {root : Option Place} {tracker : Tracker}

theorem step_of_root? (hsilent : context.mode = .silent) {request : Request}
    (hroot : request.root? context = some root) (tracker : Tracker) :
    ∃ answer, step context tracker request =
      (.ok answer, { tracker with arena := #[⟨root, Link.none⟩], stack := [0] }) := by
  cases request with
  | pushRoot bare =>
      cases hroot
      refine ⟨.index 0, ?_⟩
      simp only [step, perform, Action.answer_bind, answer_pushRoot]
      rfl
  | prepare =>
      cases hroot
      refine ⟨.done, ?_⟩
      simp only [step, perform, Action.answer_bind, answer_prepare_of_silent hsilent,
        answer_pushRoot]
      rfl
  | advance index => cases hroot
  | create parent path => cases hroot
  | enter index => cases hroot
  | parent index => cases hroot
  | nearest index described subprogram => cases hroot

/-- A request that does not begin a function moves the position at most, or makes a
scope with a link to what it names as the parent, or is an advance. -/
theorem step_cases {request : Request} (hroot : request.root? context = none)
    (tracker : Tracker) :
    (∃ position, (step context tracker request).2 = { tracker with position }) ∨
    (∃ parent path place, request = .create parent path ∧ (step context tracker request).2 =
      { tracker with arena := tracker.arena.push ⟨some place, Link.ofIndex parent⟩ }) ∨
    (∃ index, request = .advance index ∧
      (step context tracker request).2 = ((advance context index).answer tracker).2) := by
  have hkeep : ∃ position, tracker = { tracker with position } := ⟨tracker.position, rfl⟩
  cases request with
  | pushRoot bare => cases hroot
  | prepare => cases hroot
  | advance index =>
      refine Or.inr (Or.inr ⟨index, rfl, ?_⟩)
      simp only [step, perform, Action.answer_bind]
      cases (advance context index).answer tracker with
      | mk result next => cases result <;> rfl
  | create parent path =>
      simp only [step, perform, Action.answer_bind, Action.answer_ofExcept]
      cases context.body.place path with
      | error failure => exact Or.inl hkeep
      | ok place =>
          simp only
          rcases create_cases context parent place tracker with hmade | ⟨failure, hfailed⟩
          · rw [hmade]
            exact Or.inr (Or.inl ⟨parent, path, place, rfl, rfl⟩)
          · rw [hfailed]
            exact Or.inl hkeep
  | enter index =>
      obtain ⟨position, hposition⟩ := enter_keeps context index tracker
      refine Or.inl ⟨position, ?_⟩
      rw [← hposition]
      simp only [step, perform, Action.answer_bind]
      cases (enter context index).answer tracker with
      | mk result next => cases result <;> rfl
  | parent index =>
      simp only [step, perform, Action.answer_bind, Action.answer_get, Action.answer_ofExcept]
      cases tracker.arena.scope index <;> exact Or.inl hkeep
  | nearest index described subprogram =>
      simp only [step, perform, Action.answer_bind, Action.answer_get, Action.answer_ofExcept]
      generalize tracker.arena.nearest _ _ index = found
      cases found <;> exact Or.inl hkeep

theorem extends_step {request : Request} (hroot : request.root? context = none)
    (tracker : Tracker) : Extends tracker (step context tracker request).2 := by
  rcases step_cases hroot tracker with ⟨position, hstep⟩ | ⟨_, _, _, -, hstep⟩ |
    ⟨index, -, hstep⟩
  · rw [hstep]
    exact .refl tracker
  · rw [hstep]
    simp [Extends]
  · rw [hstep]
    exact extends_advance context index tracker

theorem Nested.step (hnested : tracker.Nested root)
    {request : Request} (hroot : request.root? context = none)
    (hsmall : (Tracker.step context tracker request).2.arena.size ≤ 2 ^ 31) :
    Nested root (Tracker.step context tracker request).2 := by
  rcases step_cases hroot tracker with ⟨position, hstep⟩ | ⟨_, _, _, -, hstep⟩ |
    ⟨index, -, hstep⟩
  · rw [hstep]
    exact hnested
  · rw [hstep]
    exact Arena.Nested.push hnested _
  · rw [hstep] at hsmall ⊢
    exact hnested.advance index hsmall

/-- After any history in which a function was begun the open scopes are nested
below the root that was pushed last. The bound is only asked of the end, since
the arena grows until the next root is pushed. -/
theorem nested_after (hsilent : context.mode = .silent) (tracker : Tracker)
    {requests : List Request} (hroot : lastRoot context requests = some root)
    (hsmall : (after context tracker requests).arena.size ≤ 2 ^ 31) :
    Nested root (after context tracker requests) := by
  induction requests using List.reverseRecOn with
  | nil => cases hroot
  | append_singleton earlier request ih =>
      rw [lastRoot_concat] at hroot
      rw [after_concat] at hsmall ⊢
      cases hrequest : request.root? context with
      | some source =>
          rw [hrequest] at hroot
          cases hroot
          obtain ⟨answer, hstep⟩ :=
            step_of_root? hsilent hrequest (after context tracker earlier)
          rw [hstep]
          exact .base rfl
      | none =>
          rw [hrequest] at hroot
          have hgrown := (extends_step hrequest (after context tracker earlier)).size_le
          exact (ih hroot (hgrown.trans hsmall)).step hrequest hsmall

end Steps

theorem getElem?_openScopes_iff {tracker : Tracker} {k index : Nat} :
    tracker.openScopes[k]? = some index ↔
      ∃ outer, index :: outer <:+ tracker.stack ∧ outer.length = k := by
  constructor
  · intro hindex
    obtain ⟨hk, hget⟩ := List.getElem?_eq_some_iff.mp hindex
    refine ⟨(tracker.openScopes.take k).reverse, ?_, by simp [Nat.le_of_lt hk]⟩
    have hsplit : tracker.openScopes.take k ++ [index] <+: tracker.openScopes := by
      rw [← hget, List.take_append_getElem hk]
      exact List.take_prefix _ _
    rw [← List.reverse_suffix] at hsplit
    simpa [openScopes] using hsplit
  · rintro ⟨outer, hsuffix, rfl⟩
    obtain ⟨inner, hstack⟩ := hsuffix
    simp [openScopes, ← hstack]

/-- The open scopes are a way down the scope tree. -/
structure IsWayDown (root : Option Place) (tracker : Tracker) : Prop where
  /-- Some scope is open, and the outermost is the first that was made. -/
  head : tracker.openScopes.head? = some 0
  root_scope : tracker.arena[0]? = some ⟨root, Link.none⟩
  increasing : tracker.openScopes.Pairwise (· < ·)
  in_arena : ∀ index ∈ tracker.openScopes, index < tracker.arena.size
  /-- Each scope is linked to the one before, and its place stands directly
  inside that of the one before. -/
  linked : ∀ k outer inner, tracker.openScopes[k]? = some outer →
    tracker.openScopes[k + 1]? = some inner →
    ∃ place child link, tracker.arena[outer]? = some ⟨some place, link⟩ ∧
      tracker.arena[inner]? = some ⟨some child, (outer : Int)⟩ ∧ child ∈ place.children
  way : ∀ place, root = some place → ∃ chain : List Place,
    tracker.openPlaces = (place :: chain).map some ∧
      (place :: chain).IsChain Place.HasChild
  depth : ∀ place, root = some place → tracker.openScopes.length ≤ place.node.height
  /-- A root without a source stays alone. -/
  alone : root = none → tracker.openScopes = [0]

theorem Nested.linked {root : Option Place} {tracker : Tracker}
    (hnested : tracker.Nested root) {k outer inner : Nat}
    (houter : tracker.openScopes[k]? = some outer)
    (hinner : tracker.openScopes[k + 1]? = some inner) :
    ∃ place child link, tracker.arena[outer]? = some ⟨some place, link⟩ ∧
      tracker.arena[inner]? = some ⟨some child, (outer : Int)⟩ ∧ child ∈ place.children := by
  obtain ⟨rest, hsuffix, hlength⟩ := getElem?_openScopes_iff.mp hinner
  cases Arena.Nested.suffix hnested hsuffix (by simp) with
  | base => cases hlength
  | @inside _ parent outside place child link _ _ hparent hscope hchild =>
      have hfound : tracker.openScopes[k]? = some parent :=
        getElem?_openScopes_iff.mpr
          ⟨outside, (List.suffix_cons _ _).trans hsuffix, by simpa using hlength⟩
      rw [houter] at hfound
      cases hfound
      exact ⟨place, child, link, hparent, hscope, hchild⟩

theorem Nested.isWayDown {root : Option Place} {tracker : Tracker}
    (hnested : tracker.Nested root) : IsWayDown root tracker where
  head := by
    rw [openScopes, List.head?_reverse]
    exact Arena.Nested.getLast? hnested
  root_scope := Arena.Nested.root_scope hnested
  increasing := by
    rw [openScopes, List.pairwise_reverse]
    exact Arena.Nested.pairwise_gt hnested
  in_arena := by
    intro index hindex
    exact Arena.Nested.lt_size hnested index (List.mem_reverse.mp hindex)
  linked := fun _ _ _ houter hinner => hnested.linked houter hinner
  way := by
    rintro place rfl
    exact Arena.Nested.way hnested
  depth := by
    rintro place rfl
    obtain ⟨chain, hplaces, hchain⟩ := Arena.Nested.way hnested
    have hlength := congrArg List.length hplaces
    simp only [List.length_map] at hlength
    rw [openScopes, hlength]
    exact Place.length_le_height_of_isChain hchain
  alone := by
    rintro rfl
    rw [openScopes, Arena.Nested.alone hnested]
    rfl

/-- Whatever the body and whatever was asked of a tracker in whatever order, its
open scopes are a way down from the root that was pushed last. -/
theorem after_isWayDown {context : FunctionContext} (hsilent : context.mode = .silent)
    (tracker : Tracker) {requests : List Request} {root : Option Place}
    (hroot : lastRoot context requests = some root)
    (hsmall : (after context tracker requests).arena.size ≤ 2 ^ 31) :
    IsWayDown root (after context tracker requests) :=
  (nested_after hsilent tracker hroot hsmall).isWayDown

/-- Siblings that overlap, a stop outside the body and a stop before its start. -/
def overlappingTree : ScopeNode :=
  ⟨0, 9, [], [⟨0, 9, [], [⟨0, 0, [], []⟩]⟩, ⟨0, 1, [], []⟩, ⟨1, 0, [], []⟩]⟩

/-- A body with that tree, whose offsets do not increase. -/
def overlapping : FunctionContext where
  body := ⟨#[⟨4, some ⟨"", 1, 2⟩⟩, ⟨2, none⟩, ⟨9, none⟩], some overlappingTree⟩
  locals := #[]
  mode := .silent

/-- A scope without a parent is made between the openings, and the last advance
fails after it has closed one scope of two. -/
def interleaved : List Request :=
  [.prepare, .create (2 ^ 32 - 1) [0], .advance 0, .enter 1, .advance 2]

/-- Scope 3 is closed before the failure and scope 2, of the place at `[0]`, stays open. The
scope made by hand for the same place never was. -/
theorem isWayDown_overlapping :
    IsWayDown (some ⟨[], overlappingTree⟩) (after overlapping initial interleaved) ∧
      (after overlapping initial (interleaved.take 4)).openScopes = [0, 2, 3] ∧
      (step overlapping (after overlapping initial (interleaved.take 4)) (.advance 2)).1 =
        .error .noInstruction ∧
      (after overlapping initial interleaved).openScopes = [0, 2] ∧
      [0, 2].map (fun index =>
        ((after overlapping initial interleaved).arena.place? index).map Place.path) =
        [some [], some [0]] := by
  refine ⟨after_isWayDown rfl initial rfl (by decide +kernel), ?_⟩
  decide +kernel

/-- Following the links and searching the stack agree: what describes an open
scope is the innermost described scope of the stack up to it, or else the
subprogram. -/
theorem nearest_openScope {context : FunctionContext} (hsilent : context.mode = .silent)
    (tracker : Tracker) {requests : List Request} {root : Option Place}
    (hroot : lastRoot context requests = some root)
    (hsmall : (after context tracker requests).arena.size ≤ 2 ^ 31)
    {δ : Type} (described : Nat → Option δ) (subprogram : Option δ) {k index : Nat}
    (hindex : (after context tracker requests).openScopes[k]? = some index) :
    (after context tracker requests).arena.nearest described subprogram index =
      .ok ((((after context tracker requests).openScopes.take (k + 1)).reverse.findSome?
        described).or subprogram) := by
  have hnested := nested_after hsilent tracker hroot hsmall
  generalize after context tracker requests = final at hsmall hindex hnested ⊢
  obtain ⟨outer, hsuffix, rfl⟩ := getElem?_openScopes_iff.mp hindex
  have htake : (final.openScopes.take (outer.length + 1)).reverse = index :: outer := by
    obtain ⟨inner, hstack⟩ := hsuffix
    simp [openScopes, ← hstack, List.take_append, List.take_of_length_le]
  rw [htake]
  exact (Arena.Nested.suffix hnested hsuffix (by simp)).nearest_eq described subprogram hsmall

theorem nearest_overlapping :
    (after overlapping initial interleaved).arena.nearest
        (fun index => if index = 0 then some "root" else none) none 2 =
      .ok (some "root") := by
  have hroot : lastRoot overlapping interleaved = some (some ⟨[], overlappingTree⟩) := rfl
  have hopen : (after overlapping initial interleaved).openScopes[1]? = some 2 := by
    decide +kernel
  rw [nearest_openScope rfl initial hroot (by decide +kernel)
    (fun index => if index = 0 then some "root" else none) none hopen]
  decide +kernel

end DebugInfo.Tracker
