import DebugInfo.Proofs.Modes
import DebugInfo.Proofs.StepLaw
import DebugInfo.Proofs.TreeCopy

/-!
A cursor that only moves forward, in any body, while functions are not described. Nothing is
asked of the scope tree: ranges may overlap, stick out or be empty, and visits may fail.
Closing may then be early or never happen, but what opens at a visit starts there, so no two
visits open the same place, and the places that one visit opens lie one inside the other. A
cursor that goes back can open a place again.
-/

namespace DebugInfo

theorem Body.nodup_paths_innerPlaces (body : Body) :
    (body.innerPlaces.map Place.path).Nodup := by
  unfold innerPlaces
  cases body.rootPlace with
  | none => exact List.nodup_nil
  | some root => exact root.nodup_paths_inside

/-- No node of the scope tree has more than one scope. -/
structure Arena.OpensOnce (body : Body) (arena : Arena) : Prop where
  root_scope : arena[0]? = some ⟨body.rootPlace, Link.none⟩
  /-- Nodes are told apart by their paths. -/
  once : ∀ first second place other, arena.place? first = some place →
    arena.place? second = some other → place.path = other.path → first = second
  /-- The scopes are not more than the nodes, with the root counted even where it has no
  source. -/
  size_le : arena.size ≤ body.innerPlaces.length + 1
  /-- Every scope but the first comes from below the root, and is linked to the only scope
  of the place around its own. -/
  linked : ∀ index scope, arena[index]? = some scope → 0 < index →
    ∃ parent around place, scope = ⟨some place, (parent : Int)⟩ ∧ place ∈ body.innerPlaces ∧
      place ∈ around.children ∧ ∀ other, arena.place? other = some around ↔ other = parent
  /-- Behind the root, scopes are made in the order of their starts. -/
  ordered : ∀ first second place other, 0 < first → first < second →
    arena.place? first = some place → arena.place? second = some other →
    place.node.start ≤ other.node.start

namespace Tracker

theorem place?_eq_some_iff {tracker : Tracker} {index : Nat} {place : Place} :
    tracker.arena.place? index = some place ↔
      tracker.madePlaces[index]? = some (some place) := by
  simp only [Arena.place?, madePlaces, List.getElem?_map, Array.getElem?_toList,
    Option.bind_eq_some_iff, Option.map_eq_some_iff]

/-- What one visit opens are different places. -/
theorem nodup_opening (tracker : Tracker) (index : Nat) : (tracker.opening index).Nodup := by
  rw [opening_eq]
  cases tracker.innermost? with
  | none => exact List.nodup_nil
  | some place => exact (Place.nodup_of_isChain (place.isChain_descent index)).of_cons

/-- Where a cursor stands that only moved forward, and the places that it opened. -/
structure Forward (body : Body) (visits : List Nat) (made : List Place) (tracker : Tracker) :
    Prop where
  nested : tracker.Nested body.rootPlace
  linked : tracker.arena.Linked
  sources : tracker.madePlaces = body.rootPlace :: made.map some
  nodup : made.Nodup
  inTree : ∀ place ∈ made, place ∈ body.innerPlaces
  visited : ∀ place ∈ made, place.node.start ∈ visits
  ordered : made.Pairwise fun first second => first.node.start ≤ second.node.start

section Steps

variable {context : FunctionContext} {tracker : Tracker} {visits : List Nat}
  {made : List Place}

theorem Forward.start (body : Body) (tracker : Tracker) :
    Forward body [] [] { tracker with arena := #[⟨body.rootPlace, Link.none⟩], stack := [0] }
    where
  nested := .base rfl
  linked := linked_root body.rootPlace
  sources := rfl
  nodup := List.nodup_nil
  inTree := fun _ hplace => absurd hplace List.not_mem_nil
  visited := fun _ hplace => absurd hplace List.not_mem_nil
  ordered := List.Pairwise.nil

/-- A visit that opens nothing leaves what was opened before. -/
theorem Forward.closed (hforward : Forward context.body visits made tracker) {next : Tracker}
    (hnested : next.Nested context.body.rootPlace) (harena : next.arena = tracker.arena)
    (index : Nat) : Forward context.body (visits ++ [index]) made next where
  nested := hnested
  linked := harena ▸ hforward.linked
  sources := by
    rw [madePlaces, harena]
    exact hforward.sources
  nodup := hforward.nodup
  inTree := hforward.inTree
  visited := fun place hplace => List.mem_append_left _ (hforward.visited place hplace)
  ordered := hforward.ordered

/-- A visit behind all earlier ones opens places that were not opened before. -/
theorem Forward.advance (hsilent : context.mode.isDescribing = false)
    (hforward : Forward context.body visits made tracker) {index : Nat}
    (hbefore : ∀ visit ∈ visits, visit < index)
    (hsmall : ((Tracker.advance context index).answer tracker).2.arena.size ≤ 2 ^ 31) :
    ∃ opened, Forward context.body (visits ++ [index]) (made ++ opened)
      ((Tracker.advance context index).answer tracker).2 := by
  have hlinked := hforward.nested.linked_advance hsilent hforward.linked index hsmall
  have hnested := hforward.nested.advance index hsmall
  rcases hforward.nested.advance_cases hsilent index hsmall with ⟨failure, -, hadvance⟩ |
    ⟨instruction, failure, stack, -, -, hadvance⟩ |
    ⟨instruction, stack, -, hclosing, hadvance, -⟩
  · refine ⟨[], ?_⟩
    rw [List.append_nil]
    exact hforward.closed hnested (by rw [hadvance]) index
  · refine ⟨[], ?_⟩
    rw [List.append_nil]
    exact hforward.closed hnested (by rw [hadvance]) index
  · rw [hadvance] at hlinked hnested ⊢
    let left : Tracker := { tracker with stack }
    have hbegun : Begun context.body left :=
      ⟨_, .inr rfl, hforward.nested.of_closing hclosing⟩
    refine ⟨left.opening index, hnested, hlinked, ?_, ?_, ?_, ?_, ?_⟩
    · rw [madePlaces_reached, List.map_append, ← List.cons_append, ← hforward.sources]
      rfl
    · refine List.nodup_append.mpr ⟨hforward.nodup, left.nodup_opening index, ?_⟩
      rintro place hold _ hnew rfl
      have hlt := hbefore _ (hforward.visited place hold)
      have heq := start_of_mem_opening hnew
      omega
    · intro place hplace
      rcases List.mem_append.mp hplace with hold | hnew
      · exact hforward.inTree place hold
      · exact hbegun.mem_innerPlaces hnew
    · intro place hplace
      apply List.mem_append.mpr
      rcases List.mem_append.mp hplace with hold | hnew
      · exact .inl (hforward.visited place hold)
      · exact .inr (List.mem_singleton.mpr (start_of_mem_opening hnew))
    · refine List.pairwise_append.mpr ⟨hforward.ordered, ?_, ?_⟩
      · refine List.pairwise_of_forall_mem_list fun first hfirst second hsecond => ?_
        rw [start_of_mem_opening hfirst, start_of_mem_opening hsecond]
      · intro first hfirst second hsecond
        have hlt := hbefore _ (hforward.visited first hfirst)
        rw [start_of_mem_opening hsecond]
        omega

theorem forward_after_walk (hsilent : context.mode = .silent) (tracker : Tracker)
    {first : Request} (hfirst : first.root? context = some context.body.rootPlace)
    (hsorted : visits.Pairwise (· < ·))
    (hsmall : (after context tracker (walk first visits)).arena.size ≤ 2 ^ 31) :
    ∃ made, Forward context.body visits made (after context tracker (walk first visits)) := by
  induction visits using List.reverseRecOn with
  | nil =>
      obtain ⟨answer, hstep⟩ := step_of_root? hsilent hfirst tracker
      refine ⟨[], ?_⟩
      change Forward context.body [] [] (step context tracker first).2
      rw [hstep]
      exact Forward.start context.body tracker
  | append_singleton earlier index ih =>
      obtain ⟨hearlier, -, hbefore⟩ := List.pairwise_append.mp hsorted
      rw [walk_concat, after_concat, step_advance] at hsmall ⊢
      have hgrown := (extends_advance context index
        (after context tracker (walk first earlier))).size_le
      obtain ⟨made, hforward⟩ := ih hearlier (hgrown.trans hsmall)
      have hvisit : ∀ visit ∈ earlier, visit < index :=
        fun visit hmem => hbefore visit hmem index (List.mem_singleton_self index)
      obtain ⟨opened, hnext⟩ := hforward.advance (by rw [hsilent]; rfl) hvisit hsmall
      exact ⟨made ++ opened, hnext⟩

end Steps

/-! What can be seen in the arena -/

section Arena

variable {body : Body} {visits : List Nat} {made : List Place} {tracker : Tracker}

/-- A scope is the root, or it was opened at a visit. -/
theorem Forward.place?_cases (hforward : Forward body visits made tracker) {index : Nat}
    {place : Place} (hplace : tracker.arena.place? index = some place) :
    (index = 0 ∧ body.rootPlace = some place) ∨
      ∃ position, index = position + 1 ∧ made[position]? = some place := by
  rw [place?_eq_some_iff, hforward.sources] at hplace
  cases index with
  | zero => exact .inl ⟨rfl, by simpa using hplace⟩
  | succ position => exact .inr ⟨position, rfl, by simpa using hplace⟩

theorem Forward.once (hforward : Forward body visits made tracker) {first second : Nat}
    {place other : Place} (hfirst : tracker.arena.place? first = some place)
    (hsecond : tracker.arena.place? second = some other) (hpath : place.path = other.path) :
    first = second := by
  rcases hforward.place?_cases hfirst with ⟨rfl, hroot⟩ | ⟨k, rfl, hk⟩
  · rcases hforward.place?_cases hsecond with ⟨rfl, -⟩ | ⟨l, rfl, hl⟩
    · rfl
    · have hinner := hforward.inTree other (List.mem_of_getElem? hl)
      rw [Body.innerPlaces_eq hroot] at hinner
      exact absurd hpath (Place.path_ne_of_mem_inside hinner)
  · have hplace := hforward.inTree place (List.mem_of_getElem? hk)
    rcases hforward.place?_cases hsecond with ⟨rfl, hroot⟩ | ⟨l, rfl, hl⟩
    · rw [Body.innerPlaces_eq hroot] at hplace
      exact absurd hpath.symm (Place.path_ne_of_mem_inside hplace)
    · have hother := hforward.inTree other (List.mem_of_getElem? hl)
      obtain rfl : place = other :=
        List.inj_on_of_nodup_map body.nodup_paths_innerPlaces hplace hother hpath
      obtain ⟨hlt, -⟩ := List.getElem?_eq_some_iff.mp hk
      rw [(List.getElem?_inj hlt hforward.nodup).mp (hk.trans hl.symm)]

theorem Forward.size_le (hforward : Forward body visits made tracker) :
    tracker.arena.size ≤ body.innerPlaces.length + 1 := by
  have hlength := congrArg List.length hforward.sources
  have hmade := (hforward.nodup.subperm fun _ hplace => hforward.inTree _ hplace).length_le
  simp only [madePlaces, List.length_map, Array.length_toList, List.length_cons] at hlength
  omega

theorem Forward.ordered_places (hforward : Forward body visits made tracker)
    {first second : Nat} {place other : Place} (hpositive : 0 < first) (hlt : first < second)
    (hfirst : tracker.arena.place? first = some place)
    (hsecond : tracker.arena.place? second = some other) :
    place.node.start ≤ other.node.start := by
  rcases hforward.place?_cases hfirst with ⟨rfl, -⟩ | ⟨k, rfl, hk⟩
  · omega
  · rcases hforward.place?_cases hsecond with ⟨rfl, -⟩ | ⟨l, rfl, hl⟩
    · omega
    · obtain ⟨hklt, rfl⟩ := List.getElem?_eq_some_iff.mp hk
      obtain ⟨hllt, rfl⟩ := List.getElem?_eq_some_iff.mp hl
      exact List.pairwise_iff_getElem.mp hforward.ordered k l hklt hllt (by omega)

theorem Forward.opensOnce (hforward : Forward body visits made tracker) :
    tracker.arena.OpensOnce body where
  root_scope := Arena.Nested.root_scope hforward.nested
  once := fun _ _ _ _ hfirst hsecond hpath => hforward.once hfirst hsecond hpath
  size_le := hforward.size_le
  linked := by
    intro index scope hscope hpositive
    obtain ⟨parent, around, place, -, rfl, hparent, hchild⟩ :=
      hforward.linked index scope hscope hpositive
    have hplace : tracker.arena.place? index = some place := by rw [Arena.place?, hscope]; rfl
    refine ⟨parent, around, place, rfl, ?_, hchild, fun other => ⟨fun hother => ?_, ?_⟩⟩
    · rcases hforward.place?_cases hplace with ⟨rfl, -⟩ | ⟨position, -, hmade⟩
      · omega
      · exact hforward.inTree place (List.mem_of_getElem? hmade)
    · exact hforward.once hother hparent rfl
    · rintro rfl
      exact hparent
  ordered := fun _ _ _ _ hpositive hlt hfirst hsecond =>
    hforward.ordered_places hpositive hlt hfirst hsecond

end Arena

/-- Whatever the scope tree, a function that is begun with its root and followed forward,
with visits that may skip instructions or fail, opens no node of the tree twice. Each scope
is linked to that of the node around its own, and scopes are made by their starts. -/
theorem forward_walk_opens_once {context : FunctionContext} (hsilent : context.mode = .silent)
    (tracker : Tracker) {first : Request}
    (hfirst : first.root? context = some context.body.rootPlace) {visits : List Nat}
    (hsorted : visits.Pairwise (· < ·))
    (hsmall : (after context tracker (walk first visits)).arena.size ≤ 2 ^ 31) :
    (after context tracker (walk first visits)).arena.OpensOnce context.body := by
  obtain ⟨made, hforward⟩ := forward_after_walk hsilent tracker hfirst hsorted hsmall
  exact hforward.opensOnce

/-- Four scopes are opened. The last two visits fail, the first of them at a scope that ends
outside the body and the second for want of an instruction. -/
theorem opensOnce_crossing :
    (after crossing initial (walk .prepare [0, 1, 2, 7])).arena.size = 5 ∧
      (after crossing initial (walk .prepare [0, 1, 2, 7])).arena.OpensOnce crossing.body :=
  ⟨by decide +kernel, forward_walk_opens_once rfl initial rfl (by decide) (by decide +kernel)⟩

end Tracker

end DebugInfo
