import DebugInfo.Proofs.Lockstep

/-!
The arena as a copy of the scope tree. A walk that visits every instruction of a
well-formed body makes one scope for each place that starts there, the outer
ones first, and links each to the scope of the place around it. No scope is
lost while others are closed, since a place that starts at an instruction has
all places around it open there. The bound on the number of scopes is the range
of a link, and a walk through a whole body succeeds for just those trees.
-/

namespace DebugInfo

namespace Place

/-- A place starts before another, or at the same instruction around it. -/
def Before (first second : Place) : Prop :=
  first.node.start < second.node.start ∨
    first.node.start = second.node.start ∧ second ∈ first.inside

/-- The places inside a place by their starts, up to a bound. -/
def byStart (bound : Nat) (place : Place) : List Place :=
  (List.range bound).flatMap fun start => place.inside.filter (·.node.start == start)

/-- Siblings everywhere in the tree are listed by their starts. -/
def ListedByStart (root : Place) : Prop :=
  ∀ place ∈ root.preorder, place.node.scopes.Pairwise fun first second =>
    first.start ≤ second.start

theorem byStart_succ (bound : Nat) (place : Place) :
    place.byStart (bound + 1) =
      place.byStart bound ++ place.inside.filter (·.node.start == bound) := by
  simp [byStart, List.range_succ]

theorem mem_byStart_iff {bound : Nat} {place inner : Place} :
    inner ∈ place.byStart bound ↔ inner ∈ place.inside ∧ inner.node.start < bound := by
  simp only [byStart, List.mem_flatMap, List.mem_range, List.mem_filter, beq_iff_eq]
  constructor
  · rintro ⟨start, hstart, hinner, rfl⟩
    exact ⟨hinner, hstart⟩
  · rintro ⟨hinner, hstart⟩
    exact ⟨_, hstart, hinner, rfl⟩

theorem nodup_inside (place : Place) : place.inside.Nodup :=
  place.nodup_paths_inside.of_map

theorem byStart_perm (bound : Nat) (place : Place) :
    (place.byStart bound).Perm (place.inside.filter (·.node.start < bound)) := by
  have hnodup : (place.byStart bound).Nodup := by
    induction bound with
    | zero => exact List.nodup_nil
    | succ bound ih =>
        rw [byStart_succ]
        refine List.nodup_append.mpr ⟨ih, place.nodup_inside.filter _, ?_⟩
        rintro inner hold _ hnew rfl
        have hlt := (mem_byStart_iff.mp hold).2
        have heq := (List.mem_filter.mp hnew).2
        rw [beq_iff_eq] at heq
        omega
  rw [List.perm_ext_iff_of_nodup hnodup (place.nodup_inside.filter _)]
  intro inner
  rw [mem_byStart_iff, List.mem_filter, decide_eq_true_iff]

section WellNested

variable {root : Place}

theorem WellNested.opened_range (hwell : root.WellNested) (index : Nat) :
    root.opened (List.range (index + 1)) =
      root.inside.filter (·.node.start == index) := by
  have hactive : root.active (List.range (index + 1)) =
      root.inside.filter (covers index) := by
    have hlast : (List.range (index + 1)).getLast? = some index := by
      simp [List.range_succ]
    simp only [active, hlast]
    apply hwell.covering_eq_filter
    intro visit hvisit
    rw [List.mem_range]
    omega
  rw [List.range_succ, opened_concat, ← List.range_succ, hactive, List.filter_filter]
  apply List.filter_congr
  intro place hplace
  have hordered := hwell.ordered place hplace
  rw [Bool.and_eq_left_iff_imp, beq_iff_eq, covers_iff]
  omega

theorem WellNested.made_range (hwell : root.WellNested) (bound : Nat) :
    root.made (List.range bound) = root.byStart bound := by
  induction bound with
  | zero => rfl
  | succ bound ih =>
      rw [byStart_succ, ← hwell.opened_range, ← ih, List.range_succ, made_concat]

theorem WellNested.pairwise_byStart (hwell : root.WellNested) (bound : Nat) :
    (root.byStart bound).Pairwise Before := by
  induction bound with
  | zero => exact List.Pairwise.nil
  | succ bound ih =>
      rw [byStart_succ]
      refine List.pairwise_append.mpr ⟨ih, ?_, ?_⟩
      · rw [← hwell.opened_range, List.range_succ, opened_concat]
        have hchain := pairwise_inside_of_isChain
          (isChain_active (List.range bound ++ [bound]) root)
        apply ((List.pairwise_cons.mp hchain).2.filter _).imp_of_mem
        intro outer inner houter hinner hinside
        have hfirst := (List.mem_filter.mp houter).2
        have hsecond := (List.mem_filter.mp hinner).2
        rw [beq_iff_eq] at hfirst hsecond
        exact Or.inr ⟨hfirst.trans hsecond.symm, hinside⟩
      · intro first hfirst second hsecond
        have hlt := (mem_byStart_iff.mp hfirst).2
        have heq := (List.mem_filter.mp hsecond).2
        rw [beq_iff_eq] at heq
        exact Or.inl (by omega)

theorem WellNested.pairwise_inside (hwell : root.WellNested) (hlisted : root.ListedByStart) :
    root.inside.Pairwise Before := by
  induction root using induction_children with
  | step root ih =>
      have hbelow {child : Place} (hchild : child ∈ root.children) : child.ListedByStart := by
        intro place hplace
        exact hlisted place (mem_preorder_of_mem_children hchild hplace)
      have hrange {child inner : Place} (hchild : child ∈ root.children)
          (hinner : inner ∈ child.preorder) :
          child.node.start ≤ inner.node.start ∧ inner.node.stop ≤ child.node.stop := by
        rw [preorder_eq] at hinner
        rcases List.mem_cons.mp hinner with rfl | hinside
        · exact ⟨Nat.le_refl _, Nat.le_refl _⟩
        · exact hwell.range_of_mem_inside (mem_inside_of_mem_children hchild) hinside
      have hordered {child inner : Place} (hchild : child ∈ root.children)
          (hinner : inner ∈ child.preorder) : inner.node.start ≤ inner.node.stop :=
        hwell.ordered inner (List.mem_flatMap.mpr ⟨child, hchild, hinner⟩)
      rw [inside, List.pairwise_flatMap]
      constructor
      · intro child hchild
        rw [preorder_eq, List.pairwise_cons]
        refine ⟨?_, ih child hchild (hwell.child hchild) (hbelow hchild)⟩
        intro inner hinner
        have hstart := hwell.range_of_mem_inside (mem_inside_of_mem_children hchild) hinner
        rcases Nat.lt_or_eq_of_le hstart.1 with hlt | heq
        · exact Or.inl hlt
        · exact Or.inr ⟨heq, hinner⟩
      · have hsiblings : root.children.Pairwise fun first second =>
            first.node.start ≤ second.node.start := by
          have hscopes := hlisted root root.mem_preorder_self
          exact pairwise_children hscopes
        apply (hsiblings.and hwell.children_apart).imp_of_mem
        rintro left right hleft hright ⟨hle, hapart⟩ first hfirst second hsecond
        have hfirst_range := hrange hleft hfirst
        have hsecond_range := hrange hright hsecond
        have hfirst_ordered := hordered hleft hfirst
        have hright_ordered := hordered hright right.mem_preorder_self
        unfold ScopeNode.Apart at hapart
        exact Or.inl (by omega)

theorem WellNested.byStart_eq_filter (hwell : root.WellNested) (hlisted : root.ListedByStart)
    (bound : Nat) : root.byStart bound = root.inside.filter (·.node.start < bound) := by
  apply List.Perm.eq_of_pairwise _ (hwell.pairwise_byStart bound)
    ((hwell.pairwise_inside hlisted).filter _) (root.byStart_perm bound)
  intro first second _ _ hbefore hbehind
  rcases hbefore with hlt | ⟨heq, hinside⟩
  · rcases hbehind with hlt' | ⟨heq', -⟩ <;> omega
  · rcases hbehind with hlt' | ⟨-, hinside'⟩
    · omega
    · exact absurd rfl (path_ne_of_mem_inside (mem_inside_trans hinside hinside'))

end WellNested

end Place

/-- Every scope but the first was made for a place directly inside that of an
earlier scope, and is linked to that scope. -/
def Arena.Linked (arena : Arena) : Prop :=
  ∀ index scope, arena[index]? = some scope → 0 < index →
    ∃ parent place child, parent < index ∧ scope = ⟨some child, (parent : Int)⟩ ∧
      arena.place? parent = some place ∧ child ∈ place.children

theorem Arena.Linked.push {arena : Arena} (hlinked : arena.Linked) {parent : Nat}
    {place child : Place} (hplace : arena.place? parent = some place)
    (hchild : place.HasChild child) :
    Arena.Linked (Array.push arena ⟨some child, (parent : Int)⟩) := by
  have hparent : parent < arena.size := Arena.lt_size_of_place? hplace
  intro index scope hscope hpositive
  rw [Array.getElem?_push] at hscope
  split at hscope
  case isTrue hnew =>
    cases hscope
    refine ⟨parent, place, child, hnew ▸ hparent, rfl, ?_, hchild⟩
    rw [Arena.place?_push_of_lt _ hparent, hplace]
  case isFalse =>
    have hindex : index < arena.size := (Array.getElem?_eq_some_iff.mp hscope).1
    obtain ⟨above, around, inner, hlt, heq, habove, hinner⟩ :=
      hlinked index scope hscope hpositive
    refine ⟨above, around, inner, hlt, heq, ?_, hinner⟩
    rw [Arena.place?_push_of_lt _ (Nat.lt_trans hlt hindex), habove]

namespace Tracker

section Linked

variable {context : FunctionContext} {root : Option Place} {tracker : Tracker}

theorem Nested.linked_advance (hsilent : context.mode.isDescribing = false)
    (hnested : tracker.Nested root) (hlinked : tracker.arena.Linked) (index : Nat)
    (hsmall : ((Tracker.advance context index).answer tracker).2.arena.size ≤ 2 ^ 31) :
    ((Tracker.advance context index).answer tracker).2.arena.Linked :=
  hnested.advance_induction (fun _ _ _ _ hplace hchild hkept => hkept.push hplace hchild)
    hsilent hlinked index hsmall

theorem linked_root (source : Option Place) :
    Arena.Linked #[⟨source, Link.none⟩] := by
  intro index scope hscope hpositive
  have hindex := (Array.getElem?_eq_some_iff.mp hscope).1
  simp only [List.size_toArray, List.length_singleton] at hindex
  omega

theorem linked_after_walk {root : Place} (hsilent : context.mode = .silent)
    (hwell : context.body.WellFormed) (hroot : context.body.rootPlace = some root)
    (tracker : Tracker) {first : Request} (hfirst : first.root? context = some (some root))
    {visits : List Nat} (hsorted : visits.Pairwise (· < ·))
    (hvisits : ∀ visit ∈ visits, visit < context.body.instructions.size)
    (hroom : (root.made visits).length < 2 ^ 31) :
    (after context tracker (walk first visits)).arena.Linked := by
  have hnoisy : context.mode.isDescribing = false := by rw [hsilent]; rfl
  have hvisit : ∀ earlier index, earlier ++ [index] <+: visits → ∀ current,
      Walked root earlier current ∧ current.arena.Linked → ∃ next,
        (Tracker.advance context index).answer current = (.ok (), next) ∧
          Walked root (earlier ++ [index]) next ∧ next.arena.Linked := by
    rintro earlier index hinitial current ⟨hwalked, hlinked⟩
    have hmade := Nat.lt_of_le_of_lt (Place.made_length_mono hinitial root) hroom
    obtain ⟨next, hanswer, hnext⟩ := hwalked.advance hnoisy hwell hroot
      (hsorted.sublist hinitial.sublist) (hvisits index (hinitial.subset (by simp))) hmade
    have hmore := hwalked.nested.linked_advance hnoisy hlinked index
    have hsize := hnext.size_eq
    rw [hanswer] at hmore
    refine ⟨next, hanswer, hnext, hmore ?_⟩
    simp only
    omega
  exact (walk_induction (motive := fun visited current =>
      Walked root visited current ∧ current.arena.Linked)
    hsilent tracker hfirst ⟨Walked.start tracker root, linked_root (some root)⟩ hvisit).2.2

/-- In a body without a tree an advance makes no scope and cannot fail. -/
theorem Nested.advance_alone (hsilent : context.mode.isDescribing = false)
    (hnested : tracker.Nested none) (hsmall : tracker.arena.size ≤ 2 ^ 31) {index : Nat}
    (hindex : index < context.body.instructions.size) :
    ∃ next, (Tracker.advance context index).answer tracker = (.ok (), next) ∧
      next.Nested none ∧ next.arena = tracker.arena := by
  have hinstruction := Body.instruction_eq_ok hindex
  have hstack : tracker.stack = [0] := Arena.Nested.alone hnested
  have hclosing : tracker.closing context.body context.body.instructions[index].offset =
      (.ok (), tracker.stack) := by
    unfold Tracker.closing
    rw [hstack]
    rfl
  have hopening : tracker.opening index = [] := hnested.opening_eq_nil index
  have hadvance := answer_advance context index tracker
  simp only [hinstruction, hclosing] at hadvance
  have hsize : ((openAt context context.body.instructions[index] index).answer
      tracker).2.arena.size ≤ 2 ^ 31 := by
    obtain ⟨position, hposition⟩ :=
      openAt_keeps context context.body.instructions[index] index tracker
    rw [hposition, hopening]
    exact hsmall
  obtain ⟨hanswer, hreached⟩ := hnested.answer_openAt hsilent hinstruction hsize
  refine ⟨_, hadvance.trans hanswer, hreached, ?_⟩
  simp only [reached, hopening]
  rfl

end Linked

end Tracker

def Body.ListedByStart (body : Body) : Prop :=
  ∀ root ∈ body.rootPlace, root.ListedByStart

/-- The arena is a copy of the scope tree up to an instruction: the root, and
behind it one scope for each place in a list. -/
structure Arena.IsCopy (body : Body) (last : Nat) (made : List Place) (arena : Arena) :
    Prop where
  root_scope : arena[0]? = some ⟨body.rootPlace, Link.none⟩
  sources : arena.toList.map Scope.source = body.rootPlace :: made.map some
  /-- Each place of the tree that starts up to the instruction is listed once. -/
  once : made.Perm (body.innerPlaces.filter (·.node.start ≤ last))
  ordered : made.Pairwise Place.Before
  linked : arena.Linked
  /-- Where siblings are listed by their starts, the list goes through the tree
  from the outside in. -/
  preorder : body.ListedByStart →
    made = body.innerPlaces.filter (·.node.start ≤ last)
  /-- After the last instruction every place of the tree is listed. -/
  complete : last + 1 = body.instructions.size →
    made.Perm body.innerPlaces ∧ (body.ListedByStart → made = body.innerPlaces)

theorem Body.WellFormed.filter_innerPlaces {body : Body} (hwell : body.WellFormed)
    {last : Nat} (hlast : last + 1 = body.instructions.size) :
    body.innerPlaces.filter (·.node.start ≤ last) = body.innerPlaces := by
  rw [List.filter_eq_self]
  intro place hplace
  have hstart := hwell.start_lt hplace
  rw [decide_eq_true_iff]
  omega

namespace Tracker

variable {context : FunctionContext}

theorem Walked.isCopy {tracker : Tracker} {root : Place} {last : Nat}
    (hwell : context.body.WellFormed) (hroot : context.body.rootPlace = some root)
    (hwalked : Walked root (List.range (last + 1)) tracker) (hlinked : tracker.arena.Linked) :
    tracker.arena.IsCopy context.body last (root.byStart (last + 1)) := by
  have hnested := hwell.nested root hroot
  have hfilter : (context.body.innerPlaces.filter (·.node.start ≤ last)) =
      root.inside.filter (·.node.start < last + 1) := by
    rw [Body.innerPlaces_eq hroot]
    apply List.filter_congr
    intro place _
    exact decide_eq_decide.mpr Nat.lt_succ_iff.symm
  have honce : (root.byStart (last + 1)).Perm
      (context.body.innerPlaces.filter (·.node.start ≤ last)) := by
    rw [hfilter]
    exact root.byStart_perm (last + 1)
  have hpreorder : context.body.ListedByStart → root.byStart (last + 1) =
      context.body.innerPlaces.filter (·.node.start ≤ last) := by
    intro hlisted
    rw [hfilter]
    exact hnested.byStart_eq_filter (hlisted root hroot) (last + 1)
  refine ⟨?_, ?_, honce, hnested.pairwise_byStart _, hlinked, hpreorder, ?_⟩
  · rw [hroot]
    exact Arena.Nested.root_scope hwalked.nested
  · rw [hroot, ← hnested.made_range]
    exact hwalked.madePlaces
  · intro hlast
    rw [hwell.filter_innerPlaces hlast] at honce hpreorder
    exact ⟨honce, hpreorder⟩

theorem isCopy_of_no_tree {body : Body} (hroot : body.rootPlace = none) (last : Nat) :
    Arena.IsCopy body last [] #[⟨none, Link.none⟩] := by
  have hinner : body.innerPlaces = [] := by
    rw [Body.innerPlaces, hroot]
    rfl
  refine ⟨?_, ?_, ?_, List.Pairwise.nil, linked_root none, ?_, ?_⟩
  · rw [hroot]
    rfl
  · rw [hroot]
    rfl
  · rw [hinner]
    exact List.Perm.refl _
  · intro _
    rw [hinner]
    rfl
  · intro _
    rw [hinner]
    exact ⟨List.Perm.refl _, fun _ => rfl⟩

theorem arena_after_walk_alone (hsilent : context.mode = .silent)
    (hroot : context.body.rootPlace = none) (tracker : Tracker) {count : Nat}
    (hcount : count ≤ context.body.instructions.size) :
    (∀ reply ∈ run context tracker (walk .prepare (List.range count)),
      reply.1.isOk = true) ∧
    (after context tracker (walk .prepare (List.range count))).arena =
      #[⟨none, Link.none⟩] := by
  have hpushes : Request.root? context .prepare = some none := congrArg some hroot
  have hvisit : ∀ earlier index, earlier ++ [index] <+: List.range count → ∀ current,
      current.Nested none ∧ current.arena = #[⟨none, Link.none⟩] → ∃ next,
        (Tracker.advance context index).answer current = (.ok (), next) ∧
          next.Nested none ∧ next.arena = #[⟨none, Link.none⟩] := by
    rintro earlier index hinitial current ⟨hnested, harena⟩
    have hindex : index ∈ List.range count := hinitial.subset (by simp)
    obtain ⟨next, hanswer, hnext, hkeep⟩ := hnested.advance_alone (by rw [hsilent]; rfl)
      (by simp [harena]) (Nat.lt_of_lt_of_le (List.mem_range.mp hindex) hcount)
    exact ⟨next, hanswer, hnext, hkeep.trans harena⟩
  obtain ⟨hsucceeds, -, harena⟩ :=
    walk_induction (motive := fun _ current =>
      current.Nested none ∧ current.arena = #[⟨none, Link.none⟩])
      hsilent tracker hpushes ⟨.base rfl, rfl⟩ hvisit
  exact ⟨hsucceeds, harena⟩

/-- The arena is a faithful copy of the scope tree. A walk that visits every
instruction of a well-formed body up to some never fails, and makes one scope
for each place that starts there: by their starts, the outer before the inner,
each linked to the scope of the place around it. Links can lead to no more than
`2 ^ 31` scopes, the root among them. -/
theorem arena_after_walk (hsilent : context.mode = .silent)
    (hwell : context.body.WellFormed)
    (hlinks : context.body.innerPlaces.length < 2 ^ 31) (tracker : Tracker) {last : Nat}
    (hlast : last < context.body.instructions.size) :
    (∀ reply ∈ run context tracker (walk .prepare (List.range (last + 1))),
      reply.1.isOk = true) ∧
    ∃ made, (after context tracker (walk .prepare (List.range (last + 1)))).arena.IsCopy
      context.body last made := by
  cases hroot : context.body.rootPlace with
  | none =>
      obtain ⟨hsucceeds, harena⟩ := arena_after_walk_alone hsilent hroot tracker hlast
      refine ⟨hsucceeds, [], ?_⟩
      rw [harena]
      exact isCopy_of_no_tree hroot last
  | some root =>
      rw [Body.innerPlaces_eq hroot] at hlinks
      have hpushes : Request.root? context .prepare = some (some root) := congrArg some hroot
      have hsorted : (List.range (last + 1)).Pairwise (· < ·) := List.pairwise_lt_range
      have hvisits : ∀ visit ∈ List.range (last + 1),
          visit < context.body.instructions.size := by
        intro visit hvisit
        exact Nat.lt_of_lt_of_le (List.mem_range.mp hvisit) hlast
      have hroom := Nat.lt_of_le_of_lt (Place.length_made_le hsorted root) hlinks
      obtain ⟨hsucceeds, hwalked⟩ :=
        Walked.after_walk hsilent hwell hroot tracker hpushes hsorted hvisits hroom
      have hlinked :=
        linked_after_walk hsilent hwell hroot tracker hpushes hsorted hvisits hroom
      exact ⟨hsucceeds, _, hwalked.isCopy hwell hroot hlinked⟩

theorem arena_unordered :
    ∃ made, (after unordered initial (walk .prepare (List.range 4))).arena.IsCopy
      unordered.body 3 made :=
  (arena_after_walk rfl wellFormed_unordered (by decide +kernel) initial (by decide)).2

/-- The bound on the size of the tree is sharp. A walk through a whole body fails
as soon as there are more scopes than links can lead to. -/
theorem walk_through_succeeds_iff (hsilent : context.mode = .silent)
    (hwell : context.body.WellFormed) {root : Place}
    (hroot : context.body.rootPlace = some root) (tracker : Tracker) {first : Request}
    (hfirst : first.root? context = some (some root)) :
    (∀ reply ∈ run context tracker
        (walk first (List.range context.body.instructions.size)), reply.1.isOk = true) ↔
      root.inside.length < 2 ^ 31 := by
  have hvisits : ∀ visit ∈ List.range context.body.instructions.size,
      visit < context.body.instructions.size := fun _ => List.mem_range.mp
  have hlength : (root.made (List.range context.body.instructions.size)).length =
      root.inside.length := by
    rw [(hwell.nested root hroot).made_range, (root.byStart_perm _).length_eq]
    congr 1
    rw [List.filter_eq_self]
    intro place hplace
    rw [← Body.innerPlaces_eq hroot] at hplace
    exact decide_eq_true (hwell.start_lt hplace)
  rw [walk_succeeds_iff hsilent hwell hroot tracker hfirst List.pairwise_lt_range hvisits,
    hlength]

end Tracker

end DebugInfo
