import DebugInfo.Proofs.Nesting

/-!
What opening scopes does to a tracker whose open scopes lie one inside the
other, while functions are not described. `nest` is the change that opening one
place makes. Opening a chain of places cannot fail as long as every index fits
into a link; past that bound the arena shows it, since a scope is made before
its links are followed.
-/

namespace DebugInfo.Tracker

/-- The open scopes lie one inside the other, below a root with this source. -/
def Nested (root : Option Place) (tracker : Tracker) : Prop :=
  tracker.arena.Nested root tracker.stack

def innermost? (tracker : Tracker) : Option Place :=
  tracker.stack.head?.bind tracker.arena.place?

/-- Open a place inside the innermost open scope, and move to a position. -/
def nest (position : Position) (tracker : Tracker) (place : Place) : Tracker where
  arena := tracker.arena.push ⟨some place, Link.ofIndex (tracker.stack.headD 0)⟩
  stack := tracker.arena.size :: tracker.stack
  position := position

@[simp] theorem stack_nest (position : Position) (tracker : Tracker) (place : Place) :
    (tracker.nest position place).stack = tracker.arena.size :: tracker.stack := rfl

@[simp] theorem size_nest (position : Position) (tracker : Tracker) (place : Place) :
    (tracker.nest position place).arena.size = tracker.arena.size + 1 := by
  simp [nest]

@[simp] theorem innermost?_nest (position : Position) (tracker : Tracker) (place : Place) :
    (tracker.nest position place).innermost? = some place := by
  simp [innermost?, Arena.place?, nest]

/-- What is left where links run out. Places are opened, and then the scope of one more is
made and put on the stack, but it cannot be entered, so the position stays. -/
def overrun (position : Position) (tracker : Tracker) (opened : List Place) (stop : Place) :
    Tracker :=
  let full := opened.foldl (nest position) tracker
  full.nest full.position stop

theorem opening_eq (tracker : Tracker) (index : Nat) :
    tracker.opening index =
      match tracker.innermost? with
      | some place => place.descent index
      | none => [] := by
  unfold opening innermost? Arena.place?
  cases tracker.stack.head? with
  | none => rfl
  | some top =>
      simp only [Option.bind_some]
      cases tracker.arena[top]? with
      | none => rfl
      | some scope =>
          obtain ⟨source, parent⟩ := scope
          cases source <;> rfl

section Nested

variable {root : Option Place} {tracker : Tracker}

/-- A root without a source stands alone, and nothing opens inside it. -/
theorem Nested.opening_eq_nil (hnested : tracker.Nested none) (index : Nat) :
    tracker.opening index = [] := by
  simp [opening, Arena.Nested.alone hnested, Arena.Nested.root_scope hnested]

theorem Nested.nest (hnested : tracker.Nested root) {place child : Place}
    (hplace : tracker.innermost? = some place) (hchild : place.HasChild child)
    (hsmall : tracker.arena.size ≤ 2 ^ 31) (position : Position) :
    (tracker.nest position child).Nested root := by
  obtain ⟨top, outer, hstack⟩ := List.exists_cons_of_ne_nil hnested.ne_nil
  have htop : top < tracker.arena.size := hnested.lt_size top (by simp [hstack])
  obtain ⟨scope, hscope, hsource⟩ :
      ∃ scope, tracker.arena[top]? = some scope ∧ scope.source = some place := by
    simpa [innermost?, Arena.place?, hstack, Option.bind_eq_some_iff] using hplace
  obtain ⟨source, link⟩ := scope
  subst hsource
  let arena : Arena := tracker.arena.push ⟨some child, Link.ofIndex top⟩
  have hparent : arena[top]? = some ⟨some place, link⟩ := by
    rw [Array.getElem?_push_lt htop, ← hscope]
    exact (Array.getElem?_eq_getElem htop).symm
  have hnew : arena[tracker.arena.size]? = some ⟨some child, (top : Int)⟩ := by
    rw [Array.getElem?_push_size, Link.ofIndex_of_lt (Nat.lt_of_lt_of_le htop hsmall)]
  have hpushed : arena.Nested root (top :: outer) := by
    rw [← hstack]
    exact Arena.Nested.push hnested _
  unfold Nested
  simp only [Tracker.nest, hstack, List.headD_cons]
  exact .inside hpushed htop hparent hnew hchild

theorem Nested.answer_locate (hnested : tracker.Nested root) {index : Nat} {outer : List Nat}
    (hstack : tracker.stack = index :: outer) (hsmall : tracker.arena.size ≤ 2 ^ 31)
    (point : Option SequencePoint) :
    (locate point index).answer tracker =
      (.ok (), { tracker with position := .ofPoint point }) := by
  unfold Nested at hnested
  rw [hstack] at hnested
  have hnearest := hnested.nearest_eq (fun _ => (none : Option Unit)) none hsmall
  simp only [locate, Action.answer_bind, answer_checkLinks, hnearest]
  rfl

end Nested

section Silent

variable {context : FunctionContext}

theorem enter_keeps (context : FunctionContext) (index : Nat) (tracker : Tracker) :
    ∃ position, ((enter context index).answer tracker).2 = { tracker with position } := by
  have hkeep : ∃ position, tracker = { tracker with position } := ⟨tracker.position, rfl⟩
  simp only [enter, locate, Action.answer_bind, Action.answer_get, Action.answer_ofExcept]
  cases tracker.arena.scope index with
  | error failure => exact hkeep
  | ok scope =>
      obtain ⟨source, parent⟩ := scope
      cases source with
      | none => exact hkeep
      | some place =>
          simp only [Action.answer_bind, Action.answer_ofExcept]
          cases context.body.startPoint place.node with
          | error failure => exact hkeep
          | ok point =>
              simp only [answer_checkLinks]
              cases tracker.arena.nearest (fun _ => (none : Option Unit)) none index with
              | error failure => exact hkeep
              | ok found =>
                  refine ⟨.ofPoint point, ?_⟩
                  simp only [Except.map, Action.answer_modify]
                  split <;> simp

/-- Where making its scope succeeds, opening a place comes to entering it. -/
theorem answer_openPlace_of_create {place : Place} {tracker : Tracker}
    (hcreate : ∀ parent, (create context parent place).answer tracker =
      (.ok tracker.arena.size,
        { tracker with arena := tracker.arena.push ⟨some place, Link.ofIndex parent⟩ }))
    (hstack : tracker.stack ≠ []) :
    (openPlace context place).answer tracker =
      (enter context tracker.arena.size).answer (tracker.nest tracker.position place) := by
  obtain ⟨top, outer, hcons⟩ := List.exists_cons_of_ne_nil hstack
  simp only [openPlace, Tracker.top, Action.answer_bind, Action.answer_get,
    Action.answer_ofExcept, hcons, List.head?_cons, Failure.ofNone_some, hcreate,
    Action.answer_modify, nest, List.headD_cons]

/-- While functions are not described, opening a place makes its scope without a
check and enters it. -/
theorem answer_openPlace_of_silent (hsilent : context.mode.isDescribing = false)
    {tracker : Tracker} (hstack : tracker.stack ≠ []) (place : Place) :
    (openPlace context place).answer tracker =
      (enter context tracker.arena.size).answer (tracker.nest tracker.position place) :=
  answer_openPlace_of_create
    (fun parent => answer_create_of_silent hsilent parent place tracker) hstack

theorem create_cases (context : FunctionContext) (parent : Nat) (place : Place)
    (tracker : Tracker) :
    (create context parent place).answer tracker =
        (.ok tracker.arena.size,
          { tracker with arena := tracker.arena.push ⟨some place, Link.ofIndex parent⟩ }) ∨
      ∃ failure, (create context parent place).answer tracker = (.error failure, tracker) := by
  cases hdescribing : context.mode.isDescribing with
  | false => exact Or.inl (answer_create_of_silent hdescribing parent place tracker)
  | true =>
      simp only [create, hdescribing, if_true, Action.answer_bind, Action.answer_ofExcept]
      cases context.body.startPoint place.node with
      | error failure => exact Or.inr ⟨failure, rfl⟩
      | ok point =>
          cases point with
          | none => exact Or.inl rfl
          | some point =>
              simp only [Option.isSome_some, if_true, Action.answer_bind, answer_checkLinks]
              cases tracker.arena.nearest (fun _ => (none : Option Unit)) none parent with
              | error failure => exact Or.inr ⟨failure, rfl⟩
              | ok found => exact Or.inr ⟨.writerRequired, rfl⟩

/-- Nothing that one tracker holds in its arena is gone in the other. -/
def Extends (tracker next : Tracker) : Prop :=
  tracker.arena.toList <+: next.arena.toList

theorem Extends.refl (tracker : Tracker) : Extends tracker tracker := List.prefix_refl _

theorem Extends.trans {first second third : Tracker} (hfirst : Extends first second)
    (hsecond : Extends second third) : Extends first third := List.IsPrefix.trans hfirst hsecond

theorem Extends.size_le {tracker next : Tracker} (hextends : Extends tracker next) :
    tracker.arena.size ≤ next.arena.size := by
  simpa using List.IsPrefix.length_le hextends

/-- Opening a place fails at once and changes nothing, or it makes and opens the scope
and moves to some position, also where entering the scope fails. -/
theorem openPlace_cases (context : FunctionContext) (place : Place) (tracker : Tracker) :
    (∃ failure, (openPlace context place).answer tracker = (.error failure, tracker)) ∨
      ∃ result position, (openPlace context place).answer tracker =
        (result, tracker.nest position place) := by
  simp only [openPlace, Tracker.top, Action.answer_bind, Action.answer_get,
    Action.answer_ofExcept]
  cases hstack : tracker.stack with
  | nil => exact Or.inl ⟨.noRoot, rfl⟩
  | cons top outer =>
      simp only [List.head?_cons, Failure.ofNone_some]
      rcases create_cases context top place tracker with hmade | ⟨failure, hfailed⟩
      · simp only [hmade, Action.answer_modify]
        obtain ⟨position, hposition⟩ := enter_keeps context tracker.arena.size
          { tracker with
            arena := tracker.arena.push ⟨some place, Link.ofIndex top⟩
            stack := tracker.arena.size :: tracker.stack }
        refine Or.inr ⟨_, position, Prod.ext rfl ?_⟩
        rw [hposition]
        simp [Tracker.nest, hstack]
      · simp only [hfailed]
        exact Or.inl ⟨failure, rfl⟩

/-- Opening a place adds at most one scope, and only behind the others. -/
theorem arena_openPlace (context : FunctionContext) (place : Place) (tracker : Tracker) :
    ((openPlace context place).answer tracker).2.arena = tracker.arena ∨
      ∃ scope, ((openPlace context place).answer tracker).2.arena =
        tracker.arena.push scope := by
  rcases openPlace_cases context place tracker with ⟨failure, hfailed⟩ |
    ⟨result, position, hopened⟩
  · rw [hfailed]
    exact Or.inl rfl
  · rw [hopened]
    exact Or.inr ⟨_, rfl⟩

theorem extends_openPlace (context : FunctionContext) (place : Place) (tracker : Tracker) :
    Extends tracker ((openPlace context place).answer tracker).2 := by
  unfold Extends
  rcases arena_openPlace context place tracker with hkeep | ⟨scope, hpush⟩
  · refine ⟨[], ?_⟩
    rw [hkeep, List.append_nil]
  · refine ⟨[scope], ?_⟩
    rw [hpush, Array.toList_push]

theorem extends_forM_openPlace (context : FunctionContext) (chain : List Place)
    (tracker : Tracker) :
    Extends tracker ((chain.forM (openPlace context)).answer tracker).2 := by
  induction chain generalizing tracker with
  | nil => exact .refl tracker
  | cons place rest ih =>
      have hfirst := extends_openPlace context place tracker
      simp only [List.forM_eq_forM, List.forM_cons, Action.answer_bind]
      cases hopened : (openPlace context place).answer tracker with
      | mk result next =>
          rw [hopened] at hfirst
          cases result with
          | error failure => exact hfirst
          | ok _ => exact hfirst.trans (ih next)

/-- Each place that is opened adds a scope, even when entering it fails. -/
theorem size_lt_forM_openPlace (hsilent : context.mode.isDescribing = false)
    {tracker : Tracker} (hstack : tracker.stack ≠ []) (place : Place) (rest : List Place) :
    tracker.arena.size <
      (((place :: rest).forM (openPlace context)).answer tracker).2.arena.size := by
  obtain ⟨position, hposition⟩ := enter_keeps context tracker.arena.size
    (tracker.nest tracker.position place)
  rw [← answer_openPlace_of_silent hsilent hstack place] at hposition
  simp only [List.forM_eq_forM, List.forM_cons, Action.answer_bind]
  cases hopened : (openPlace context place).answer tracker with
  | mk result next =>
      have hsize : next.arena.size = tracker.arena.size + 1 := by
        rw [hopened] at hposition
        simp only at hposition
        rw [hposition]
        exact size_nest _ _ _
      cases result with
      | error failure => simp only [hsize]; omega
      | ok _ =>
          have hrest := (extends_forM_openPlace context rest next).size_le
          exact Nat.lt_of_lt_of_le (by omega) hrest

theorem size_forM_openPlace_le (context : FunctionContext) (chain : List Place)
    (tracker : Tracker) :
    ((chain.forM (openPlace context)).answer tracker).2.arena.size ≤
      tracker.arena.size + chain.length := by
  induction chain generalizing tracker with
  | nil => exact Nat.le_refl _
  | cons place rest ih =>
      have hfirst : ((openPlace context place).answer tracker).2.arena.size ≤
          tracker.arena.size + 1 := by
        rcases arena_openPlace context place tracker with hkeep | ⟨scope, hpush⟩
        · rw [hkeep]
          exact Nat.le_succ _
        · rw [hpush, Array.size_push]
      simp only [List.forM_eq_forM, List.forM_cons, Action.answer_bind, List.length_cons]
      cases hopened : (openPlace context place).answer tracker with
      | mk result next =>
          rw [hopened] at hfirst
          cases result with
          | error failure => exact hfirst.trans (by omega)
          | ok _ =>
              have hrest := ih next
              exact hrest.trans (by simp only at hfirst; omega)

section Nested

variable {root : Option Place} {tracker : Tracker}

theorem Nested.answer_enter (hsilent : context.mode.isDescribing = false)
    (hnested : tracker.Nested root) {index : Nat} {outer : List Nat}
    (hstack : tracker.stack = index :: outer) {place : Place} {link : Link}
    (hscope : tracker.arena[index]? = some ⟨some place, link⟩)
    {point : Option SequencePoint} (hpoint : context.body.startPoint place.node = .ok point)
    (hsmall : tracker.arena.size ≤ 2 ^ 31) :
    (enter context index).answer tracker =
      (.ok (), { tracker with position := .ofPoint point }) := by
  have hlocate := hnested.answer_locate hstack hsmall point
  simp only [enter, Action.answer_bind, Action.answer_get, Action.answer_ofExcept,
    Arena.scope, hscope, Failure.ofNone_some, hpoint, hlocate, hsilent]
  rfl

theorem Nested.answer_openPlace (hsilent : context.mode.isDescribing = false)
    (hnested : tracker.Nested root) {place child : Place}
    (hplace : tracker.innermost? = some place) (hchild : place.HasChild child)
    {point : Option SequencePoint} (hpoint : context.body.startPoint child.node = .ok point)
    (hsmall : tracker.arena.size < 2 ^ 31) :
    (openPlace context child).answer tracker =
      (.ok (), tracker.nest (.ofPoint point) child) := by
  have hopened := hnested.nest hplace hchild (by omega) tracker.position
  have hscope : (tracker.nest tracker.position child).arena[tracker.arena.size]? =
      some ⟨some child, Link.ofIndex (tracker.stack.headD 0)⟩ := by
    simp only [Tracker.nest, Array.getElem?_push_size]
  rw [answer_openPlace_of_silent hsilent hnested.ne_nil,
    hopened.answer_enter hsilent rfl hscope hpoint (by simp only [size_nest]; omega)]
  rfl

/-- A whole chain is opened without failure, if afterwards every index still
fits into a link. -/
theorem Nested.answer_forM_openPlace (hsilent : context.mode.isDescribing = false)
    (hnested : tracker.Nested root) {place : Place} {chain : List Place}
    (hplace : tracker.innermost? = some place)
    (hchain : (place :: chain).IsChain Place.HasChild) {point : Option SequencePoint}
    (hpoint : ∀ inner ∈ chain, context.body.startPoint inner.node = .ok point)
    (hsmall : ((chain.forM (openPlace context)).answer tracker).2.arena.size ≤ 2 ^ 31) :
    (chain.forM (openPlace context)).answer tracker =
      (.ok (), chain.foldl (Tracker.nest (.ofPoint point)) tracker) := by
  induction chain generalizing tracker place with
  | nil => rfl
  | cons child rest ih =>
      obtain ⟨hchild, hrest⟩ := List.isChain_cons_cons.mp hchain
      have hroom := size_lt_forM_openPlace hsilent hnested.ne_nil child rest
      have hfirst := hnested.answer_openPlace hsilent hplace hchild
        (hpoint child (by simp)) (by omega)
      have hopened := hnested.nest hplace hchild (by omega) (.ofPoint point)
      have hforM : ((child :: rest).forM (openPlace context)).answer tracker =
          (rest.forM (openPlace context)).answer (tracker.nest (.ofPoint point) child) := by
        simp only [List.forM_eq_forM, List.forM_cons, Action.answer_bind, hfirst]
      rw [hforM] at hsmall ⊢
      exact ih hopened (innermost?_nest _ _ _) hrest
        (fun inner hinner => hpoint inner (List.mem_cons_of_mem _ hinner)) hsmall

/-- The scope whose index is just past the range of a link cannot be entered. -/
theorem enter_fails {tracker : Tracker} {place : Place} {link : Link}
    (hscope : tracker.arena[2 ^ 31]? = some ⟨some place, link⟩)
    {point : Option SequencePoint} (hpoint : context.body.startPoint place.node = .ok point) :
    (enter context (2 ^ 31)).answer tracker = (.error .noScope, tracker) := by
  have hnowhere : tracker.arena.nearest (fun _ => (none : Option Unit)) none (2 ^ 31) =
      .error .noScope := by
    have hlink : Link.ofIndex (2 ^ 31) = -2147483648 := by decide
    have hnone : Link.none ≠ -2147483648 := by decide
    rw [Arena.nearest, hlink, Arena.nearestFrom, if_neg hnone.symm]
    simp [Arena.target?]
  simp only [enter, locate, Action.answer_bind, Action.answer_get, Action.answer_ofExcept,
    Arena.scope, hscope, Failure.ofNone_some, hpoint, answer_checkLinks, hnowhere]
  rfl

/-- A chain that leads past the range of a link is opened up to the first scope that no link
leads to. -/
theorem Nested.forM_openPlace_fails (hsilent : context.mode.isDescribing = false)
    (hnested : tracker.Nested root) {place : Place} {chain : List Place}
    (hplace : tracker.innermost? = some place)
    (hchain : (place :: chain).IsChain Place.HasChild) {point : Option SequencePoint}
    (hpoint : ∀ inner ∈ chain, context.body.startPoint inner.node = .ok point)
    (hsmall : tracker.arena.size ≤ 2 ^ 31)
    (hlarge : 2 ^ 31 < tracker.arena.size + chain.length) :
    ∃ opened stop, opened ++ [stop] <+: chain ∧
      tracker.arena.size + opened.length = 2 ^ 31 ∧
      (chain.forM (openPlace context)).answer tracker =
        (.error .noScope, tracker.overrun (.ofPoint point) opened stop) := by
  induction chain generalizing tracker place with
  | nil => simp only [List.length_nil] at hlarge; omega
  | cons child rest ih =>
      obtain ⟨hchild, hrest⟩ := List.isChain_cons_cons.mp hchain
      simp only [List.forM_eq_forM, List.forM_cons, Action.answer_bind, List.length_cons]
        at hlarge ⊢
      rcases Nat.lt_or_eq_of_le hsmall with hroom | hfull
      · have hopened := hnested.nest hplace hchild hsmall (.ofPoint point)
        have hfirst := hnested.answer_openPlace hsilent hplace hchild
          (hpoint child (by simp)) hroom
        have hstill : ∀ inner ∈ rest, context.body.startPoint inner.node = .ok point :=
          fun inner hinner => hpoint inner (List.mem_cons_of_mem _ hinner)
        obtain ⟨opened, stop, hprefix, hfull, hfails⟩ :=
          ih hopened (innermost?_nest _ _ _) hrest hstill
            (by rw [size_nest]; omega) (by rw [size_nest]; omega)
        refine ⟨child :: opened, stop, List.cons_prefix_cons.mpr ⟨rfl, hprefix⟩, ?_, ?_⟩
        · rw [size_nest] at hfull
          rw [List.length_cons]
          omega
        · rw [hfirst]
          exact hfails
      · have hscope : (tracker.nest tracker.position child).arena[2 ^ 31]? =
            some ⟨some child, Link.ofIndex (tracker.stack.headD 0)⟩ := by
          rw [← hfull]
          simp only [Tracker.nest, Array.getElem?_push_size]
        refine ⟨[], child, ⟨rest, rfl⟩, hfull, ?_⟩
        rw [answer_openPlace_of_silent hsilent hnested.ne_nil, hfull,
          enter_fails hscope (hpoint child (by simp))]
        rfl

theorem Nested.foldl_nest (hnested : tracker.Nested root) {place : Place}
    {chain : List Place} (hplace : tracker.innermost? = some place)
    (hchain : (place :: chain).IsChain Place.HasChild)
    (hsmall : tracker.arena.size + chain.length ≤ 2 ^ 31) (position : Position) :
    Nested root (chain.foldl (Tracker.nest position) tracker) := by
  induction chain generalizing tracker place with
  | nil => exact hnested
  | cons child rest ih =>
      obtain ⟨hchild, hrest⟩ := List.isChain_cons_cons.mp hchain
      simp only [List.length_cons] at hsmall
      apply ih (hnested.nest hplace hchild (by omega) position) (innermost?_nest _ _ _) hrest
      simp only [size_nest]
      omega

/-- However far a chain of openings comes, the open scopes stay nested. -/
theorem Nested.forM_openPlace (hnested : tracker.Nested root) {place : Place}
    {chain : List Place} (hplace : tracker.innermost? = some place)
    (hchain : (place :: chain).IsChain Place.HasChild)
    (hsmall : ((chain.forM (openPlace context)).answer tracker).2.arena.size ≤ 2 ^ 31) :
    Nested root ((chain.forM (openPlace context)).answer tracker).2 := by
  induction chain generalizing tracker place with
  | nil => exact hnested
  | cons child rest ih =>
      obtain ⟨hchild, hrest⟩ := List.isChain_cons_cons.mp hchain
      have hgrown := (extends_forM_openPlace context (child :: rest) tracker).size_le
      have hroom : tracker.arena.size ≤ 2 ^ 31 := hgrown.trans hsmall
      simp only [List.forM_eq_forM, List.forM_cons, Action.answer_bind] at hsmall ⊢
      rcases openPlace_cases context child tracker with ⟨failure, hfailed⟩ |
        ⟨result, position, hopened⟩
      · rw [hfailed]
        exact hnested
      · have hinner := hnested.nest hplace hchild hroom position
        rw [hopened] at hsmall ⊢
        cases result with
        | error failure => exact hinner
        | ok _ => exact ih hinner (innermost?_nest _ _ _) hrest hsmall

end Nested

end Silent

/-! What a chain of openings leaves -/

theorem size_foldl_nest (position : Position) (chain : List Place) (tracker : Tracker) :
    (chain.foldl (nest position) tracker).arena.size = tracker.arena.size + chain.length := by
  induction chain generalizing tracker with
  | nil => rfl
  | cons place rest ih =>
      simp only [List.foldl_cons, ih, size_nest, List.length_cons]
      omega

theorem innermost?_foldl_nest (position : Position) (chain : List Place) {tracker : Tracker}
    {place : Place} (hplace : tracker.innermost? = some place) :
    (chain.foldl (nest position) tracker).innermost? = some (chain.getLastD place) := by
  induction chain generalizing tracker place with
  | nil => exact hplace
  | cons child rest ih =>
      rw [List.foldl_cons, List.getLastD_cons]
      exact ih (innermost?_nest position tracker child)

theorem within_foldl_nest (position : Position) (chain : List Place) (tracker : Tracker) :
    Extends tracker (chain.foldl (nest position) tracker) ∧
      tracker.stack <:+ (chain.foldl (nest position) tracker).stack := by
  induction chain generalizing tracker with
  | nil => exact ⟨.refl tracker, List.suffix_refl _⟩
  | cons place rest ih =>
      obtain ⟨harena, hstack⟩ := ih (tracker.nest position place)
      refine ⟨?_, (List.suffix_cons _ _).trans hstack⟩
      exact Extends.trans (by simp [Extends, nest]) harena

/-- The open scopes, the outermost first. -/
def openScopes (tracker : Tracker) : List Nat := tracker.stack.reverse

/-- The places that the open scopes come from, the outermost first. -/
def openPlaces (tracker : Tracker) : List (Option Place) :=
  tracker.openScopes.map tracker.arena.place?

/-- The places that all scopes come from, in the order in which they were made. -/
def madePlaces (tracker : Tracker) : List (Option Place) :=
  tracker.arena.toList.map Scope.source

theorem madePlaces_foldl_nest (position : Position) (chain : List Place)
    (tracker : Tracker) :
    (chain.foldl (nest position) tracker).madePlaces =
      tracker.madePlaces ++ chain.map some := by
  induction chain generalizing tracker with
  | nil => simp
  | cons place rest ih =>
      rw [List.foldl_cons, ih]
      simp [madePlaces, nest]

theorem openPlaces_foldl_nest (position : Position) (chain : List Place)
    {tracker : Tracker} (hstack : ∀ index ∈ tracker.stack, index < tracker.arena.size) :
    (chain.foldl (nest position) tracker).openPlaces =
      tracker.openPlaces ++ chain.map some := by
  induction chain generalizing tracker with
  | nil => simp
  | cons place rest ih =>
      have hnest : (tracker.nest position place).openPlaces =
          tracker.openPlaces ++ [some place] := by
        have hkeep : ∀ index ∈ tracker.stack.reverse,
            (tracker.nest position place).arena.place? index =
              tracker.arena.place? index := by
          intro index hindex
          exact Arena.place?_push_of_lt _ (hstack index (List.mem_reverse.mp hindex))
        simp only [openPlaces, openScopes, stack_nest, List.reverse_cons, List.map_append,
          List.map_congr_left hkeep]
        simp [nest, Arena.place?]
      rw [List.foldl_cons, ih, hnest]
      · simp
      · intro index hindex
        rw [stack_nest] at hindex
        rw [size_nest]
        rcases List.mem_cons.mp hindex with rfl | hold
        · omega
        · exact Nat.lt_succ_of_lt (hstack index hold)

end DebugInfo.Tracker
