import DebugInfo.Proofs.Lockstep

/-!
What a successful advance does to the scopes, in any body and from any tracker that
requests can lead to. It closes from the innermost outwards the scopes that end before
the instruction, down to the first that does not or to the root. Then it goes down the
scope tree from there, at each place into the first one listed inside it that starts at
the instruction, until there is none, and opens a scope for each. `Advanced` says this
of the tracker before and the tracker after. The tree is finite, so the way down is
never longer than it is high.
-/

namespace DebugInfo

namespace Place

/-- Of the places directly inside a place, one is the first listed that starts at an
instruction. -/
def OpensInto (index : Nat) (outer inner : Place) : Prop :=
  ∃ earlier later, outer.children = earlier ++ inner :: later ∧ inner.node.start = index ∧
    ∀ other ∈ earlier, other.node.start ≠ index

theorem childAt?_eq_some_iff {place child : Place} {index : Nat} :
    place.childAt? index = some child ↔ OpensInto index place child := by
  rw [childAt?, List.find?_eq_some_iff_append, OpensInto]
  constructor
  · rintro ⟨hstart, earlier, later, hchildren, hearlier⟩
    exact ⟨earlier, later, hchildren, by simpa using hstart, by simpa using hearlier⟩
  · rintro ⟨earlier, later, hchildren, hstart, hearlier⟩
    exact ⟨by simpa using hstart, earlier, later, hchildren, by simpa using hearlier⟩

theorem childAt?_eq_none_iff {place : Place} {index : Nat} :
    place.childAt? index = none ↔ ∀ child ∈ place.children, child.node.start ≠ index := by
  simp [childAt?]

theorem isChain_opensInto (place : Place) (index : Nat) :
    (place :: place.descent index).IsChain (OpensInto index) := by
  induction place using induction_children with
  | step place ih =>
      cases hfound : place.childAt? index with
      | none =>
          rw [descent_of_childAt?_eq_none hfound]
          exact List.isChain_singleton _
      | some child =>
          rw [descent_of_childAt?_eq_some hfound]
          exact List.isChain_cons_cons.mpr ⟨childAt?_eq_some_iff.mp hfound,
            ih child (mem_children_of_childAt? hfound)⟩

/-- The way down ends where nothing more starts. -/
theorem childAt?_last_descent (place : Place) (index : Nat) :
    ((place.descent index).getLastD place).childAt? index = none := by
  induction place using induction_children with
  | step place ih =>
      cases hfound : place.childAt? index with
      | none =>
          rw [descent_of_childAt?_eq_none hfound]
          exact hfound
      | some child =>
          rw [descent_of_childAt?_eq_some hfound, List.getLastD_cons]
          exact ih child (mem_children_of_childAt? hfound)

end Place

/-- Closing stops at the last scope, and at one that is not known to be finished, where
it fails if this cannot be told. -/
theorem closeFinished_stop {finished : Nat → Except Failure Bool} {top : Nat}
    {outer : List Nat} (hstop : outer = [] ∨ finished top ≠ .ok true) :
    closeFinished finished (top :: outer) =
      (if outer = [] then .ok () else (finished top).map fun _ => (), top :: outer) := by
  cases outer with
  | nil => rfl
  | cons next outer =>
      have hunknown := hstop.resolve_left (List.cons_ne_nil _ _)
      rw [closeFinished, if_neg (List.cons_ne_nil _ _)]
      cases hfinished : finished top with
      | error failure => rfl
      | ok done =>
          cases done with
          | false => rfl
          | true => exact absurd hfinished hunknown

/-- Closing takes the finished scopes from the innermost outwards, up to where it stops. -/
theorem closeFinished_split (finished : Nat → Except Failure Bool) {stack : List Nat}
    (hstack : stack ≠ []) :
    ∃ closed top outer, stack = closed ++ top :: outer ∧
      (∀ scope ∈ closed, finished scope = .ok true) ∧
      (outer = [] ∨ finished top ≠ .ok true) ∧
      closeFinished finished stack = closeFinished finished (top :: outer) := by
  induction stack with
  | nil => exact absurd rfl hstack
  | cons top outer ih =>
      by_cases hfinished : outer ≠ [] ∧ finished top = .ok true
      · obtain ⟨houter, hdone⟩ := hfinished
        obtain ⟨closed, last, rest, hsplit, hclosed, hstop, hclosing⟩ := ih houter
        obtain ⟨next, others, rfl⟩ := List.exists_cons_of_ne_nil houter
        refine ⟨top :: closed, last, rest, by rw [hsplit]; rfl,
          List.forall_mem_cons.mpr ⟨hdone, hclosed⟩, hstop, ?_⟩
        rw [← hclosing]
        simp only [closeFinished, hdone]
      · refine ⟨[], top, outer, rfl, fun _ hscope => absurd hscope List.not_mem_nil, ?_, rfl⟩
        rw [or_iff_not_imp_left]
        exact fun houter hdone => hfinished ⟨houter, hdone⟩

/-- Where closing succeeds it stops at the last scope or at one that is not finished. -/
theorem closeFinished_ok {finished : Nat → Except Failure Bool} {stack kept : List Nat}
    (hstack : stack ≠ []) (hclosing : closeFinished finished stack = (.ok (), kept)) :
    ∃ closed top outer, stack = closed ++ top :: outer ∧ kept = top :: outer ∧
      (∀ scope ∈ closed, finished scope = .ok true) ∧
      (outer = [] ∨ finished top = .ok false) := by
  obtain ⟨closed, top, outer, hsplit, hclosed, hstop, hrest⟩ :=
    closeFinished_split finished hstack
  rw [hclosing, closeFinished_stop hstop] at hrest
  obtain ⟨hresult, rfl⟩ := Prod.mk.inj hrest
  refine ⟨closed, top, outer, hsplit, rfl, hclosed, or_iff_not_imp_left.mpr fun houter => ?_⟩
  rw [if_neg houter] at hresult
  cases hfinished : finished top with
  | error failure => rw [hfinished] at hresult; cases hresult
  | ok done =>
      cases done with
      | false => rfl
      | true => exact absurd hfinished (hstop.resolve_left houter)

theorem closeFinished_append {finished : Nat → Except Failure Bool} {closed rest : List Nat}
    (hclosed : ∀ scope ∈ closed, finished scope = .ok true) (hrest : rest ≠ []) :
    closeFinished finished (closed ++ rest) = closeFinished finished rest := by
  induction closed with
  | nil => rfl
  | cons top inner ih =>
      obtain ⟨hdone, hinner⟩ := List.forall_mem_cons.mp hclosed
      obtain ⟨next, others, hcons⟩ : ∃ next others, inner ++ rest = next :: others :=
        List.exists_cons_of_ne_nil (List.append_ne_nil_of_right_ne_nil inner hrest)
      rw [← ih hinner, List.cons_append, hcons]
      simp only [closeFinished, hdone]

/-- Closing fails at the first scope, from the innermost outwards, that is not known to be
finished, where this cannot be told of it and it is not the last one. -/
theorem closeFinished_eq_error_iff {finished : Nat → Except Failure Bool}
    {stack kept : List Nat} {failure : Failure} :
    closeFinished finished stack = (.error failure, kept) ↔
      ∃ closed top outer, stack = closed ++ top :: outer ∧ kept = top :: outer ∧
        (∀ scope ∈ closed, finished scope = .ok true) ∧ outer ≠ [] ∧
        finished top = .error failure := by
  constructor
  · intro hclosing
    have hstack : stack ≠ [] := by
      rintro rfl
      cases hclosing
    obtain ⟨closed, top, outer, hsplit, hclosed, hstop, hrest⟩ :=
      closeFinished_split finished hstack
    rw [hclosing, closeFinished_stop hstop] at hrest
    obtain ⟨hresult, hkept⟩ := Prod.mk.inj hrest
    have houter : outer ≠ [] := fun hlast => by
      rw [if_pos hlast] at hresult
      cases hresult
    rw [if_neg houter] at hresult
    refine ⟨closed, top, outer, hsplit, hkept, hclosed, houter, ?_⟩
    cases hfinished : finished top with
    | error other => rw [hfinished] at hresult; cases hresult; rfl
    | ok done => rw [hfinished] at hresult; cases hresult
  · rintro ⟨closed, top, outer, rfl, rfl, hclosed, houter, hfails⟩
    rw [closeFinished_append hclosed (List.cons_ne_nil _ _),
      closeFinished_stop (.inr (by simp [hfails])), if_neg houter, hfails]
    rfl

namespace Tracker

/-- The last instruction of a scope comes before an offset. -/
def EndsBefore (tracker : Tracker) (body : Body) (offset scope : Nat) : Prop :=
  ∃ place last, tracker.arena.place? scope = some place ∧
    body.instruction place.node.stop = .ok last ∧ last.offset < offset

/-- The last instruction of a scope does not come before an offset. -/
def Reaches (tracker : Tracker) (body : Body) (offset scope : Nat) : Prop :=
  ∃ place last, tracker.arena.place? scope = some place ∧
    body.instruction place.node.stop = .ok last ∧ offset ≤ last.offset

/-- The scopes of a chain of places, made one after the other when the arena had a given
size: each is linked to the one before, and the first to the scope around. -/
def scopesInside (around size : Nat) (chain : List Place) : List Scope :=
  List.zipWith (fun place (outer : Nat) => ⟨some place, (outer : Int)⟩) chain
    (around :: List.range' size chain.length)

/-- How a tracker comes from another by an advance to an instruction that succeeds. Of the
scopes that were open, outermost first, those up to `last` are left, and places were
opened inside it. -/
structure Advanced (body : Body) (index : Nat) (tracker next : Tracker)
    (instruction : Instruction) (outer : List Nat) (last : Nat) (closed : List Nat)
    (opened : List Place) : Prop where
  found : body.instruction index = .ok instruction
  openBefore : tracker.openScopes = outer ++ last :: closed
  /-- Only finished scopes are closed. -/
  closed : ∀ scope ∈ closed, tracker.EndsBefore body instruction.offset scope
  /-- The innermost that is left is the root, or it is not finished. -/
  left : outer = [] ∨ tracker.Reaches body instruction.offset last
  openAfter : next.openScopes =
    outer ++ last :: List.range' tracker.arena.size opened.length
  /-- The arena grows by the opened scopes, in order, and by nothing else. -/
  arena : next.arena.toList =
    tracker.arena.toList ++ scopesInside last tracker.arena.size opened
  /-- Each place that is opened is the first listed in the one around it that starts
  here, and there are not more than levels below the first of them. -/
  chain : ∀ place, tracker.arena.place? last = some place →
    (place :: opened).IsChain (Place.OpensInto index) ∧ opened.length < place.node.height
  /-- Nothing opens inside a root without a source. -/
  alone : tracker.arena.place? last = none → opened = []
  /-- Nothing more starts here inside what is then the innermost open scope. -/
  exhausted : ∀ place, next.innermost? = some place →
    ∀ child ∈ place.children, child.node.start ≠ index

/-- How a tracker comes from another by an advance that runs out of links. Finished scopes are
closed, and of the places that start at the instruction those are opened to which links can
lead. The scope of the next one is made and opened as well. -/
structure Overruns (body : Body) (index : Nat) (tracker next : Tracker)
    (instruction : Instruction) (stack : List Nat) (opened : List Place) (stop : Place) :
    Prop where
  found : body.instruction index = .ok instruction
  closed : tracker.closing body instruction.offset = (.ok (), stack)
  opens : opened ++ [stop] <+: Tracker.opening { tracker with stack } index
  full : tracker.arena.size + opened.length = 2 ^ 31
  left : next = overrun (.ofPoint instruction.point) { tracker with stack } opened stop

/-- Links can lead to as many scopes as the tree below a root has levels, besides those that
there are. -/
def HasRoom (tracker : Tracker) (root : Option Place) : Prop :=
  ∀ place, root = some place → tracker.arena.size + place.node.height ≤ 2 ^ 31 + 1

/-- A scope without a source is never finished. -/
theorem exists_place_of_isFinished {tracker : Tracker} {body : Body} {offset scope : Nat}
    (hfinished : tracker.isFinished body offset scope = .ok true) :
    ∃ place, tracker.arena.place? scope = some place := by
  unfold isFinished Arena.scope at hfinished
  unfold Arena.place?
  cases hscope : tracker.arena[scope]? with
  | none =>
      rw [hscope] at hfinished
      cases hfinished
  | some found =>
      obtain ⟨source, parent⟩ := found
      cases source with
      | none =>
          rw [hscope] at hfinished
          cases hfinished
      | some place => exact ⟨place, rfl⟩

theorem endsBefore_of_isFinished {tracker : Tracker} {body : Body} {offset scope : Nat}
    (hfinished : tracker.isFinished body offset scope = .ok true) :
    tracker.EndsBefore body offset scope := by
  obtain ⟨place, hplace⟩ := exists_place_of_isFinished hfinished
  rw [isFinished_of_place hplace] at hfinished
  cases hlast : body.instruction place.node.stop with
  | error failure => rw [hlast] at hfinished; cases hfinished
  | ok last =>
      rw [hlast] at hfinished
      have hoffset : decide (last.offset < offset) = true := Except.ok.inj hfinished
      exact ⟨place, last, hplace, hlast, of_decide_eq_true hoffset⟩

theorem reaches_of_isFinished {tracker : Tracker} {body : Body} {offset scope : Nat}
    {place : Place} (hplace : tracker.arena.place? scope = some place)
    (hfinished : tracker.isFinished body offset scope = .ok false) :
    tracker.Reaches body offset scope := by
  rw [isFinished_of_place hplace] at hfinished
  cases hlast : body.instruction place.node.stop with
  | error failure => rw [hlast] at hfinished; cases hfinished
  | ok last =>
      rw [hlast] at hfinished
      have hoffset : decide (last.offset < offset) = false := Except.ok.inj hfinished
      exact ⟨place, last, hplace, hlast, Nat.le_of_not_lt (of_decide_eq_false hoffset)⟩

/-! What a chain of openings adds -/

theorem stack_foldl_nest (position : Position) (chain : List Place) (tracker : Tracker) :
    (chain.foldl (nest position) tracker).stack =
      (List.range' tracker.arena.size chain.length).reverse ++ tracker.stack := by
  induction chain generalizing tracker with
  | nil => rfl
  | cons place rest ih =>
      rw [List.foldl_cons, ih, stack_nest, size_nest, List.length_cons, List.range'_succ,
        List.reverse_cons, List.append_assoc, List.singleton_append]

theorem scopesInside_cons (around size : Nat) (place : Place) (rest : List Place) :
    scopesInside around size (place :: rest) =
      ⟨some place, (around : Int)⟩ :: scopesInside size (size + 1) rest := by
  rw [scopesInside, List.length_cons, List.range'_succ, List.zipWith_cons_cons]
  rfl

/-- Opening a chain makes a scope for each place, linked to the one before. -/
theorem arena_foldl_nest (position : Position) (chain : List Place) {tracker : Tracker}
    {top : Nat} {outer : List Nat} (hstack : tracker.stack = top :: outer)
    (htop : top < 2 ^ 31) (hsmall : tracker.arena.size + chain.length ≤ 2 ^ 31) :
    (chain.foldl (nest position) tracker).arena.toList =
      tracker.arena.toList ++ scopesInside top tracker.arena.size chain := by
  induction chain generalizing tracker top outer with
  | nil => exact (List.append_nil _).symm
  | cons place rest ih =>
      rw [List.length_cons] at hsmall
      have hnest : (tracker.nest position place).arena.toList =
          tracker.arena.toList ++ [⟨some place, (top : Int)⟩] := by
        rw [nest, hstack, List.headD_cons, Link.ofIndex_of_lt htop, Array.toList_push]
      have hrest := ih (stack_nest position tracker place) (by omega)
        (by rw [size_nest]; omega)
      rw [List.foldl_cons, hrest, hnest, size_nest, scopesInside_cons, List.append_assoc,
        List.singleton_append]

/-! What an advance reaches once it has closed -/

theorem openScopes_reached (tracker : Tracker) (instruction : Instruction) (index : Nat) :
    (tracker.reached instruction index).openScopes = tracker.openScopes ++
      List.range' tracker.arena.size (tracker.opening index).length := by
  have hstack : (tracker.reached instruction index).stack = _ :=
    stack_foldl_nest (.ofPoint instruction.point) (tracker.opening index) tracker
  rw [openScopes, hstack, List.reverse_append, List.reverse_reverse, openScopes]

theorem size_reached (tracker : Tracker) (instruction : Instruction) (index : Nat) :
    (tracker.reached instruction index).arena.size =
      tracker.arena.size + (tracker.opening index).length :=
  size_foldl_nest (.ofPoint instruction.point) (tracker.opening index) tracker

theorem arena_reached {tracker : Tracker} {top : Nat} {outer : List Nat}
    (hstack : tracker.stack = top :: outer) (htop : top < 2 ^ 31) (instruction : Instruction)
    {index : Nat} (hsmall : (tracker.reached instruction index).arena.size ≤ 2 ^ 31) :
    (tracker.reached instruction index).arena.toList = tracker.arena.toList ++
      scopesInside top tracker.arena.size (tracker.opening index) := by
  rw [size_reached] at hsmall
  exact arena_foldl_nest (.ofPoint instruction.point) _ hstack htop hsmall

theorem innermost?_reached {tracker : Tracker} {place : Place}
    (hplace : tracker.innermost? = some place) (instruction : Instruction) (index : Nat) :
    (tracker.reached instruction index).innermost? =
      some ((tracker.opening index).getLastD place) :=
  innermost?_foldl_nest (.ofPoint instruction.point) (tracker.opening index) hplace

/-- Nothing more opens at an instruction that was reached. -/
theorem opening_reached (tracker : Tracker) (instruction : Instruction) (index : Nat) :
    (tracker.reached instruction index).opening index = [] := by
  rw [opening_eq]
  cases hplace : tracker.innermost? with
  | none =>
      have hopening : tracker.opening index = [] := by rw [opening_eq, hplace]
      have hsame : (tracker.reached instruction index).innermost? = none := by
        simp only [reached, hopening]
        exact hplace
      rw [hsame]
  | some place =>
      have hopening : tracker.opening index = place.descent index := by
        rw [opening_eq, hplace]
      rw [innermost?_reached hplace, hopening]
      exact Place.descent_of_childAt?_eq_none (place.childAt?_last_descent index)

theorem start_ne_of_opening_eq_nil {tracker : Tracker} {index : Nat}
    (hopening : tracker.opening index = []) {place : Place}
    (hplace : tracker.innermost? = some place) :
    ∀ child ∈ place.children, child.node.start ≠ index := by
  have hdescent : place.descent index = [] := by
    rw [opening_eq, hplace] at hopening
    exact hopening
  rw [← Place.childAt?_eq_none_iff]
  cases hfound : place.childAt? index with
  | none => rfl
  | some child =>
      rw [Place.descent_of_childAt?_eq_some hfound] at hdescent
      cases hdescent

section Steps

variable {context : FunctionContext} {root : Option Place} {tracker : Tracker}

/-- An advance that makes more scopes than links can lead to fails when it opens the first
that has no link. -/
theorem Nested.advance_overruns (hsilent : context.mode.isDescribing = false)
    (hnested : tracker.Nested root) (hsmall : tracker.arena.size ≤ 2 ^ 31) {index : Nat}
    (hlarge : 2 ^ 31 < ((Tracker.advance context index).answer tracker).2.arena.size) :
    ((Tracker.advance context index).answer tracker).1 = .error .noScope ∧
      ∃ instruction stack opened stop, Overruns context.body index tracker
        ((Tracker.advance context index).answer tracker).2 instruction stack opened stop := by
  rw [answer_advance] at hlarge ⊢
  cases hinstruction : context.body.instruction index with
  | error failure =>
      simp only [hinstruction] at hlarge
      omega
  | ok instruction =>
      simp only [hinstruction] at hlarge ⊢
      cases hclosing : tracker.closing context.body instruction.offset with
      | mk result stack =>
          have hclosed := hnested.of_closing hclosing
          rw [hclosing] at hlarge
          cases result with
          | error failure =>
              simp only at hlarge
              omega
          | ok _ =>
              simp only at hlarge ⊢
              obtain ⟨position, hposition⟩ :=
                openAt_keeps context instruction index { tracker with stack }
              have hgrown := size_forM_openPlace_le context
                (opening { tracker with stack } index) { tracker with stack }
              rw [hposition] at hlarge
              obtain ⟨opened, stop, hopens, hfull, hfails⟩ :=
                hclosed.openAt_overruns hsilent hinstruction hsmall
                  (Nat.lt_of_lt_of_le hlarge hgrown)
              rw [hfails]
              exact ⟨rfl, instruction, stack, opened, stop,
                ⟨hinstruction, hclosing, hopens, hfull, rfl⟩⟩

/-- Fewer places start at an instruction inside an open scope than the tree has levels. -/
theorem Nested.length_opening_lt {root : Place} (hnested : tracker.Nested (some root))
    (index : Nat) : (tracker.opening index).length < root.node.height := by
  obtain ⟨chain, hplaces, hchain⟩ := Arena.Nested.way hnested
  have hlast := Place.height_last_of_isChain hchain
  have hopens := Place.length_le_height_of_isChain ((chain.getLastD root).isChain_descent index)
  rw [opening_eq, hnested.innermost?_eq hplaces]
  rw [List.length_cons] at hopens
  simp only
  omega

/-- An advance that begins with room to spare does not run out of links. -/
theorem Nested.size_advance_le_of_hasRoom (hnested : tracker.Nested root)
    (hsmall : tracker.arena.size ≤ 2 ^ 31) (hroom : tracker.HasRoom root) (index : Nat) :
    ((Tracker.advance context index).answer tracker).2.arena.size ≤ 2 ^ 31 := by
  rw [answer_advance]
  cases context.body.instruction index with
  | error failure => exact hsmall
  | ok instruction =>
      simp only
      cases hclosing : tracker.closing context.body instruction.offset with
      | mk result stack =>
          have hclosed := hnested.of_closing hclosing
          cases result with
          | error failure => exact hsmall
          | ok _ =>
              obtain ⟨position, hposition⟩ :=
                openAt_keeps context instruction index { tracker with stack }
              have hgrown := size_forM_openPlace_le context
                (opening { tracker with stack } index) { tracker with stack }
              simp only [hposition] at hgrown ⊢
              apply hgrown.trans
              cases root with
              | none =>
                  rw [hclosed.opening_eq_nil]
                  exact hsmall
              | some place =>
                  have hopens := hclosed.length_opening_lt index
                  have hlevels := hroom place rfl
                  omega

/-- An advance that succeeds has not made more scopes than links can lead to. -/
theorem Nested.size_advance_le (hsilent : context.mode.isDescribing = false)
    (hnested : tracker.Nested root) (hsmall : tracker.arena.size ≤ 2 ^ 31) {index : Nat}
    (hsucceeds : ((Tracker.advance context index).answer tracker).1.isOk = true) :
    ((Tracker.advance context index).answer tracker).2.arena.size ≤ 2 ^ 31 := by
  by_contra hlarge
  rw [(hnested.advance_overruns hsilent hsmall (Nat.lt_of_not_le hlarge)).1] at hsucceeds
  cases hsucceeds

theorem Nested.exists_place {index : Nat} {inner outer : List Nat}
    (hnested : tracker.Nested root) (hstack : tracker.stack = inner ++ index :: outer)
    (houter : outer ≠ []) : ∃ place, tracker.arena.place? index = some place := by
  have hsuffix : index :: outer <:+ tracker.stack := ⟨inner, hstack.symm⟩
  cases Arena.Nested.suffix hnested hsuffix (List.cons_ne_nil _ _) with
  | base => exact absurd rfl houter
  | @inside _ _ _ _ child _ _ _ _ hscope _ => exact ⟨child, by rw [Arena.place?, hscope]; rfl⟩

/-- All that an advance does to the scopes if it succeeds. -/
theorem Nested.advanced (hsilent : context.mode.isDescribing = false)
    (hnested : tracker.Nested root) (hsmall : tracker.arena.size ≤ 2 ^ 31) {index : Nat}
    (hsucceeds : ((Tracker.advance context index).answer tracker).1.isOk = true) :
    ∃ instruction outer last closed opened, Advanced context.body index tracker
      ((Tracker.advance context index).answer tracker).2 instruction outer last closed
        opened := by
  have hroom := hnested.size_advance_le hsilent hsmall hsucceeds
  rcases hnested.advance_cases hsilent index hroom with ⟨failure, -, hadvance⟩ |
    ⟨instruction, failure, stack, -, -, hadvance⟩ |
    ⟨instruction, stack, hinstruction, hclosing, hadvance, -⟩
  · rw [hadvance] at hsucceeds
    cases hsucceeds
  · rw [hadvance] at hsucceeds
    cases hsucceeds
  · obtain ⟨closed, last, outer, hsplit, rfl, hclosed, hlast⟩ :=
      closeFinished_ok hnested.ne_nil hclosing
    have hlt : last < tracker.arena.size := Arena.Nested.lt_size hnested last (by simp [hsplit])
    rw [hadvance] at hroom ⊢
    -- What opens is told by the tracker with its finished scopes closed.
    let left : Tracker := { tracker with stack := last :: outer }
    have hinnermost : left.innermost? = tracker.arena.place? last := rfl
    refine ⟨instruction, outer.reverse, last, closed.reverse, left.opening index, {
      found := hinstruction
      openBefore := by simp [openScopes, hsplit]
      closed := ?_
      left := ?_
      openAfter := ?_
      arena := arena_reached rfl (Nat.lt_of_lt_of_le hlt hsmall) instruction hroom
      chain := ?_
      alone := ?_
      exhausted := fun place hplace =>
        start_ne_of_opening_eq_nil (opening_reached left instruction index) hplace }⟩
    · intro scope hscope
      exact endsBefore_of_isFinished (hclosed scope (List.mem_reverse.mp hscope))
    · rcases eq_or_ne outer [] with rfl | houter
      · exact Or.inl rfl
      · obtain ⟨place, hplace⟩ := hnested.exists_place hsplit houter
        exact Or.inr (reaches_of_isFinished hplace (hlast.resolve_left houter))
    · rw [openScopes_reached]
      simp [openScopes, left]
    · intro place hplace
      have hopening : left.opening index = place.descent index := by
        rw [opening_eq, hinnermost, hplace]
      rw [hopening]
      exact ⟨place.isChain_opensInto index,
        Place.length_le_height_of_isChain (place.isChain_descent index)⟩
    · intro hnone
      rw [opening_eq, hinnermost, hnone]

end Steps

/-- The step law of an advance, for any body and after any history in which a function
was begun: if it succeeds, it closes finished scopes from the innermost outwards, goes
down the tree from the one that is left, and opens a scope for each place on the way. The
rest of the arena stays as it is. -/
theorem successful_advance {context : FunctionContext} (hsilent : context.mode = .silent)
    (tracker : Tracker) {requests : List Request} {root : Option Place}
    (hroot : lastRoot context requests = some root) {current : Tracker}
    (hcurrent : after context tracker requests = current)
    (hsmall : current.arena.size ≤ 2 ^ 31) {index : Nat}
    (hsucceeds : (step context current (.advance index)).1.isOk = true) :
    ∃ instruction outer last closed opened, Advanced context.body index current
      (step context current (.advance index)).2 instruction outer last closed opened := by
  subst hcurrent
  have hnested := nested_after hsilent tracker hroot hsmall
  rw [step_advance] at hsucceeds ⊢
  rw [Action.isOk_map] at hsucceeds
  exact hnested.advanced (by rw [hsilent]; rfl) hsmall hsucceeds

/-- The root and one of the scopes end outside the body, and three siblings are listed of
which two start together. -/
def crossingTree : ScopeNode :=
  ⟨5, 5, [], [⟨0, 0, [], []⟩,
    ⟨1, 2, [], [⟨2, 0, [], []⟩, ⟨1, 9, [], [⟨1, 0, [], []⟩]⟩, ⟨1, 1, [], []⟩]⟩]⟩

/-- A body with that tree, whose offsets do not increase. -/
def crossing : FunctionContext where
  body := ⟨#[⟨0, some ⟨"", 1, 2⟩⟩, ⟨6, none⟩, ⟨4, none⟩], some crossingTree⟩
  locals := #[]
  mode := .silent

/-- One scope is open, and one with a broken link was made without being opened. -/
def crossed : List Request := [.prepare, .advance 0, .create 7 [1]]

/-- One scope is closed and three are opened. -/
theorem advanced_crossing :
    (step crossing (after crossing initial crossed) (.advance 1)).1.isOk = true ∧
      (step crossing (after crossing initial crossed) (.advance 1)).2.openScopes =
        [0, 3, 4, 5] ∧
      ∃ instruction outer last closed opened, Advanced crossing.body 1
        (after crossing initial crossed)
        (step crossing (after crossing initial crossed) (.advance 1)).2 instruction outer last
        closed opened := by
  have hsucceeds : (step crossing (after crossing initial crossed) (.advance 1)).1.isOk =
      true := by decide +kernel
  exact ⟨hsucceeds, by decide +kernel,
    successful_advance rfl initial rfl rfl (by decide +kernel) hsucceeds⟩

end Tracker

end DebugInfo
