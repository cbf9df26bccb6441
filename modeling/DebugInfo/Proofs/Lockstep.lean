import DebugInfo.Proofs.Covering
import DebugInfo.Proofs.OpenScopes

/-!
The walk in step with the instructions of a well-formed body. Scopes are closed
by offsets, from the innermost outwards and only down to the first that is not
finished. Where offsets increase and ranges are nested, this closes exactly the
places that end before the instruction. What opens then is added inside the last
that is left, so the open places are those of `Place.covering`. Such a walk only
fails where it would make more scopes than links can lead to.
-/

namespace DebugInfo

/-- The places below the root of the scope tree. -/
def Body.innerPlaces (body : Body) : List Place :=
  body.rootPlace.elim [] Place.inside

theorem Body.innerPlaces_eq {body : Body} {root : Place} (hroot : body.rootPlace = some root) :
    body.innerPlaces = root.inside := by
  rw [innerPlaces, hroot]
  rfl

/-- Offsets increase, and below the root the ranges of the scope tree are nested
and lie inside the body. -/
structure Body.WellFormed (body : Body) : Prop where
  increasing : body.instructions.toList.Pairwise fun first second =>
    first.offset < second.offset
  nested : ∀ root ∈ body.rootPlace, root.WellNested
  inBody : ∀ place ∈ body.innerPlaces, place.node.stop < body.instructions.size

theorem Body.instruction_eq_ok {body : Body} {index : Nat}
    (hindex : index < body.instructions.size) :
    body.instruction index = .ok body.instructions[index] := by
  rw [Body.instruction, Array.getElem?_eq_getElem hindex, Failure.ofNone_some]

namespace Body.WellFormed

variable {body : Body}

theorem start_lt (hwell : body.WellFormed) {place : Place} (hplace : place ∈ body.innerPlaces) :
    place.node.start < body.instructions.size := by
  have hstop := hwell.inBody place hplace
  cases hroot : body.rootPlace with
  | none => simp [Body.innerPlaces, hroot] at hplace
  | some root =>
      rw [Body.innerPlaces_eq hroot] at hplace
      have hordered := (hwell.nested root hroot).ordered place hplace
      omega

theorem offset_lt_iff (hwell : body.WellFormed) {first second : Nat}
    {earlier later : Instruction} (hfirst : body.instruction first = .ok earlier)
    (hsecond : body.instruction second = .ok later) :
    earlier.offset < later.offset ↔ first < second := by
  have hget {index : Nat} {instruction : Instruction}
      (hinstruction : body.instruction index = .ok instruction) :
      body.instructions.toList[index]? = some instruction := by
    unfold Body.instruction at hinstruction
    cases hfound : body.instructions[index]? with
    | none => rw [hfound] at hinstruction; cases hinstruction
    | some found =>
        rw [hfound] at hinstruction
        cases hinstruction
        rw [Array.getElem?_toList, hfound]
  obtain ⟨hi, rfl⟩ := List.getElem?_eq_some_iff.mp (hget hfirst)
  obtain ⟨hj, rfl⟩ := List.getElem?_eq_some_iff.mp (hget hsecond)
  have hpairs := List.pairwise_iff_getElem.mp hwell.increasing
  constructor
  · intro hoffset
    by_contra hle
    rcases Nat.lt_or_eq_of_le (Nat.le_of_not_lt hle) with hlt | rfl
    · have hreverse := hpairs second first hj hi hlt
      omega
    · omega
  · intro hlt
    exact hpairs first second hi hj hlt

end Body.WellFormed

/-- Where it can be told of every scope but the last whether it is finished, all
finished scopes are closed up to the first that is not. -/
theorem closeFinished_concat {finished : Nat → Except Failure Bool} {done : Nat → Bool}
    {inner : List Nat} (hfinished : ∀ index ∈ inner, finished index = .ok (done index))
    (outermost : Nat) :
    closeFinished finished (inner ++ [outermost]) =
      (.ok (), inner.dropWhile done ++ [outermost]) := by
  induction inner with
  | nil => rfl
  | cons top outer ih =>
      have hrest := ih fun index hindex => hfinished index (List.mem_cons_of_mem _ hindex)
      obtain ⟨next, rest, hcons⟩ : ∃ next rest, outer ++ [outermost] = next :: rest :=
        List.exists_cons_of_ne_nil (by simp)
      rw [List.cons_append, hcons, closeFinished, hfinished top List.mem_cons_self,
        List.dropWhile_cons]
      cases done top with
      | true => rw [← hcons]; exact hrest
      | false => simp [hcons]

theorem dropWhile_eq_filter {α : Type} {done : α → Bool} {list : List α}
    (hdone : list.Pairwise fun first second => done second = true → done first = true) :
    list.dropWhile done = list.filter fun element => !done element := by
  induction list with
  | nil => rfl
  | cons first rest ih =>
      obtain ⟨hfirst, hrest⟩ := List.pairwise_cons.mp hdone
      rw [List.dropWhile_cons, List.filter_cons]
      cases hcase : done first with
      | true => simpa [hcase] using ih hrest
      | false =>
          have hkept : ∀ other ∈ rest, (!done other) = true := by
            intro other hother
            cases hfound : done other with
            | false => rfl
            | true =>
                have := hfirst other hother hfound
                rw [hcase] at this
                cases this
          simp [List.filter_eq_self.mpr hkept]

namespace Tracker

section Walk

variable {context : FunctionContext} {root : Place} {tracker : Tracker}

theorem isFinished_eq {body : Body} (hwell : body.WellFormed) {index scope : Nat}
    {instruction : Instruction} (hinstruction : body.instruction index = .ok instruction)
    {place : Place} (hplace : tracker.arena.place? scope = some place)
    (hstop : place.node.stop < body.instructions.size) :
    tracker.isFinished body instruction.offset scope =
      .ok (decide (place.node.stop < index)) := by
  have hlast := Body.instruction_eq_ok hstop
  have hiff := hwell.offset_lt_iff hlast hinstruction
  rw [isFinished_of_place hplace, hlast]
  exact congrArg Except.ok (decide_eq_decide.mpr hiff)

theorem Nested.isChain (hnested : tracker.Nested (some root)) {chain : List Place}
    (hplaces : tracker.openPlaces = (root :: chain).map some) :
    (root :: chain).IsChain Place.HasChild := by
  obtain ⟨other, hother, hchain⟩ := Arena.Nested.way hnested
  have heq : root :: chain = root :: other :=
    (List.map_inj_right fun _ _ => Option.some.inj).mp (hplaces.symm.trans hother)
  rw [heq]
  exact hchain

theorem Nested.stack_eq (hnested : tracker.Nested (some root)) {chain : List Place}
    (hplaces : tracker.openPlaces = (root :: chain).map some) :
    ∃ inner, tracker.stack = inner ++ [0] ∧ tracker.arena.place? 0 = some root ∧
      (inner.map tracker.arena.place?).reverse = chain.map some := by
  obtain ⟨inner, hstack⟩ : ∃ inner, tracker.stack = inner ++ [0] :=
    List.getLast?_eq_some_iff.mp (Arena.Nested.getLast? hnested)
  rw [openPlaces, openScopes, hstack] at hplaces
  have hsplit : tracker.arena.place? 0 :: (inner.map tracker.arena.place?).reverse =
      some root :: chain.map some := by simpa using hplaces
  exact ⟨inner, hstack, (List.cons.inj hsplit).1, (List.cons.inj hsplit).2⟩

/-- Closing keeps the root and, of the open places below it, those that do not
end before the instruction. -/
theorem Nested.closing_eq (hwell : context.body.WellFormed)
    (hroot : context.body.rootPlace = some root) (hnested : tracker.Nested (some root))
    {chain : List Place} (hplaces : tracker.openPlaces = (root :: chain).map some)
    {index : Nat} {instruction : Instruction}
    (hinstruction : context.body.instruction index = .ok instruction) :
    ∃ stack, tracker.closing context.body instruction.offset = (.ok (), stack) ∧
      openPlaces { tracker with stack } =
        (root :: chain.filter fun place => index ≤ place.node.stop).map some := by
  obtain ⟨hinside, hpairs⟩ := List.pairwise_cons.mp
    (Place.pairwise_inside_of_isChain (hnested.isChain hplaces))
  obtain ⟨inner, hstack, hbase, hinner⟩ := hnested.stack_eq hplaces
  let ended : Option Place → Bool := fun place => place.any (·.node.stop < index)
  let done : Nat → Bool := fun scope => ended (tracker.arena.place? scope)
  have hfinished : ∀ scope ∈ inner,
      tracker.isFinished context.body instruction.offset scope = .ok (done scope) := by
    intro scope hscope
    have hmem : tracker.arena.place? scope ∈ chain.map some := by
      rw [← hinner]
      exact List.mem_reverse.mpr (List.mem_map_of_mem hscope)
    obtain ⟨place, hplace, hsource⟩ := List.mem_map.mp hmem
    have hstop : place.node.stop < context.body.instructions.size := by
      apply hwell.inBody
      rw [Body.innerPlaces_eq hroot]
      exact hinside place hplace
    rw [isFinished_eq hwell hinstruction hsource.symm hstop]
    simp [done, ended, ← hsource]
  -- What stands inside a place that has ended has ended too.
  have hmonotone : (inner.map tracker.arena.place?).Pairwise fun first second =>
      ended second = true → ended first = true := by
    rw [← List.pairwise_reverse, hinner, List.pairwise_map]
    apply hpairs.imp_of_mem
    intro outer place houter _ hmem hended
    have hrange := (hwell.nested root hroot).range_of_mem_inside (hinside outer houter) hmem
    simp only [ended, Option.any_some, decide_eq_true_eq] at hended ⊢
    omega
  refine ⟨inner.dropWhile done ++ [0], ?_, ?_⟩
  · unfold Tracker.closing
    rw [hstack]
    exact closeFinished_concat hfinished 0
  · have hkept : ((inner.dropWhile done).map tracker.arena.place?).reverse =
        (chain.filter fun place => index ≤ place.node.stop).map some := by
      have hended : (fun place => !ended place) ∘ some =
          fun place : Place => decide (index ≤ place.node.stop) := by
        funext place
        simp [ended, ← decide_not]
      rw [dropWhile_eq_filter (List.pairwise_map.mp hmonotone), ← hended,
        ← List.filter_map, ← hinner, List.filter_reverse, List.filter_map]
      rfl
    simp only [openPlaces, openScopes, List.reverse_append, List.reverse_singleton,
      List.singleton_append, List.map_cons, List.map_reverse, hbase, hkept]

theorem Nested.innermost?_eq (hnested : tracker.Nested (some root)) {chain : List Place}
    (hplaces : tracker.openPlaces = (root :: chain).map some) :
    tracker.innermost? = some (chain.getLastD root) := by
  have hlast : tracker.openPlaces.getLast? = some (some (chain.getLastD root)) := by
    rw [hplaces, List.getLast?_map, List.getLast?_cons, List.getLastD_eq_getLast?]
    rfl
  obtain ⟨top, outer, hstack⟩ := List.exists_cons_of_ne_nil hnested.ne_nil
  rw [openPlaces, openScopes, hstack] at hlast
  unfold innermost?
  rw [hstack]
  simpa using hlast

/-- How an advance begins in a well-formed body: it closes the places that have
ended and comes to those that open. -/
theorem Nested.advance_opens (hwell : context.body.WellFormed)
    (hroot : context.body.rootPlace = some root) (hnested : tracker.Nested (some root))
    {chain kept : List Place} {index : Nat}
    (hplaces : tracker.openPlaces = (root :: chain).map some)
    (hindex : index < context.body.instructions.size)
    (hkept : kept = chain.filter fun place => index ≤ place.node.stop) :
    ∃ stack, Nested (some root) { tracker with stack } ∧
      openPlaces { tracker with stack } = (root :: kept).map some ∧
      (Tracker.advance context index).answer tracker =
        (openAt context context.body.instructions[index] index).answer
          { tracker with stack } := by
  have hinstruction := Body.instruction_eq_ok hindex
  obtain ⟨stack, hclosing, hclosed⟩ := hnested.closing_eq hwell hroot hplaces hinstruction
  have hleft := hnested.closing context.body context.body.instructions[index].offset
  have hadvance := answer_advance context index tracker
  simp only [hinstruction, hclosing] at hleft hadvance
  rw [← hkept] at hclosed
  exact ⟨stack, hleft, hclosed, hadvance⟩

/-- Where a walk stands after its visits: the open places are the active ones,
and behind the root the arena holds what the visits made. -/
structure Walked (root : Place) (visits : List Nat) (tracker : Tracker) : Prop where
  nested : tracker.Nested (some root)
  openPlaces : tracker.openPlaces = (root :: root.active visits).map some
  madePlaces : tracker.madePlaces = (root :: root.made visits).map some

theorem Walked.start (tracker : Tracker) (root : Place) :
    Walked root [] { tracker with arena := #[⟨some root, Link.none⟩], stack := [0] } where
  nested := .base rfl
  openPlaces := rfl
  madePlaces := rfl

theorem Walked.size_eq {visits : List Nat} (hwalked : Walked root visits tracker) :
    tracker.arena.size = (root.made visits).length + 1 := by
  have hcount := congrArg List.length hwalked.madePlaces
  simpa [Tracker.madePlaces] using hcount

/-- How an advance begins after a walk: it comes to open what the next visit
opens. -/
theorem Walked.advance_opens (hwell : context.body.WellFormed)
    (hroot : context.body.rootPlace = some root) {visits : List Nat}
    (hwalked : Walked root visits tracker) {index : Nat}
    (hsorted : (visits ++ [index]).Pairwise (· < ·))
    (hindex : index < context.body.instructions.size) :
    ∃ stack, Nested (some root) { tracker with stack } ∧
      (Tracker.openPlaces { tracker with stack } ++
        (opening { tracker with stack } index).map some =
          (root :: root.active (visits ++ [index])).map some) ∧
      opening { tracker with stack } index = root.opened (visits ++ [index]) ∧
      (Tracker.advance context index).answer tracker =
        (openAt context context.body.instructions[index] index).answer
          { tracker with stack } := by
  obtain ⟨stack, hleft, hclosed, hadvance⟩ :=
    hwalked.nested.advance_opens hwell hroot hwalked.openPlaces hindex rfl
  have hnested := hwell.nested root hroot
  have hopening : opening { tracker with stack } index = root.opened (visits ++ [index]) := by
    rw [opening_eq, hleft.innermost?_eq hclosed, hnested.opened_eq_descent hsorted]
  refine ⟨stack, hleft, ?_, hopening, hadvance⟩
  rw [hclosed, hopening, hnested.active_concat hsorted, hnested.opened_eq_descent hsorted]
  simp

theorem Walked.advance (hsilent : context.mode.isDescribing = false)
    (hwell : context.body.WellFormed) (hroot : context.body.rootPlace = some root)
    {visits : List Nat} (hwalked : Walked root visits tracker) {index : Nat}
    (hsorted : (visits ++ [index]).Pairwise (· < ·))
    (hindex : index < context.body.instructions.size)
    (hroom : (root.made (visits ++ [index])).length < 2 ^ 31) :
    ∃ next, (Tracker.advance context index).answer tracker = (.ok (), next) ∧
      Walked root (visits ++ [index]) next := by
  obtain ⟨stack, hleft, hopen, hopening, hadvance⟩ :=
    hwalked.advance_opens hwell hroot hsorted hindex
  have hsmall : ((openAt context context.body.instructions[index] index).answer
      { tracker with stack }).2.arena.size ≤ 2 ^ 31 := by
    obtain ⟨position, hposition⟩ := openAt_keeps context context.body.instructions[index]
      index { tracker with stack }
    have hgrown := size_forM_openPlace_le context (opening { tracker with stack } index)
      { tracker with stack }
    have hsize := hwalked.size_eq
    rw [Place.made_concat, List.length_append, ← hopening] at hroom
    rw [hposition]
    simp only at hgrown ⊢
    omega
  obtain ⟨hanswer, hreached⟩ :=
    hleft.answer_openAt hsilent (Body.instruction_eq_ok hindex) hsmall
  refine ⟨_, hadvance.trans hanswer, hreached, ?_, ?_⟩
  · rw [openPlaces_reached (Arena.Nested.lt_size hleft)]
    exact hopen
  · have hmade := hwalked.madePlaces
    rw [madePlaces_reached, hopening, Place.made_concat, ← List.cons_append, List.map_append,
      ← hmade]
    rfl

/-- A visit fails that would make more scopes than fit into links. -/
theorem Walked.advance_fails (hsilent : context.mode.isDescribing = false)
    (hwell : context.body.WellFormed) (hroot : context.body.rootPlace = some root)
    {visits : List Nat} (hwalked : Walked root visits tracker) {index : Nat}
    (hsorted : (visits ++ [index]).Pairwise (· < ·))
    (hindex : index < context.body.instructions.size)
    (hsmall : (root.made visits).length < 2 ^ 31)
    (hlarge : 2 ^ 31 ≤ (root.made (visits ++ [index])).length) :
    ∃ next, (Tracker.advance context index).answer tracker = (.error .noScope, next) := by
  obtain ⟨stack, hleft, hopen, hopening, hadvance⟩ :=
    hwalked.advance_opens hwell hroot hsorted hindex
  have hsize := hwalked.size_eq
  rw [Place.made_concat, List.length_append, ← hopening] at hlarge
  obtain ⟨opened, stop, -, -, hfails⟩ := hleft.openAt_overruns hsilent
    (Body.instruction_eq_ok hindex) (by simp only; omega) (by simp only; omega)
  exact ⟨_, hadvance.trans hfails⟩

/-- Begin a function and follow the instructions to each of the visits. -/
def walk (first : Request) (visits : List Nat) : List Request :=
  first :: visits.map Request.advance

theorem walk_concat (first : Request) (visits : List Nat) (index : Nat) :
    walk first (visits ++ [index]) = walk first visits ++ [.advance index] := by
  simp [walk]

theorem mem_run_concat {requests : List Request} {request : Request}
    {reply : Except Failure Answer × Tracker} :
    reply ∈ run context tracker (requests ++ [request]) ↔
      reply ∈ run context tracker requests ∨
        reply = step context (after context tracker requests) request := by
  rw [run, History.trail_append, List.mem_append]
  exact or_congr_right List.mem_singleton

theorem step_advance (context : FunctionContext) (index : Nat) (tracker : Tracker) :
    step context tracker (.advance index) =
      (((Tracker.advance context index).answer tracker).1.map fun _ => .done,
        ((Tracker.advance context index).answer tracker).2) :=
  Action.answer_bind_pure (Tracker.advance context index) (fun _ => Answer.done) tracker

/-- What the start of a function establishes and every visit keeps, a whole walk
establishes, and none of its requests fails. -/
theorem walk_induction {motive : List Nat → Tracker → Prop} (hsilent : context.mode = .silent)
    (tracker : Tracker) {first : Request} {source : Option Place}
    (hfirst : first.root? context = some source) {visits : List Nat}
    (hstart : motive [] { tracker with arena := #[⟨source, Link.none⟩], stack := [0] })
    (hvisit : ∀ earlier index, earlier ++ [index] <+: visits → ∀ current,
      motive earlier current → ∃ next,
        (Tracker.advance context index).answer current = (.ok (), next) ∧
          motive (earlier ++ [index]) next) :
    (∀ reply ∈ run context tracker (walk first visits), reply.1.isOk = true) ∧
      motive visits (after context tracker (walk first visits)) := by
  induction visits using List.reverseRecOn with
  | nil =>
      obtain ⟨answer, hstep⟩ := step_of_root? hsilent hfirst tracker
      constructor
      · intro reply hreply
        rw [List.mem_singleton.mp hreply, hstep]
        rfl
      · change motive [] (step context tracker first).2
        rw [hstep]
        exact hstart
  | append_singleton earlier index ih =>
      obtain ⟨hsucceeds, hearlier⟩ := ih fun visited visit hinitial =>
        hvisit visited visit (hinitial.trans (List.prefix_append _ _))
      obtain ⟨next, hanswer, hnext⟩ := hvisit earlier index (List.prefix_refl _) _ hearlier
      have hstep := step_advance context index (after context tracker (walk first earlier))
      rw [hanswer] at hstep
      rw [walk_concat]
      constructor
      · intro reply hreply
        rcases mem_run_concat.mp hreply with hold | hnew
        · exact hsucceeds reply hold
        · rw [hnew, hstep]
          rfl
      · rw [after_concat, hstep]
        exact hnext

theorem Walked.after_walk (hsilent : context.mode = .silent)
    (hwell : context.body.WellFormed) (hroot : context.body.rootPlace = some root)
    (tracker : Tracker) {first : Request} (hfirst : first.root? context = some (some root))
    {visits : List Nat} (hsorted : visits.Pairwise (· < ·))
    (hvisits : ∀ visit ∈ visits, visit < context.body.instructions.size)
    (hroom : (root.made visits).length < 2 ^ 31) :
    (∀ reply ∈ run context tracker (walk first visits), reply.1.isOk = true) ∧
      Walked root visits (after context tracker (walk first visits)) := by
  apply walk_induction hsilent tracker hfirst (Walked.start tracker root)
  intro earlier index hinitial current hcurrent
  have hmade := Place.made_length_mono hinitial root
  exact hcurrent.advance (by rw [hsilent]; rfl) hwell hroot
    (hsorted.sublist hinitial.sublist) (hvisits index (hinitial.subset (by simp)))
    (Nat.lt_of_le_of_lt hmade hroom)

/-- In a well-formed body a walk in order fails only where it would make more
scopes than fit into links. -/
theorem walk_succeeds_iff (hsilent : context.mode = .silent)
    (hwell : context.body.WellFormed) (hroot : context.body.rootPlace = some root)
    (tracker : Tracker) {first : Request} (hfirst : first.root? context = some (some root))
    {visits : List Nat} (hsorted : visits.Pairwise (· < ·))
    (hvisits : ∀ visit ∈ visits, visit < context.body.instructions.size) :
    (∀ reply ∈ run context tracker (walk first visits), reply.1.isOk = true) ↔
      (root.made visits).length < 2 ^ 31 := by
  constructor
  · intro hsucceeds
    induction visits using List.reverseRecOn with
    | nil => simp [Place.made, Place.opened, Place.active]
    | append_singleton earlier index ih =>
        have hearlier := hsorted.sublist (List.sublist_append_left earlier [index])
        have hinside : ∀ visit ∈ earlier, visit < context.body.instructions.size :=
          fun visit hvisit => hvisits visit (List.mem_append_left _ hvisit)
        rw [walk_concat] at hsucceeds
        have hsmall := ih hearlier hinside
          fun reply hreply => hsucceeds reply (mem_run_concat.mpr (Or.inl hreply))
        have hwalked :=
          (Walked.after_walk hsilent hwell hroot tracker hfirst hearlier hinside hsmall).2
        have hlast := hsucceeds _ (mem_run_concat.mpr (Or.inr rfl))
        by_contra hlarge
        obtain ⟨next, hfails⟩ := hwalked.advance_fails (by rw [hsilent]; rfl) hwell
          hroot hsorted (hvisits index (by simp)) hsmall (Nat.le_of_not_lt hlarge)
        rw [step_advance, hfails] at hlast
        cases hlast
  · intro hroom
    exact (Walked.after_walk hsilent hwell hroot tracker hfirst hsorted hvisits hroom).1

/-- The scope stack follows the instructions. In a well-formed body a walk that
visits instructions in order, skipping any, never fails. After its last visit
the open places are the root and those that cover the instruction, from child to
child, for as long as their starts were visited. After a walk that skips nothing
these are all places that cover it. Links can lead to no more than `2 ^ 31`
scopes, the root among them. -/
theorem openPlaces_after_walk (hsilent : context.mode = .silent)
    (hwell : context.body.WellFormed) (hroot : context.body.rootPlace = some root)
    (hlinks : root.inside.length < 2 ^ 31) (tracker : Tracker) {first : Request}
    (hfirst : first = .prepare ∨ first = .pushRoot false) {visits : List Nat}
    (hsorted : visits.Pairwise (· < ·))
    (hvisits : ∀ visit ∈ visits, visit < context.body.instructions.size) :
    (∀ reply ∈ run context tracker (walk first visits), reply.1.isOk = true) ∧
    ∀ last, visits.getLast? = some last →
      (after context tracker (walk first visits)).openPlaces =
          (root :: root.covering visits last).map some ∧
      (visits = List.range (last + 1) →
        (after context tracker (walk first visits)).openPlaces =
          (root :: root.inside.filter (Place.covers last)).map some) := by
  have hpushes : first.root? context = some (some root) := by
    rcases hfirst with rfl | rfl
    · exact congrArg some hroot
    · exact congrArg some hroot
  have hroom := Nat.lt_of_le_of_lt (Place.length_made_le hsorted root) hlinks
  obtain ⟨hsucceeds, hwalked⟩ :=
    Walked.after_walk hsilent hwell hroot tracker hpushes hsorted hvisits hroom
  refine ⟨hsucceeds, ?_⟩
  intro last hlast
  have hplaces := hwalked.openPlaces
  simp only [Place.active, hlast] at hplaces
  refine ⟨hplaces, ?_⟩
  intro hall
  have hvisited : ∀ visit ≤ last, visit ∈ visits := by
    intro visit hvisit
    rw [hall, List.mem_range]
    omega
  rw [hplaces, (hwell.nested root hroot).covering_eq_filter hvisited]

end Walk

/-- The later of two siblings is listed first, and two scopes start together. -/
def unorderedTree : ScopeNode :=
  ⟨0, 3, [], [⟨2, 3, [], [⟨2, 2, [], []⟩]⟩, ⟨0, 1, [], [⟨0, 1, [], []⟩]⟩]⟩

def unordered : FunctionContext where
  body := ⟨#[⟨0, some ⟨"", 1, 1⟩⟩, ⟨2, none⟩, ⟨3, some ⟨"", 2, 1⟩⟩, ⟨7, none⟩],
    some unorderedTree⟩
  locals := #[]
  mode := .silent

theorem wellFormed_unordered : unordered.body.WellFormed where
  increasing := by decide
  nested := by
    intro root hroot
    obtain rfl : (⟨[], unorderedTree⟩ : Place) = root := Option.some.inj hroot
    exact ⟨by decide +kernel, by decide +kernel, by decide +kernel⟩
  inBody := by decide +kernel

theorem openPlaces_unordered :
    (∀ reply ∈ run unordered initial (walk .prepare [0, 2, 3]), reply.1.isOk = true) ∧
      (after unordered initial (walk .prepare [0, 2, 3])).openPlaces =
        (⟨[], unorderedTree⟩ :: Place.covering [0, 2, 3] 3 ⟨[], unorderedTree⟩).map some := by
  have hsorted : [0, 2, 3].Pairwise (· < ·) := by decide
  obtain ⟨hsucceeds, hplaces⟩ := openPlaces_after_walk rfl wellFormed_unordered rfl
    (by decide +kernel) initial (.inl rfl) hsorted (by decide)
  exact ⟨hsucceeds, (hplaces 3 rfl).1⟩

end Tracker

end DebugInfo
