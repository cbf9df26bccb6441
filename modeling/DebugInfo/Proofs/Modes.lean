import DebugInfo.Proofs.Lockstep

/-!
One function in its two modes. In a body whose scopes below the root start at no
sequence point no scope needs a descriptor, so a description only reads: the
instruction at which a new scope starts, and the locals that the variables of an
entered scope name. Here each piece of work is set beside the same piece while
functions are not described, up to the openings at one instruction.

The trackers may come from either mode, or from both in turn. Whatever a request
does, in either mode it keeps the open scopes nested.
-/

namespace DebugInfo

/-- Below the root no scope starts at a sequence point. -/
def Body.Unmarked (body : Body) : Prop :=
  ∀ place ∈ body.innerPlaces, ∀ instruction ∈ body.instructions[place.node.start]?,
    instruction.point = none

/-- Some variable of a scope names none of the function's locals. -/
def ScopeNode.NamesUnknown (locals : Array TypeId) (node : ScopeNode) : Prop :=
  ∃ named ∈ node.declared, locals.size ≤ named.index

instance (locals : Array TypeId) (node : ScopeNode) : Decidable (node.NamesUnknown locals) :=
  inferInstanceAs (Decidable (∃ named ∈ node.declared, locals.size ≤ named.index))

/-- All places of a chain are free of unknown locals, or there is a first that is not. -/
theorem known_or_first_unknown (locals : Array TypeId) (chain : List Place) :
    (∀ inner ∈ chain, ¬ inner.node.NamesUnknown locals) ∨
      ∃ known stop rest, chain = known ++ stop :: rest ∧
        (∀ inner ∈ known, ¬ inner.node.NamesUnknown locals) ∧ stop.node.NamesUnknown locals := by
  cases hfound : chain.find? fun place => decide (place.node.NamesUnknown locals) with
  | none => exact Or.inl (by simpa using hfound)
  | some stop =>
      obtain ⟨hstop, known, rest, hchain, hknown⟩ := List.find?_eq_some_iff_append.mp hfound
      exact Or.inr ⟨known, stop, rest, hchain, by simpa using hknown, by simpa using hstop⟩

theorem Body.mem_innerPlaces_of_place {body : Body} {path : List Nat} (hpath : path ≠ [])
    {place : Place} (hplace : body.place path = .ok place) : place ∈ body.innerPlaces := by
  unfold Body.place at hplace
  cases hroot : body.rootPlace with
  | none => rw [hroot] at hplace; cases hplace
  | some root =>
      rw [Body.innerPlaces_eq hroot]
      refine Place.mem_inside_iff_descend.mpr ⟨path, hpath, ?_⟩
      rw [hroot, Option.bind_some] at hplace
      cases hfound : root.descend path with
      | none => rw [hfound] at hplace; cases hplace
      | some found => rw [hfound] at hplace; cases hplace; rfl

theorem Body.startPoint_of_le {body : Body} {node : ScopeNode}
    (hstart : body.instructions.size ≤ node.start) :
    body.startPoint node = .error .noInstruction := by
  rw [Body.startPoint, Body.instruction, Array.getElem?_eq_none hstart]
  rfl

theorem Body.Unmarked.startPoint_eq {body : Body} (hunmarked : body.Unmarked) {place : Place}
    (hplace : place ∈ body.innerPlaces) (hstart : place.node.start < body.instructions.size) :
    body.startPoint place.node = .ok none := by
  have hpoint := hunmarked place hplace _ (Array.getElem?_eq_getElem hstart)
  rw [Body.startPoint, Body.instruction_eq_ok hstart, ← hpoint]
  rfl

theorem Body.Unmarked.point_eq_none {body : Body} (hunmarked : body.Unmarked) {place : Place}
    (hplace : place ∈ body.innerPlaces) {point : Option SequencePoint}
    (hpoint : body.startPoint place.node = .ok point) : point = none := by
  rcases Nat.lt_or_ge place.node.start body.instructions.size with hinside | houtside
  · rw [hunmarked.startPoint_eq hplace hinside] at hpoint
    cases hpoint
    rfl
  · rw [Body.startPoint_of_le houtside] at hpoint
    cases hpoint

/-- The same function in another mode. -/
def FunctionContext.inMode (context : FunctionContext) (mode : Mode) : FunctionContext :=
  { context with mode }

@[simp] theorem FunctionContext.body_inMode (context : FunctionContext) (mode : Mode) :
    (context.inMode mode).body = context.body := rfl

@[simp] theorem FunctionContext.mode_inMode (context : FunctionContext) (mode : Mode) :
    (context.inMode mode).mode = mode := rfl

namespace Tracker

section Variables

variable {context : FunctionContext} {node : ScopeNode}

theorem checkVariables_of_unknown (hunknown : node.NamesUnknown context.locals) :
    checkVariables context node = .error .noLocal := by
  obtain ⟨named, hnamed, hindex⟩ := hunknown
  refine if_neg ?_
  intro hall
  have hlt := List.all_eq_true.mp hall named hnamed
  simp only [decide_eq_true_eq] at hlt
  omega

theorem checkVariables_of_known (hknown : ¬ node.NamesUnknown context.locals) :
    checkVariables context node = .ok () := by
  refine if_pos (List.all_eq_true.mpr ?_)
  intro named hnamed
  by_contra hindex
  exact hknown ⟨named, hnamed, by simpa using hindex⟩

end Variables

/-! Where a history of both modes leads -/

/-- The tracker after a history in which each request comes with its mode. -/
def afterIn (context : FunctionContext) (tracker : Tracker)
    (requests : List (Mode × Request)) : Tracker :=
  History.after (fun current asked => step (context.inMode asked.1) current asked.2)
    tracker requests

/-- The open scopes are nested below the root of the body, or below a root that
has no source. -/
def Begun (body : Body) (tracker : Tracker) : Prop :=
  ∃ root, (root = none ∨ root = body.rootPlace) ∧ tracker.Nested root

section Histories

variable {context : FunctionContext} {tracker : Tracker}

/-- What begins a function begins it in either mode, even if it fails then. -/
theorem snd_step_of_root? {request : Request} {root : Option Place}
    (hroot : request.root? context = some root) (tracker : Tracker) :
    (step context tracker request).2 =
      { tracker with arena := #[⟨root, Link.none⟩], stack := [0] } := by
  cases request with
  | pushRoot bare => cases hroot; rfl
  | prepare =>
      cases hroot
      obtain ⟨body, locals, mode⟩ := context
      cases mode with
      | silent => rfl
      | describing declaringClass => cases declaringClass <;> rfl
  | advance | create | enter | parent | nearest => cases hroot

/-- What begins a function begins it with the root of the body's tree or with none. -/
theorem source_of_root? {request : Request} {root : Option Place}
    (hroot : request.root? context = some root) : root = none ∨ root = context.body.rootPlace := by
  cases request with
  | pushRoot bare => cases bare <;> cases hroot <;> simp
  | prepare => cases hroot; exact .inr rfl
  | advance | create | enter | parent | nearest => cases hroot

theorem begun_of_root? {request : Request} {root : Option Place}
    (hroot : request.root? context = some root) (tracker : Tracker) :
    Begun context.body (step context tracker request).2 := by
  rw [snd_step_of_root? hroot]
  exact ⟨root, source_of_root? hroot, .base rfl⟩

/-- Once a function was begun, every request in either mode keeps it so. -/
theorem Begun.step {body : Body} (hbegun : Begun body tracker) {request : Request}
    (hroot : request.root? context = none)
    (hsmall : (Tracker.step context tracker request).2.arena.size ≤ 2 ^ 31) :
    Begun body (Tracker.step context tracker request).2 := by
  obtain ⟨root, hsource, hnested⟩ := hbegun
  exact ⟨root, hsource, hnested.step hroot hsmall⟩

/-- Every history of both modes that begins a function leaves it begun. The arena grows
until the next root is pushed, so the bound is only asked of the end. -/
theorem begun_afterIn (tracker : Tracker) {first : Mode × Request} {root : Option Place}
    (hfirst : first.2.root? (context.inMode first.1) = some root)
    (earlier : List (Mode × Request))
    (hsmall : (afterIn context tracker (first :: earlier)).arena.size ≤ 2 ^ 31) :
    Begun context.body (afterIn context tracker (first :: earlier)) := by
  induction earlier using List.reverseRecOn with
  | nil => exact begun_of_root? hfirst tracker
  | append_singleton earlier asked ih =>
      have hlast : afterIn context tracker (first :: (earlier ++ [asked])) =
          (Tracker.step (context.inMode asked.1)
            (afterIn context tracker (first :: earlier)) asked.2).2 := by
        rw [← List.cons_append]
        exact History.after_append _ _ _ _
      rw [hlast] at hsmall ⊢
      cases hrequest : asked.2.root? (context.inMode asked.1) with
      | some source => exact begun_of_root? hrequest _
      | none =>
          have hgrown := (extends_step hrequest
            (afterIn context tracker (first :: earlier))).size_le
          exact Begun.step (ih (hgrown.trans hsmall)) hrequest hsmall

theorem Begun.closing {body : Body} (hbegun : Begun body tracker) (offset : Nat) :
    Begun body { tracker with stack := (tracker.closing body offset).2 } := by
  obtain ⟨root, hsource, hnested⟩ := hbegun
  exact ⟨root, hsource, hnested.closing body offset⟩

theorem Begun.root_cases {body : Body} (hbegun : Begun body tracker) :
    Nested none tracker ∨
      ∃ root, body.rootPlace = some root ∧ Nested (some root) tracker := by
  obtain ⟨root, rfl | rfl, hnested⟩ := hbegun
  · exact .inl hnested
  · cases hroot : body.rootPlace with
    | none => exact .inl (hroot ▸ hnested)
    | some root => exact .inr ⟨root, rfl, hroot ▸ hnested⟩

/-- Whatever opens stands below the root of the body. -/
theorem Begun.mem_innerPlaces {body : Body} (hbegun : Begun body tracker) {index : Nat}
    {place : Place} (hplace : place ∈ tracker.opening index) : place ∈ body.innerPlaces := by
  rcases hbegun.root_cases with hnested | ⟨root, hroot, hnested⟩
  · rw [hnested.opening_eq_nil] at hplace
    exact absurd hplace List.not_mem_nil
  · obtain ⟨chain, hplaces, hchain⟩ := Arena.Nested.way hnested
    rw [opening_eq, hnested.innermost?_eq hplaces] at hplace
    rw [Body.innerPlaces_eq hroot]
    have hbelow := Place.mem_inside_of_isChain
      (Place.isChain_descent (chain.getLastD root) index) hplace
    rcases List.eq_nil_or_concat chain with rfl | ⟨outer, last, rfl⟩
    · exact hbelow
    · rw [List.concat_eq_append, List.getLastD_concat] at hbelow
      exact Place.mem_inside_trans (Place.mem_inside_of_isChain hchain (by simp)) hbelow

end Histories

/-! One piece of work in both modes -/

section Modes

variable {context : FunctionContext} {tracker : Tracker} {declaringClass : Except Failure Unit}

/-- Without a sequence point a scope is made in either mode without a further check. -/
theorem answer_create_of_unmarked {place : Place}
    (hpoint : context.body.startPoint place.node = .ok none) (mode : Mode) (parent : Nat)
    (tracker : Tracker) :
    (create (context.inMode mode) parent place).answer tracker =
      (.ok tracker.arena.size,
        { tracker with arena := tracker.arena.push ⟨some place, Link.ofIndex parent⟩ }) := by
  cases mode with
  | silent => exact answer_create_of_silent rfl parent place tracker
  | describing declaringClass =>
      have hdescribing : (Mode.describing declaringClass).isDescribing = true := rfl
      simp only [create, FunctionContext.body_inMode, FunctionContext.mode_inMode,
        hdescribing, if_true, Action.answer_bind, Action.answer_ofExcept, hpoint]
      rfl

/-- Entering a scope does the same in both modes, until the variables are looked up. -/
theorem answer_enter_describing (index : Nat) (tracker : Tracker) :
    (enter (context.inMode (.describing declaringClass)) index).answer tracker =
      match (enter (context.inMode .silent) index).answer tracker with
      | (.error failure, next) => (.error failure, next)
      | (.ok (), next) =>
          ((tracker.arena.place? index).elim (.ok ()) (checkVariables context ·.node),
            next) := by
  simp only [enter, Action.answer_bind, Action.answer_get, Action.answer_ofExcept,
    Arena.scope, Arena.place?, FunctionContext.body_inMode, FunctionContext.mode_inMode]
  cases tracker.arena[index]? with
  | none => rfl
  | some scope =>
      obtain ⟨source, parent⟩ := scope
      cases source with
      | none => rfl
      | some place =>
          simp only [Failure.ofNone_some, Option.bind_some, Option.elim_some,
            Action.answer_bind, Action.answer_ofExcept]
          cases context.body.startPoint place.node with
          | error failure => rfl
          | ok point =>
              simp only
              cases (locate point index).answer tracker with
              | mk result next =>
                  cases result with
                  | error failure => rfl
                  | ok _ => exact Action.answer_ofExcept _ next

variable {root : Option Place}

/-- While functions are described, opening a place without a sequence point differs
only in what comes of looking its variables up. -/
theorem Nested.openPlace_describing (declaringClass : Except Failure Unit)
    (hnested : tracker.Nested root) {place child : Place}
    (hplace : tracker.innermost? = some place) (hchild : place.HasChild child)
    (hpoint : context.body.startPoint child.node = .ok none)
    (hsmall : tracker.arena.size < 2 ^ 31) :
    (openPlace (context.inMode (.describing declaringClass)) child).answer tracker =
      (checkVariables context child.node, tracker.nest ⟨0, 0⟩ child) := by
  have hmode : (context.inMode .silent).mode.isDescribing = false := rfl
  have hsilent := hnested.answer_openPlace hmode hplace hchild hpoint hsmall
  rw [answer_openPlace_of_silent hmode hnested.ne_nil] at hsilent
  have hfound : (tracker.nest tracker.position child).arena.place? tracker.arena.size =
      some child := by
    simp [Arena.place?, Tracker.nest]
  have hcreate := answer_create_of_unmarked hpoint (.describing declaringClass)
  rw [answer_openPlace_of_create (fun parent => hcreate parent tracker) hnested.ne_nil,
    answer_enter_describing, hsilent, hfound]
  rfl

/-- While functions are described, a chain without sequence points is opened like while
they are not, as long as all variables name locals. -/
theorem Nested.forM_known (declaringClass : Except Failure Unit)
    (hnested : tracker.Nested root) {place : Place} {chain : List Place}
    (hplace : tracker.innermost? = some place)
    (hchain : (place :: chain).IsChain Place.HasChild)
    (hpoint : ∀ inner ∈ chain, context.body.startPoint inner.node = .ok none)
    (hknown : ∀ inner ∈ chain, ¬ inner.node.NamesUnknown context.locals)
    (hsmall : tracker.arena.size + chain.length ≤ 2 ^ 31) :
    (chain.forM (openPlace (context.inMode (.describing declaringClass)))).answer tracker =
      (.ok (), chain.foldl (Tracker.nest ⟨0, 0⟩) tracker) := by
  induction chain generalizing tracker place with
  | nil => rfl
  | cons child rest ih =>
      obtain ⟨hchild, hrest⟩ := List.isChain_cons_cons.mp hchain
      obtain ⟨hfirst, hothers⟩ := List.forall_mem_cons.mp hknown
      obtain ⟨hstart, hstarts⟩ := List.forall_mem_cons.mp hpoint
      simp only [List.length_cons] at hsmall
      have hopened := hnested.openPlace_describing declaringClass hplace hchild hstart
        (by omega)
      rw [checkVariables_of_known hfirst] at hopened
      simp only [List.forM_eq_forM, List.forM_cons, Action.answer_bind, hopened]
      exact ih (hnested.nest hplace hchild (by omega) ⟨0, 0⟩) (innermost?_nest _ _ _) hrest
        hstarts hothers (by rw [size_nest]; omega)

/-- The first place that has a variable of an unknown local is still opened, and none
behind it. -/
theorem Nested.forM_stops (declaringClass : Except Failure Unit)
    (hnested : tracker.Nested root) {place stop : Place} {known rest : List Place}
    (hplace : tracker.innermost? = some place)
    (hchain : (place :: (known ++ stop :: rest)).IsChain Place.HasChild)
    (hpoint : ∀ inner ∈ known ++ stop :: rest,
      context.body.startPoint inner.node = .ok none)
    (hknown : ∀ inner ∈ known, ¬ inner.node.NamesUnknown context.locals)
    (hunknown : stop.node.NamesUnknown context.locals)
    (hsmall : tracker.arena.size + (known ++ stop :: rest).length ≤ 2 ^ 31) :
    ((known ++ stop :: rest).forM
        (openPlace (context.inMode (.describing declaringClass)))).answer tracker =
      (.error .noLocal, (known ++ [stop]).foldl (Tracker.nest ⟨0, 0⟩) tracker) := by
  rw [← List.cons_append] at hchain
  obtain ⟨hinitial, -, hmeets⟩ := List.isChain_append.mp hchain
  have hchild : (known.getLastD place).HasChild stop :=
    hmeets _ (by simp [List.getLast?_cons, List.getLastD_eq_getLast?]) _ rfl
  simp only [List.length_append, List.length_cons] at hsmall
  have hopened := hnested.forM_known declaringClass hplace hinitial
    (fun inner hinner => hpoint inner (List.mem_append_left _ hinner)) hknown (by omega)
  have hinner := hnested.foldl_nest hplace hinitial (by omega) ⟨0, 0⟩
  have hstopped := hinner.openPlace_describing declaringClass
    (innermost?_foldl_nest ⟨0, 0⟩ known hplace) hchild (hpoint stop (by simp))
    (by rw [size_foldl_nest]; omega)
  rw [checkVariables_of_unknown hunknown] at hstopped
  rw [List.forM_eq_forM] at hopened ⊢
  simp only [List.forM_append, List.forM_cons, Action.answer_bind, hopened, hstopped,
    List.foldl_append]
  rfl

theorem Begun.point_eq_none (hunmarked : context.body.Unmarked)
    (hbegun : Begun context.body tracker) {instruction : Instruction} {index : Nat}
    (hinstruction : context.body.instruction index = .ok instruction) {place : Place}
    (hplace : place ∈ tracker.opening index) : instruction.point = none :=
  hunmarked.point_eq_none (hbegun.mem_innerPlaces hplace)
    (startPoint_of_mem_opening hinstruction hplace)

/-- Where all variables of what opens name locals, opening does the same in both
modes. -/
theorem Begun.openAt_known (hunmarked : context.body.Unmarked)
    (declaringClass : Except Failure Unit) (hbegun : Begun context.body tracker)
    {instruction : Instruction} {index : Nat}
    (hinstruction : context.body.instruction index = .ok instruction)
    (hknown : ∀ inner ∈ tracker.opening index, ¬ inner.node.NamesUnknown context.locals)
    (hsmall : tracker.arena.size + (tracker.opening index).length ≤ 2 ^ 31) :
    (openAt (context.inMode (.describing declaringClass)) instruction index).answer tracker =
      (openAt (context.inMode .silent) instruction index).answer tracker := by
  cases hopening : tracker.opening index with
  | nil =>
      simp only [openAt, Action.answer_bind, Action.answer_get, hopening]
      rfl
  | cons first inner =>
      have hfirst : first ∈ tracker.opening index := by simp [hopening]
      have hnone := hbegun.point_eq_none hunmarked hinstruction hfirst
      have hpoint : ∀ place ∈ tracker.opening index,
          context.body.startPoint place.node = .ok none :=
        fun _ hplace => hnone ▸ startPoint_of_mem_opening hinstruction hplace
      obtain ⟨place, hplace, hdescent⟩ := innermost?_of_mem_opening hfirst
      obtain ⟨root, -, hnested⟩ := hbegun
      have hmode : (context.inMode .silent).mode.isDescribing = false := rfl
      obtain ⟨hsilent, -⟩ := hnested.answer_forM_opening hmode hinstruction
        ((size_forM_openPlace_le _ _ _).trans hsmall)
      have hdescribing := hnested.forM_known declaringClass hplace
        (hdescent ▸ place.isChain_descent index) hpoint hknown hsmall
      rw [hnone] at hsilent
      simp only [openAt, Action.answer_bind, Action.answer_get, hdescribing, hsilent]
      rfl

/-- Opening stops behind the first scope that has a variable of an unknown local. -/
theorem Begun.openAt_stops (hunmarked : context.body.Unmarked)
    (declaringClass : Except Failure Unit) (hbegun : Begun context.body tracker)
    {instruction : Instruction} {index : Nat}
    (hinstruction : context.body.instruction index = .ok instruction)
    {known rest : List Place} {stop : Place}
    (hopening : tracker.opening index = known ++ stop :: rest)
    (hknown : ∀ inner ∈ known, ¬ inner.node.NamesUnknown context.locals)
    (hunknown : stop.node.NamesUnknown context.locals)
    (hsmall : tracker.arena.size + (tracker.opening index).length ≤ 2 ^ 31) :
    (openAt (context.inMode (.describing declaringClass)) instruction index).answer tracker =
      (.error .noLocal, (known ++ [stop]).foldl (nest ⟨0, 0⟩) tracker) := by
  have hstop : stop ∈ tracker.opening index := by simp [hopening]
  have hnone := hbegun.point_eq_none hunmarked hinstruction hstop
  have hpoint : ∀ place ∈ tracker.opening index,
      context.body.startPoint place.node = .ok none :=
    fun _ hplace => hnone ▸ startPoint_of_mem_opening hinstruction hplace
  obtain ⟨place, hplace, hdescent⟩ := innermost?_of_mem_opening hstop
  have hchain := hdescent ▸ place.isChain_descent index
  obtain ⟨root, -, hnested⟩ := hbegun
  rw [hopening] at hchain hpoint hsmall
  have hstops := hnested.forM_stops declaringClass hplace hchain hpoint hknown hunknown hsmall
  simp only [openAt, Action.answer_bind, Action.answer_get, hopening, hstops]

end Modes

end Tracker

end DebugInfo
