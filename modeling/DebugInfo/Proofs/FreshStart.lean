import DebugInfo.Proofs.Modes

/-!
What a tracker that was used before carries into a new function. Beginning a
function forgets all scopes, and the position is written but never read: what a
request answers and what it leaves of the scopes is the same wherever the position
was. So whatever was done before, and however it ended, a function is tracked as by
a tracker that was never used, except that the position is the old one until the
first request that sets it.

This holds of every body and whether functions are described or not, with any number
of scopes and any links between them.
-/

namespace DebugInfo.Tracker

/-- Work for which it does not matter where the position is. It gives the same and
leaves the same scopes from every position, and it keeps every position or moves all
to one. -/
def IgnoresPosition {α : Type} (action : Action Tracker α) : Prop :=
  ∀ tracker, ∃ moved : Option Position, ∀ position,
    action.answer { tracker with position } = ((action.answer tracker).1,
      { (action.answer tracker).2 with position := moved.getD position })

namespace IgnoresPosition

variable {α β : Type}

theorem pure (value : α) : IgnoresPosition (Pure.pure value) :=
  fun _ => ⟨none, fun _ => rfl⟩

theorem throw (failure : Failure) :
    IgnoresPosition (MonadExcept.throw failure : Action Tracker α) :=
  fun _ => ⟨none, fun _ => rfl⟩

theorem ofExcept (result : Except Failure α) : IgnoresPosition (Action.ofExcept result) := by
  intro tracker
  refine ⟨none, fun position => ?_⟩
  rw [Action.answer_ofExcept, Action.answer_ofExcept]
  rfl

theorem bind {first : Action Tracker α} {second : α → Action Tracker β}
    (hfirst : IgnoresPosition first) (hsecond : ∀ value, IgnoresPosition (second value)) :
    IgnoresPosition (first >>= second) := by
  intro tracker
  obtain ⟨moved, hmoved⟩ := hfirst tracker
  rw [Action.answer_bind]
  cases hanswer : first.answer tracker with
  | mk result next =>
      rw [hanswer] at hmoved
      cases result with
      | error failure =>
          refine ⟨moved, fun position => ?_⟩
          rw [Action.answer_bind, hmoved position]
      | ok value =>
          obtain ⟨further, hfurther⟩ := hsecond value next
          refine ⟨further.or moved, fun position => ?_⟩
          rw [Action.answer_bind, hmoved position]
          refine (hfurther (moved.getD position)).trans ?_
          cases further <;> rfl

/-- Reading the tracker is harmless where the position is not what is used of it. -/
theorem read {body : Tracker → Action Tracker α}
    (hsame : ∀ tracker position, body { tracker with position } = body tracker)
    (hbody : ∀ tracker, IgnoresPosition (body tracker)) :
    IgnoresPosition (get >>= body) := by
  intro tracker
  obtain ⟨moved, hmoved⟩ := hbody tracker tracker
  refine ⟨moved, fun position => ?_⟩
  simp only [Action.answer_bind, Action.answer_get, hsame]
  exact hmoved position

theorem forM {list : List α} {action : α → Action Tracker Unit}
    (haction : ∀ value, IgnoresPosition (action value)) : IgnoresPosition (list.forM action) := by
  induction list with
  | nil => exact pure ()
  | cons value rest ih => exact (haction value).bind fun _ => ih

end IgnoresPosition

open IgnoresPosition

theorem ignoresPosition_top : IgnoresPosition top :=
  read (fun _ _ => rfl) fun _ => ofExcept _

theorem ignoresPosition_checkLinks (index : Nat) : IgnoresPosition (checkLinks index) :=
  read (fun _ _ => rfl) fun _ => (ofExcept _).bind fun _ => pure ()

theorem ignoresPosition_locate (point : Option SequencePoint) (index : Nat) :
    IgnoresPosition (locate point index) :=
  (ignoresPosition_checkLinks index).bind fun _ _ => ⟨some (.ofPoint point), fun _ => rfl⟩

theorem ignoresPosition_create (context : FunctionContext) (parent : Nat) (place : Place) :
    IgnoresPosition (create context parent place) := by
  have hmake : IgnoresPosition (do
      let tracker ← get
      set { tracker with arena := tracker.arena.push ⟨some place, Link.ofIndex parent⟩ }
      return tracker.arena.size) := fun _ => ⟨none, fun _ => rfl⟩
  unfold create
  split
  · refine (ofExcept _).bind fun point => ?_
    split
    · exact (ignoresPosition_checkLinks parent).bind fun _ => (throw _).bind fun _ => hmake
    · exact hmake
  · exact hmake

theorem ignoresPosition_enter (context : FunctionContext) (index : Nat) :
    IgnoresPosition (enter context index) := by
  refine read (fun _ _ => rfl) fun tracker => (ofExcept _).bind fun scope => ?_
  split
  · exact pure ()
  · refine (ofExcept _).bind fun point => (ignoresPosition_locate point index).bind fun _ => ?_
    split
    · exact ofExcept _
    · exact pure ()

theorem ignoresPosition_openPlace (context : FunctionContext) (place : Place) :
    IgnoresPosition (openPlace context place) :=
  ignoresPosition_top.bind fun parent =>
    (ignoresPosition_create context parent place).bind fun index =>
      IgnoresPosition.bind (fun _ => ⟨none, fun _ => rfl⟩) fun _ =>
        ignoresPosition_enter context index

theorem ignoresPosition_leave (body : Body) (offset : Nat) :
    IgnoresPosition (leave body offset) := by
  intro tracker
  refine ⟨none, fun position => ?_⟩
  rw [answer_leave, answer_leave]
  rfl

theorem ignoresPosition_advance (context : FunctionContext) (index : Nat) :
    IgnoresPosition (advance context index) := by
  refine (ofExcept _).bind fun instruction => (ignoresPosition_leave _ _).bind fun _ =>
    read (fun _ _ => rfl) fun tracker =>
      (forM fun place => ignoresPosition_openPlace context place).bind fun _ => ?_
  split
  · exact ignoresPosition_top.bind fun scope => ignoresPosition_locate _ scope
  · exact pure ()

theorem ignoresPosition_pushRoot (source : Option Place) :
    IgnoresPosition (pushRoot source) :=
  fun _ => ⟨none, fun _ => rfl⟩

theorem ignoresPosition_prepare (context : FunctionContext) :
    IgnoresPosition (prepare context) := by
  refine (ignoresPosition_pushRoot _).bind fun _ => ?_
  split
  · exact pure ()
  · exact (ofExcept _).bind fun _ => throw _

theorem ignoresPosition_perform (context : FunctionContext) (request : Request) :
    IgnoresPosition (perform context request) := by
  cases request with
  | pushRoot bare => exact (ignoresPosition_pushRoot _).bind fun _ => pure _
  | prepare => exact (ignoresPosition_prepare context).bind fun _ => pure _
  | advance index => exact (ignoresPosition_advance context index).bind fun _ => pure _
  | create parent path =>
      exact (ofExcept _).bind fun place =>
        (ignoresPosition_create context parent place).bind fun _ => pure _
  | enter index => exact (ignoresPosition_enter context index).bind fun _ => pure _
  | parent index =>
      exact read (fun _ _ => rfl) fun _ => (ofExcept _).bind fun _ => pure _
  | nearest index described subprogram =>
      exact read (fun _ _ => rfl) fun _ => (ofExcept _).bind fun _ => pure _

/-! Whole runs -/

/-- A request sets the position: some position does not survive it. -/
def Sets (context : FunctionContext) (tracker : Tracker) (request : Request) : Prop :=
  ∃ position, (step context { tracker with position } request).2.position ≠ position

/-- Some request of a run sets the position. -/
def SetsWithin (context : FunctionContext) (tracker : Tracker) : List Request → Prop
  | [] => False
  | request :: rest =>
      Sets context tracker request ∨ SetsWithin context (step context tracker request).2 rest

/-- Two replies with the same answer and the same scopes. -/
structure SameScopes (used fresh : Except Failure Answer × Tracker) : Prop where
  answer : used.1 = fresh.1
  stack : used.2.stack = fresh.2.stack
  arena : used.2.arena = fresh.2.arena

section Runs

variable (context : FunctionContext) (tracker : Tracker)

/-- A request that sets the position leaves the same tracker from every position, and
one that does not keeps them all. -/
theorem sets_or_keeps (request : Request) :
    (Sets context tracker request ∧ ∀ position,
      step context { tracker with position } request = step context tracker request) ∨
    (¬ Sets context tracker request ∧ ∀ position,
      step context { tracker with position } request =
        ((step context tracker request).1,
          { (step context tracker request).2 with position })) := by
  obtain ⟨moved, hmoved⟩ := ignoresPosition_perform context request tracker
  cases moved with
  | some reached =>
      refine Or.inl ⟨⟨⟨reached.line + 1, reached.column⟩, ?_⟩, fun position => ?_⟩
      · rw [step, hmoved]
        intro hsame
        exact Nat.succ_ne_self _ (congrArg Position.line hsame).symm
      · exact (hmoved position).trans (hmoved tracker.position).symm
  | none =>
      refine Or.inr ⟨?_, hmoved⟩
      rintro ⟨position, hmoves⟩
      apply hmoves
      rw [step, hmoved]
      rfl

theorem forall₂_run (position : Position) (requests : List Request) :
    List.Forall₂ SameScopes (run context { tracker with position } requests)
      (run context tracker requests) := by
  induction requests generalizing tracker position with
  | nil => exact .nil
  | cons request rest ih =>
      obtain ⟨moved, hmoved⟩ := ignoresPosition_perform context request tracker
      have hstep : step context { tracker with position } request =
          ((step context tracker request).1,
            { (step context tracker request).2 with position := moved.getD position }) :=
        hmoved position
      refine .cons ?_ ?_
      · rw [hstep]
        exact ⟨rfl, rfl, rfl⟩
      · rw [hstep]
        exact ih (step context tracker request).2 (moved.getD position)

theorem after_of_setsWithin (position : Position) {requests : List Request}
    (hsets : SetsWithin context tracker requests) :
    after context { tracker with position } requests = after context tracker requests := by
  induction requests generalizing tracker with
  | nil => exact absurd hsets id
  | cons request rest ih =>
      simp only [after, History.after_cons] at ih ⊢
      rcases sets_or_keeps context tracker request with ⟨-, hsame⟩ | ⟨hkeeps, hstep⟩
      · rw [hsame]
      · rw [hstep]
        exact ih _ (hsets.resolve_left hkeeps)

theorem after_of_not_setsWithin (position : Position) {requests : List Request}
    (hkeeps : ¬ SetsWithin context tracker requests) :
    after context { tracker with position } requests =
      { after context tracker requests with position } := by
  induction requests generalizing tracker with
  | nil => rfl
  | cons request rest ih =>
      obtain ⟨hfirst, hrest⟩ := not_or.mp hkeeps
      simp only [after, History.after_cons] at ih ⊢
      rcases sets_or_keeps context tracker request with ⟨hsets, -⟩ | ⟨-, hstep⟩
      · exact absurd hsets hfirst
      · rw [hstep]
        exact ih _ hrest

end Runs

section Beginnings

variable {context : FunctionContext} {first : Request} {root : Option Place}

/-- What begins a function is answered the same whatever was done before. -/
theorem fst_step_of_root? (hfirst : first.root? context = some root)
    (used fresh : Tracker) : (step context used first).1 = (step context fresh first).1 := by
  cases first with
  | pushRoot bare => rfl
  | prepare =>
      obtain ⟨body, locals, mode⟩ := context
      cases mode with
      | silent => rfl
      | describing declaringClass => cases declaringClass <;> rfl
  | advance | create | enter | parent | nearest => cases hfirst

/-- Beginning a function leaves nothing of what was done before but the position. -/
theorem step_of_root?_eq (hfirst : first.root? context = some root) (used fresh : Tracker) :
    step context used first = ((step context fresh first).1,
      { (step context fresh first).2 with position := used.position }) := by
  refine Prod.ext (fst_step_of_root? hfirst used fresh) ?_
  rw [snd_step_of_root? hfirst, snd_step_of_root? hfirst]

theorem not_sets_of_root? (hfirst : first.root? context = some root) (tracker : Tracker) :
    ¬ Sets context tracker first := by
  rintro ⟨position, hmoves⟩
  rw [snd_step_of_root? hfirst] at hmoves
  exact hmoves rfl

end Beginnings

/-- A new function starts clean. Whatever was asked of a tracker before, of this
function or another, requests that begin a function and go on with it are answered one
by one as by a tracker that was never used, and leave the same scopes. The position is
the same too from the first request on that sets it, and until then it is the one that
was left. -/
theorem function_starts_clean (earlier context : FunctionContext) (history : List Request)
    {first : Request} {root : Option Place} (hfirst : first.root? context = some root)
    (rest : List Request) :
    List.Forall₂ SameScopes (run context (after earlier initial history) (first :: rest))
      (run context initial (first :: rest)) ∧
    ∀ requests, requests <+: first :: rest →
      (SetsWithin context initial requests →
        (after context (after earlier initial history) requests).position =
          (after context initial requests).position) ∧
      (¬ SetsWithin context initial requests →
        (after context (after earlier initial history) requests).position =
          (after earlier initial history).position) := by
  generalize after earlier initial history = used
  have hbegun := step_of_root?_eq hfirst used initial
  refine ⟨.cons ?_ ?_, ?_⟩
  · rw [hbegun]
    exact ⟨rfl, rfl, rfl⟩
  · rw [hbegun]
    exact forall₂_run context _ used.position rest
  · intro requests hprefix
    cases requests with
    | nil => exact ⟨fun hsets => absurd hsets id, fun _ => rfl⟩
    | cons request others =>
        obtain ⟨rfl, -⟩ := List.cons_prefix_cons.mp hprefix
        simp only [after, History.after_cons, hbegun]
        constructor
        · intro hsets
          have hothers := hsets.resolve_left (not_sets_of_root? hfirst initial)
          exact congrArg Tracker.position
            (after_of_setsWithin context _ used.position hothers)
        · intro hkeeps
          have hkept := after_of_not_setsWithin context (step context initial request).2
            used.position (not_or.mp hkeeps).2
          exact (congrArg Tracker.position hkept :)

/-- A function that starts without a sequence point. -/
def lateStart : FunctionContext where
  body := ⟨#[⟨0, none⟩, ⟨3, some ⟨"", 7, 1⟩⟩], some ⟨0, 1, [], []⟩⟩
  locals := #[]
  mode := .silent

/-- The second scope has a link that leads nowhere and cannot be entered. The last
visit is the first to set the position. -/
def brokenLink : List Request := [.create 5 [], .enter 1, .advance 0, .advance 1]

/-- The function before was left where every further visit fails. -/
theorem lateStart_starts_clean :
    List.Forall₂ SameScopes
      (run lateStart (after overlapping initial interleaved) (.prepare :: brokenLink))
      (run lateStart initial (.prepare :: brokenLink)) ∧
    (after lateStart (after overlapping initial interleaved)
      [.prepare, .create 5 [], .enter 1]).position = ⟨1, 2⟩ ∧
    (after lateStart (after overlapping initial interleaved)
      (.prepare :: brokenLink)).position = ⟨7, 1⟩ := by
  have hfirst : Request.prepare.root? lateStart = some lateStart.body.rootPlace := rfl
  obtain ⟨hreplies, hpositions⟩ :=
    function_starts_clean overlapping lateStart interleaved hfirst brokenLink
  refine ⟨hreplies, ?_, ?_⟩
  · have hkeeps : ¬ SetsWithin lateStart initial [.prepare, .create 5 [], .enter 1] := by
      rintro (⟨position, hmoves⟩ | ⟨position, hmoves⟩ | ⟨position, hmoves⟩ | hnone)
      · exact hmoves rfl
      · exact hmoves rfl
      · exact hmoves rfl
      · exact hnone
    have hposition := (hpositions _ ⟨[.advance 0, .advance 1], rfl⟩).2 hkeeps
    exact hposition.trans (by decide +kernel)
  · have hsets : SetsWithin lateStart initial (.prepare :: brokenLink) :=
      Or.inr (Or.inr (Or.inr (Or.inr (Or.inl ⟨⟨0, 0⟩, by decide +kernel⟩))))
    have hposition := (hpositions _ (List.prefix_refl _)).1 hsets
    exact hposition.trans (by decide +kernel)

end DebugInfo.Tracker
