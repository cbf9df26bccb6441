import DebugInfo.CompilationUnit

/-!
A registry that is off. It was never given a writer, or it has read settings that
switch it off. Then every request to it is answered at once by nothing, also one for
an id that no type has or for a variable of some scope, and nothing is remembered of
it. So whatever is asked, and in whatever order, nothing is ever described, and the
type table of the unit answers as if there were no registry.
-/

namespace DebugInfo

namespace Registry

variable {δ : Type}

/-- How a registry comes to be off from the start: nobody gave it a writer, or it has
read settings that switch it off, whatever writer it had. -/
inductive StartsOff : Registry δ → Prop where
  | untouched : StartsOff (initial none)
  | configured (writer : Option (Writer δ)) {settings : Settings}
      (hoff : settings.enabled = false) (newWriter : Except Failure (Writer δ)) :
      StartsOff ((configure settings newWriter).answer (initial writer)).2

/-- Nothing was described and nothing waits to be. -/
structure IsBlank (registry : Registry δ) : Prop where
  slots : registry.slots = .empty
  types : registry.types = ∅
  classes : registry.classes = ∅
  queue : registry.queue = []
  deferred : registry.deferred = []
  incomplete : registry.incomplete = []
  namespaces : registry.namespaces = ∅

/-- No writer is in use, and none was before. -/
structure IsOff (registry : Registry δ) : Prop extends IsBlank registry where
  inactive : registry.activeWriter? = none

/-- The answer that says that there is nothing. -/
def Request.blankAnswer : Request δ → Answer δ
  | .typeOf _ | .classOf _ | .namespaceOf _ | .lookupNamespace _ | .describeVariable .. =>
      .descriptor none
  | .drain | .sealClasses | .finish => .done
  | .classEntry _ => .classEntry none
  | .isQueued _ => .flag false

theorem incomplete_of_no_classes {registry : Registry δ} (hclasses : registry.classes = ∅) :
    registry.incomplete = [] := by
  simp [incomplete, hclasses]

theorem IsBlank.no_class {registry : Registry δ} (hblank : registry.IsBlank) (id : TypeId) :
    registry.classes[id]? = none := by
  rw [hblank.classes, Std.HashMap.getElem?_empty]

theorem isBlank_initial (writer : Option (Writer δ)) : (initial writer).IsBlank :=
  ⟨rfl, rfl, rfl, rfl, rfl, incomplete_of_no_classes rfl, rfl⟩

/-- Settings that switch a registry off take its writer and touch nothing else. -/
theorem answer_configure_of_off {settings : Settings} (hoff : settings.enabled = false)
    (newWriter : Except Failure (Writer δ)) (registry : Registry δ) :
    (configure settings newWriter).answer registry = (.ok (), { registry with
      switchedOn := false, trace := settings.trace, writer := none }) := by
  simp only [configure, hoff, Action.answer_bind, Action.answer_modify]
  rfl

theorem IsBlank.configured {registry : Registry δ} (hblank : registry.IsBlank)
    {settings : Settings} (hoff : settings.enabled = false)
    (newWriter : Except Failure (Writer δ)) :
    ((configure settings newWriter).answer registry).2.IsOff := by
  rw [answer_configure_of_off hoff]
  obtain ⟨hslots, htypes, hclasses, hqueue, hdeferred, -, hnamespaces⟩ := hblank
  exact ⟨⟨hslots, htypes, hclasses, hqueue, hdeferred, incomplete_of_no_classes hclasses,
    hnamespaces⟩, rfl⟩

theorem StartsOff.isOff {registry : Registry δ} (hoff : registry.StartsOff) :
    registry.IsOff := by
  cases hoff with
  | untouched => exact ⟨isBlank_initial none, rfl⟩
  | configured writer hoff newWriter => exact (isBlank_initial writer).configured hoff newWriter

section Requests

variable {registry : Registry δ}

/-- Work that is only done with a writer is not done without one. -/
theorem answer_of_inactive {α : Type} (hinactive : registry.activeWriter? = none) (value : α)
    (work : Writer δ → Action (Registry δ) α) :
    Action.answer (do
      match (← get).activeWriter? with
      | none => pure value
      | some writer => work writer) registry = (.ok value, registry) := by
  rw [Action.answer_bind, Action.answer_get]
  simp only [hinactive]
  rfl

theorem IsBlank.step_lookupNamespace (hblank : registry.IsBlank) (table : TypeTable)
    (path : String) :
    registry.step table (.lookupNamespace path) = (.ok (.descriptor none), registry) := by
  have hnone : registry.lookupNamespace path = none := by
    unfold lookupNamespace
    split
    · rfl
    · rw [hblank.namespaces, Std.HashMap.getElem?_empty]
  simp only [step, perform, Action.answer_bind, Action.answer_get, hnone]
  rfl

theorem IsBlank.step_classEntry (hblank : registry.IsBlank) (table : TypeTable) (id : TypeId) :
    registry.step table (.classEntry id) = (.ok (.classEntry none), registry) := by
  have hnone : registry.classAt? id = none := hblank.no_class id
  simp only [step, perform, Action.answer_bind, Action.answer_get, hnone]
  rfl

theorem IsBlank.step_isQueued (hblank : registry.IsBlank) (table : TypeTable) (id : TypeId) :
    registry.step table (.isQueued id) = (.ok (.flag false), registry) := by
  have hfalse : registry.isQueued id = false := by
    rw [isQueued, hblank.queue, hblank.deferred]
    rfl
  simp only [step, perform, Action.answer_bind, Action.answer_get, hfalse]
  rfl

theorem answer_describeVariable_of_inactive (hinactive : registry.activeWriter? = none)
    (table : TypeTable) (scope : Option δ) (type : TypeId) (note : VariableNote δ) :
    (describeVariable table scope type note).answer registry = (.ok none, registry) := by
  simp only [describeVariable, Action.answer_bind, Action.answer_get, hinactive]
  rfl

theorem answer_descriptor {action : Action (Registry δ) (Option δ)}
    (hnone : action.answer registry = (.ok none, registry)) :
    (Answer.descriptor <$> action).answer registry = (.ok (.descriptor none), registry) := by
  rw [Action.answer_map, hnone]
  rfl

theorem answer_done {action : Action (Registry δ) Unit}
    (hdone : action.answer registry = (.ok (), registry)) :
    (action >>= fun _ => pure (.done : Answer δ)).answer registry = (.ok .done, registry) := by
  rw [Action.answer_bind, hdone]
  rfl

/-- A registry that is off answers that there is nothing, and stays as it is. -/
theorem IsOff.step_eq (hoff : registry.IsOff) (table : TypeTable) (request : Request δ) :
    registry.step table request = (.ok request.blankAnswer, registry) := by
  have hguard {α : Type} (value : α) (work : Writer δ → Action (Registry δ) α) :=
    answer_of_inactive hoff.inactive value work
  cases request with
  | typeOf | classOf | namespaceOf => exact answer_descriptor (hguard none _)
  | drain | sealClasses | finish => exact answer_done (hguard () _)
  | describeVariable scope type name =>
      exact answer_descriptor
        (answer_describeVariable_of_inactive hoff.inactive table scope type { name })
  | lookupNamespace path => exact hoff.toIsBlank.step_lookupNamespace table path
  | classEntry id => exact hoff.toIsBlank.step_classEntry table id
  | isQueued id => exact hoff.toIsBlank.step_isQueued table id

end Requests

end Registry

namespace CompilationUnit

variable {δ : Type}

def Request.table? : Request δ → Option TypeTable.Request
  | .table request => some request
  | _ => none

/-- A request to the registry is answered by nothing, and settings are read without
failure. -/
def Request.AnsweredBlank (request : Request δ) (answer : Except Failure (Answer δ)) : Prop :=
  match request with
  | .registry asked => answer = .ok (.registry asked.blankAnswer)
  | .configure _ => answer = .ok .configured
  | _ => True

/-- Whenever the registry reads the settings during a run, they switch it off. -/
def StaysOff (unit : CompilationUnit δ) (requests : List (Request δ)) : Prop :=
  ∀ earlier newWriter later, requests = earlier ++ .configure newWriter :: later →
    (unit.after earlier).settings.enabled = false

/-- What the type table answers during a run, with the table after each answer. -/
def tableReplies (unit : CompilationUnit δ) (requests : List (Request δ)) :
    List (Except Failure (Answer δ) × TypeTable) :=
  (requests.zip (unit.run requests)).filterMap fun (request, reply) =>
    request.table?.map fun _ => (reply.1, reply.2.table)

section Runs

variable {unit : CompilationUnit δ}

theorem isOff_step (hoff : unit.registry.IsOff) {request : Request δ}
    (hconfigure : ∀ newWriter, request = .configure newWriter → unit.settings.enabled = false) :
    request.AnsweredBlank (unit.step request).1 ∧ (unit.step request).2.registry.IsOff := by
  cases request with
  | table request => exact ⟨trivial, hoff⟩
  | registry asked =>
      simp only [step, hoff.step_eq, Request.AnsweredBlank]
      exact ⟨rfl, hoff⟩
  | configure newWriter =>
      have hdisabled := hconfigure newWriter rfl
      have hconfigured := hoff.toIsBlank.configured hdisabled newWriter
      refine ⟨?_, hconfigured⟩
      simp only [step, Registry.answer_configure_of_off hdisabled, Request.AnsweredBlank]
      rfl
  | adopt settings => exact ⟨trivial, hoff⟩
  | settings => exact ⟨trivial, hoff⟩

theorem staysOff_nil (unit : CompilationUnit δ) : unit.StaysOff [] :=
  fun _ _ _ hsplit =>
    absurd hsplit.symm (List.append_ne_nil_of_right_ne_nil _ (List.cons_ne_nil _ _))

theorem staysOff_cons {request : Request δ} {rest : List (Request δ)} :
    unit.StaysOff (request :: rest) ↔
      (∀ newWriter, request = .configure newWriter → unit.settings.enabled = false) ∧
        (unit.step request).2.StaysOff rest := by
  constructor
  · intro hstays
    constructor
    · rintro newWriter rfl
      exact hstays [] newWriter rest rfl
    · rintro earlier newWriter later rfl
      exact hstays (request :: earlier) newWriter later rfl
  · rintro ⟨hfirst, hrest⟩ earlier newWriter later hsplit
    cases earlier with
    | nil => exact hfirst newWriter (List.cons.inj hsplit).1
    | cons asked earlier =>
        obtain ⟨rfl, hrestSplit⟩ := List.cons.inj hsplit
        exact hrest earlier newWriter later hrestSplit

theorem blank_run (hoff : unit.registry.IsOff) {requests : List (Request δ)}
    (hstays : unit.StaysOff requests) :
    ∀ entry ∈ requests.zip (unit.run requests),
      entry.1.AnsweredBlank entry.2.1 ∧ entry.2.2.registry.IsBlank := by
  induction requests generalizing unit with
  | nil => exact fun _ hentry => absurd hentry List.not_mem_nil
  | cons request rest ih =>
      obtain ⟨hconfigure, hlater⟩ := staysOff_cons.mp hstays
      obtain ⟨hanswer, hnext⟩ := isOff_step hoff hconfigure
      intro entry hentry
      rcases List.mem_cons.mp hentry with rfl | hentry
      · exact ⟨hanswer, hnext.toIsBlank⟩
      · exact ih hnext hlater entry hentry

/-- The type table of a unit answers as it would by itself. -/
theorem tableReplies_eq (unit : CompilationUnit δ) (requests : List (Request δ)) :
    unit.tableReplies requests =
      (unit.table.run (requests.filterMap Request.table?)).map fun reply =>
        (reply.1.map .table, reply.2) := by
  induction requests generalizing unit with
  | nil => rfl
  | cons request rest ih =>
      have hrest := ih (unit.step request).2
      have hrun : unit.run (request :: rest) =
          unit.step request :: (unit.step request).2.run rest := rfl
      rw [tableReplies, hrun, List.zip_cons_cons]
      cases request with
      | table request => exact congrArg (_ :: ·) hrest
      | registry request => exact hrest
      | configure newWriter => exact hrest
      | adopt settings => exact hrest
      | settings => exact hrest

end Runs

/-- A registry that is off does nothing during a whole run. Every request to it is
answered, and by nothing, whether the ids and paths in it are known or not. Nothing is
described and nothing waits to be. The type table answers each request as in the run
without those to the registry. The settings may change during the run, as long as those
that the registry reads switch it off. -/
theorem registry_off_is_idle {unit : CompilationUnit δ} (hoff : unit.registry.StartsOff)
    {requests : List (Request δ)} (hstays : unit.StaysOff requests) :
    (∀ entry ∈ requests.zip (unit.run requests),
      entry.1.AnsweredBlank entry.2.1 ∧ entry.2.2.registry.IsBlank) ∧
    unit.tableReplies requests =
      (unit.table.run (requests.filterMap Request.table?)).map fun reply =>
        (reply.1.map .table, reply.2) :=
  ⟨blank_run hoff.isOff hstays, unit.tableReplies_eq requests⟩

/-- Settings that write nothing. -/
def quiet : Settings := { enabled := false }

/-- Unknown ids, a path, a variable and a failed publication, while the settings change
twice and are read again. -/
def quietRequests : List (Request Nat) :=
  [.registry (.typeOf 99), .table (.publish 99 []), .registry (.classOf 99),
    .adopt .default, .registry (.describeVariable (some 7) 3 "x"), .adopt quiet,
    .configure (.ok (.declining Nat)), .table (.addUnshaped .typeParameter "T"),
    .registry (.namespaceOf "A.B"), .registry (.lookupNamespace "A.B"), .registry .finish]

/-- A unit whose registry had a writer and has read settings that write nothing. -/
def quietUnit : CompilationUnit Nat where
  settings := quiet
  table := .seed
  registry := ((Registry.configure quiet (.error .writerRequired)).answer
    (.initial (some (.declining Nat)))).2

theorem quietUnit_is_idle :
    quietUnit.registry.StartsOff ∧ quietUnit.StaysOff quietRequests ∧
    (∀ entry ∈ quietRequests.zip (quietUnit.run quietRequests),
      entry.1.AnsweredBlank entry.2.1 ∧ entry.2.2.registry.IsBlank) ∧
    (quietUnit.tableReplies quietRequests).map Prod.fst =
      [.error .unknownType, .ok (.table (.id 15))] := by
  have hoff : quietUnit.registry.StartsOff := .configured (some (.declining Nat)) rfl _
  have hstays : quietUnit.StaysOff quietRequests := by
    simp only [quietRequests, staysOff_cons, staysOff_nil, reduceCtorEq, false_implies,
      implies_true, true_and, and_true]
    exact fun _ _ => rfl
  obtain ⟨hblank, htable⟩ := registry_off_is_idle hoff hstays
  refine ⟨hoff, hstays, hblank, ?_⟩
  rw [htable]
  rfl

end CompilationUnit

end DebugInfo
