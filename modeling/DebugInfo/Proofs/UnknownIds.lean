import Mathlib.Data.List.Induction
import DebugInfo.Proofs.ClassQueue
import DebugInfo.Proofs.Prologues
import DebugInfo.Proofs.SwitchedOff
import DebugInfo.TypeTable.Lemmas

/-!
An active registry in which nothing was described yet, and requests to it that find
nothing: they name a type that the table does not know at that moment, or there is nothing
to be done for them. Those with an unknown type fail, and the others are answered by
nothing. In either case the registry is left as it was, so that a failure cannot be told
from what comes later. A prologue that fails in this way has begun the scopes of its
function anew and done nothing else.
-/

namespace DebugInfo

namespace Registry

variable {δ : Type} {registry : Registry δ} {table : TypeTable}

/-- Asking for the class of an unknown id fails before anything is described. -/
theorem declareClass_of_unknown {id : TypeId} (hclass : registry.classes[id]? = none)
    (hunknown : table.size ≤ id.toNat) (writer : Writer δ) :
    (declareClass writer table id).answer registry = (.error .unknownType, registry) := by
  have hrecord := (table.record_eq_error_iff id _).mpr ⟨rfl, hunknown⟩
  rw [declareClass]
  simp only [Action.answer_bind, Action.answer_get, hclass, hrecord, Action.answer_ofExcept]

theorem describeType_of_unknown {id : TypeId} (htype : registry.types[id]? = none)
    (hunknown : table.size ≤ id.toNat) (writer : Writer δ) :
    (describeType writer table id).answer registry = (.error .unknownType, registry) := by
  have hrecord := (table.record_eq_error_iff id _).mpr ⟨rfl, hunknown⟩
  rw [describeType]
  simp only [described?, Action.answer_bind, Action.answer_get, htype, Action.answer_pure,
    hrecord, Action.answer_ofExcept]

theorem eq_of_nothing_waits (hqueue : registry.queue = []) (hdeferred : registry.deferred = []) :
    { registry with queue := [], deferred := [] } = registry := by
  cases registry
  cases hqueue
  cases hdeferred
  rfl

/-- Where no class waits, draining does nothing. -/
theorem answer_drain_of_empty (hqueue : registry.queue = []) (hdeferred : registry.deferred = [])
    (table : TypeTable) : (drain table).answer registry = (.ok (), registry) := by
  simp only [drain, Action.answer_bind, Action.answer_get]
  cases registry.activeWriter? with
  | none => rfl
  | some writer =>
      have hwaiting : registry.queue ++ registry.deferred = [] := by rw [hqueue, hdeferred]; rfl
      simp only [Action.answer_bind, Action.answer_modify, hwaiting,
        eq_of_nothing_waits hqueue hdeferred, Action.answer_get]
      exact answer_completeQueued_of_empty hqueue writer _ _

/-- Where every class is complete and none waits, sealing does nothing. -/
theorem answer_sealClasses_of_empty (hincomplete : registry.incomplete = [])
    (hqueue : registry.queue = []) (hdeferred : registry.deferred = []) (table : TypeTable) :
    (sealClasses table).answer registry = (.ok (), registry) := by
  simp only [sealClasses, Action.answer_bind, Action.answer_get]
  cases registry.activeWriter? with
  | none => rfl
  | some writer =>
      simp only [Action.answer_bind, Action.answer_get, hincomplete, List.forM_eq_forM,
        List.forM_nil, Action.answer_pure, Action.answer_modify,
        eq_of_nothing_waits hqueue hdeferred]

/-- Whether a request names a type that is unknown or leaves nothing to be done where
nothing is described. -/
def Request.FindsNothing (table : TypeTable) : Request δ → Prop
  | .typeOf id | .classOf id => table.size ≤ id.toNat
  | .namespaceOf path => path = ""
  | .describeVariable scope _ _ => scope = none
  | .lookupNamespace _ | .drain | .sealClasses | .classEntry _ | .isQueued _ => True
  | .finish => False

/-- What a request that finds nothing is answered. -/
def Request.emptyAnswer : Request δ → Except Failure (Answer δ)
  | .typeOf _ | .classOf _ => .error .unknownType
  | request => .ok request.blankAnswer

/-- A request that finds nothing leaves the registry as it was. -/
theorem IsBlank.step_findsNothing (hblank : registry.IsBlank) (hactive : registry.isActive = true)
    {request : Request δ} (hrequest : request.FindsNothing table) :
    registry.step table request = (request.emptyAnswer, registry) := by
  obtain ⟨writer, hwriter⟩ := Option.isSome_iff_exists.mp hactive
  cases request with
  | typeOf id =>
      have htype : registry.types[id]? = none := by
        rw [hblank.types, Std.HashMap.getElem?_empty]
      simp only [step, perform, typeOf, Action.answer_map, Action.answer_bind,
        Action.answer_get, hwriter, describeType_of_unknown htype hrequest]
      rfl
  | classOf id =>
      simp only [step, perform, classOf, Action.answer_map, Action.answer_bind,
        Action.answer_get, hwriter, declareClass_of_unknown (hblank.no_class id) hrequest]
      rfl
  | namespaceOf path =>
      cases hrequest
      simp only [step, perform, namespaceOf, Action.answer_map, Action.answer_bind,
        Action.answer_get, hwriter]
      rfl
  | describeVariable scope type name =>
      cases hrequest
      simp only [step, perform, describeVariable, Action.answer_map, Action.answer_bind,
        Action.answer_get, hwriter]
      rfl
  | drain =>
      exact answer_done (answer_drain_of_empty hblank.queue hblank.deferred table)
  | sealClasses =>
      exact answer_done (answer_sealClasses_of_empty hblank.incomplete hblank.queue
        hblank.deferred table)
  | lookupNamespace path => exact hblank.step_lookupNamespace table path
  | classEntry id => exact hblank.step_classEntry table id
  | isQueued id => exact hblank.step_isQueued table id
  | finish => cases hrequest

end Registry

namespace Session

variable {δ : Type} {session : Session δ}

/-- Whether a request, as things stand in a session, finds nothing to describe. The settings
may change, but the registry must not read them. -/
def Request.FindsNothing (session : Session δ) : Request δ → Prop
  | .unit (.registry asked) => asked.FindsNothing session.unit.table
  | .prepare index => session.unit.table.size ≤ (session.functions index).input.declaring.toNat
  | .unit (.table _) | .unit (.adopt _) | .unit .settings => True
  | .unit (.configure _) => False

/-- What comes of a request that finds nothing. Unknown types fail, and all else is as if
there were no registry. -/
def emptyReply (session : Session δ) : Request δ → Except Failure (Answer δ) × Session δ
  | .unit (.registry asked) =>
      (asked.emptyAnswer.map fun answer => .unit (.registry answer), session)
  | .prepare index =>
      (.error .unknownType, { session with
        functions := Function.update session.functions index (session.functions index).begun })
  | .unit (.table asked) =>
      let (answer, table) := session.unit.table.step asked
      (answer.map fun answer => .unit (.table answer),
        { session with unit := { session.unit with table } })
  | .unit request => session.step (.unit request)

/-- Whether each request of a row finds nothing when its turn comes. -/
def FindsNothing (session : Session δ) (requests : List (Request δ)) : Prop :=
  ∀ earlier request, earlier ++ [request] <+: requests →
    request.FindsNothing (session.after earlier)

theorem registry_emptyReply {request : Request δ} (hrequest : request.FindsNothing session) :
    (session.emptyReply request).2.unit.registry = session.unit.registry := by
  cases request with
  | prepare index => rfl
  | unit request =>
      cases request with
      | configure newWriter => cases hrequest
      | table | registry | adopt | settings => rfl

theorem step_findsNothing (hactive : session.unit.registry.isActive = true)
    (hblank : session.unit.registry.IsBlank) {request : Request δ}
    (hrequest : request.FindsNothing session) :
    session.step request = session.emptyReply request := by
  cases request with
  | prepare index =>
      obtain ⟨writer, hwriter⟩ := Option.isSome_iff_exists.mp hactive
      have hclass := Registry.declareClass_of_unknown (hblank.no_class _) hrequest writer
      simp only [step, emptyReply, Prologue.answer_prepare_of_error hwriter hclass]
      rfl
  | unit request =>
      cases request with
      | registry asked =>
          simp only [step, emptyReply, CompilationUnit.step,
            hblank.step_findsNothing hactive hrequest]
          cases asked.emptyAnswer <;> rfl
      | table asked =>
          simp only [step, emptyReply, CompilationUnit.step]
          cases (session.unit.table.step asked).1 <;> rfl
      | configure | adopt | settings => rfl

/-- While all requests find nothing, the registry stays as it was at the start. -/
theorem registry_after_findsNothing (hactive : session.unit.registry.isActive = true)
    (hblank : session.unit.registry.IsBlank) {requests : List (Request δ)}
    (hfinds : session.FindsNothing requests) :
    (session.after requests).unit.registry = session.unit.registry := by
  induction requests using List.reverseRecOn with
  | nil => rfl
  | append_singleton earlier request ih =>
      have hbefore := ih fun first asked hstarts =>
        hfinds first asked (hstarts.trans (List.prefix_append _ _))
      have hrequest := hfinds earlier request (List.prefix_refl _)
      have hlast : session.after (earlier ++ [request]) =
          ((session.after earlier).step request).2 := History.after_append _ _ _ _
      rw [hlast, step_findsNothing (by rw [hbefore]; exact hactive)
        (by rw [hbefore]; exact hblank) hrequest, registry_emptyReply hrequest, hbefore]

/-- An active registry in which nothing was described stays so while everything that is
asked of it is unknown or void, however the type table grows meanwhile. Each request for an
unknown type fails, also a prologue, which leaves the fresh root of its function and the
position and the descriptors it had. Each other request is answered, and by nothing. -/
theorem unknown_ids_leave_no_trace (hactive : session.unit.registry.isActive = true)
    (hblank : session.unit.registry.IsBlank) {requests : List (Request δ)}
    (hfinds : session.FindsNothing requests) {earlier : List (Request δ)} {request : Request δ}
    (hstarts : earlier ++ [request] <+: requests) :
    (session.after earlier).step request = (session.after earlier).emptyReply request ∧
      ((session.after earlier).step request).2.unit.registry = session.unit.registry ∧
      ((session.after earlier).step request).2.unit.registry.IsBlank := by
  have hbefore := registry_after_findsNothing hactive hblank fun first asked hfirst =>
    hfinds first asked (hfirst.trans ((List.prefix_append _ _).trans hstarts))
  have hrequest := hfinds earlier request hstarts
  have hreply := step_findsNothing (by rw [hbefore]; exact hactive)
    (by rw [hbefore]; exact hblank) hrequest
  have hkept : ((session.after earlier).step request).2.unit.registry =
      session.unit.registry := by
    rw [hreply, registry_emptyReply hrequest, hbefore]
  exact ⟨hreply, hkept, hkept ▸ hblank⟩

theorem findsNothing_nil (session : Session δ) : session.FindsNothing [] :=
  fun _ _ hstarts => absurd (List.prefix_nil.mp hstarts) (by simp)

theorem findsNothing_cons {request : Request δ} {rest : List (Request δ)}
    (hactive : session.unit.registry.isActive = true)
    (hblank : session.unit.registry.IsBlank) (hfirst : request.FindsNothing session)
    (hrest : (session.emptyReply request).2.FindsNothing rest) :
    session.FindsNothing (request :: rest) := by
  intro earlier asked hstarts
  cases earlier with
  | nil =>
      obtain ⟨rfl, -⟩ := List.cons_prefix_cons.mp hstarts
      exact hfirst
  | cons first earlier =>
      obtain ⟨rfl, hlater⟩ := List.cons_prefix_cons.mp hstarts
      have hafter : session.after (first :: earlier) =
          (session.emptyReply first).2.after earlier := by
        rw [← step_findsNothing hactive hblank hfirst]
        rfl
      rw [hafter]
      exact hrest earlier asked hlater

/-- A registry that could describe everything. -/
def willing : Registry Nat := .initial (some
  { write := fun _ => .ok 0
    layout := fun _ _ _ => none
    headerInBits := fun _ _ => 0
    finish := .ok () })

/-- A function of a class with a given id, which was described before. -/
def strayFunction (declaring : TypeId) : FunctionState Nat where
  input := ⟨declaring, "Main", ⟨#[⟨0, some ⟨"", 3, 4⟩⟩], some ⟨0, 0, [], []⟩⟩, #[7], #[], []⟩
  tracker := ⟨#[], [], ⟨8, 2⟩⟩
  described _ := some 9
  file := none
  subprogram := some 5

/-- A session whose functions belong to classes that no seeded table knows. -/
def straySession : Session Nat where
  unit := ⟨.default, .seed, willing⟩
  functions index := strayFunction (if index = 0 then 15 else 16)

/-- Id 15 becomes known on the way. -/
def strayRequests : List (Request Nat) :=
  [.unit (.registry (.typeOf 15)), .prepare 0, .unit (.table (.addUnshaped .classType "A")),
    .unit (.registry (.describeVariable none 15 "x")), .unit (.registry .drain),
    .unit (.registry (.classOf 16))]

theorem strayRequests_leave_no_trace : ∃ last,
    straySession.FindsNothing (strayRequests ++ [.prepare 1]) ∧
      (straySession.after strayRequests).step (.prepare 1) = (.error .unknownType, last) ∧
      (last.functions 1).tracker.stack = [0] ∧ last.unit.registry = willing ∧
      last.unit.registry.IsBlank := by
  have hactive : straySession.unit.registry.isActive = true := rfl
  have hblank : straySession.unit.registry.IsBlank := Registry.isBlank_initial _
  have hsize : straySession.unit.table.size ≤ 15 := by decide
  have hgrown : ((straySession.unit.table.step (.addUnshaped .classType "A")).2).size ≤ 16 := by
    decide
  have hfinds : straySession.FindsNothing (strayRequests ++ [.prepare 1]) := by
    refine findsNothing_cons hactive hblank hsize ?_
    refine findsNothing_cons hactive hblank hsize ?_
    refine findsNothing_cons hactive hblank trivial ?_
    refine findsNothing_cons hactive hblank rfl ?_
    refine findsNothing_cons hactive hblank trivial ?_
    refine findsNothing_cons hactive hblank hgrown ?_
    exact findsNothing_cons hactive hblank hgrown (findsNothing_nil _)
  obtain ⟨hreply, hkept, hstill⟩ :=
    unknown_ids_leave_no_trace hactive hblank hfinds (List.prefix_refl _)
  exact ⟨_, hfinds, Prod.ext (by rw [hreply]; rfl) rfl, by rw [hreply]; rfl, hkept, hstill⟩

end Session

end DebugInfo
