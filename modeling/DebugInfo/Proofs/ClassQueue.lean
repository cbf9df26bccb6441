import DebugInfo.CompilationUnit
import DebugInfo.Proofs.Declarations
import Mathlib.Data.List.Nodup
import Mathlib.Data.List.Perm.Subperm

/-!
Draining the queue of classes. Giving a class its members can declare other classes, so the
queue grows while it is drained. But a class is queued only when it is declared, and it is
declared once: the classes that wait and the types without a class, taken together, get
fewer with each class that leaves the queue. So a drain that has a step for each of them
comes to its end, and further steps would change nothing.

A drain that succeeds leaves the queue empty. What is still pending then has no layout and
waits for the next drain, as long as everything that was pending had been waiting. A drain
that fails drops the class at which it failed: it stays pending but waits no more. A unit in
which this does not happen loses track of no class until it is sealed.
-/

namespace DebugInfo

namespace Registry

variable {δ α : Type}

/-! The steps of a drain -/

section Steps

variable {table : TypeTable} {writer : Writer δ} {registry next : Registry δ} {id : TypeId}
  {rest : List TypeId}

/-- The types of a table that have no class, by their positions. -/
def undeclared (table : TypeTable) (registry : Registry δ) : List Nat :=
  (List.range table.size).filter fun index => registry.classes[UInt32.ofNat index]?.isNone

/-- The classes in the queue and those that can still get there. -/
def work (table : TypeTable) (registry : Registry δ) : Nat :=
  registry.queue.length + (registry.undeclared table).length

theorem mem_undeclared_iff {index : Nat} :
    index ∈ registry.undeclared table ↔
      index < table.size ∧ registry.classes[UInt32.ofNat index]? = none := by
  simp [undeclared]

theorem length_undeclared_le (table : TypeTable) (registry : Registry δ) :
    (registry.undeclared table).length ≤ table.size :=
  Nat.le_trans (List.length_filter_le _ _) (Nat.le_of_eq List.length_range)

/-- What is queued was a type without a class before, so there is one less of these. -/
theorem Declares.work_le {declared : List TypeId}
    (hdeclares : Declares table declared registry next) :
    next.work table ≤ registry.work table := by
  have hnodup : (declared.map UInt32.toNat ++ next.undeclared table).Nodup := by
    refine List.nodup_append.mpr ⟨?_, List.nodup_range.filter _, ?_⟩
    · exact List.Nodup.map (fun _ _ => UInt32.toNat.inj) hdeclares.nodup
    · rintro _ hdeclared index hindex rfl
      obtain ⟨id, hid, rfl⟩ := List.mem_map.mp hdeclared
      have hmissing := (mem_undeclared_iff.mp hindex).2
      rw [UInt32.ofNat_toNat] at hmissing
      exact hdeclares.present id (.inl hid) hmissing
  have hsubset : declared.map UInt32.toNat ++ next.undeclared table ⊆
      registry.undeclared table := by
    intro index hindex
    rw [mem_undeclared_iff]
    rcases List.mem_append.mp hindex with hdeclared | hmissing
    · obtain ⟨id, hid, rfl⟩ := List.mem_map.mp hdeclared
      obtain ⟨hknown, hnew⟩ := hdeclares.fresh id hid
      rw [UInt32.ofNat_toNat]
      exact ⟨(table.knows_iff id).mp hknown, hnew⟩
    · obtain ⟨hlt, hmissing⟩ := mem_undeclared_iff.mp hmissing
      exact ⟨hlt, by_contra fun hbefore => hdeclares.present _ (.inr hbefore) hmissing⟩
  have hlength := (hnodup.subperm hsubset).length_le
  rw [List.length_append, List.length_map] at hlength
  rw [work, work, hdeclares.queue, List.length_append]
  omega

theorem work_complete_le (writer : Writer δ) (table : TypeTable) (id : TypeId)
    (registry : Registry δ) :
    ((complete writer table id).answer registry).2.work table ≤ registry.work table := by
  rcases complete_cases writer table id registry with
    ⟨record, -, -, haside⟩ | ⟨⟨declared, hdeclares⟩, -⟩
  · rw [haside]
    exact Nat.le_refl _
  · exact hdeclares.work_le

theorem work_of_cons (hqueue : registry.queue = id :: rest) :
    registry.work table = { registry with queue := rest }.work table + 1 := by
  simp only [work, undeclared, hqueue, List.length_cons]
  omega

theorem answer_completeQueued_of_empty (hqueue : registry.queue = []) (writer : Writer δ)
    (table : TypeTable) (steps : Nat) :
    (completeQueued writer table steps).answer registry = (.ok (), registry) := by
  cases steps with
  | zero => rfl
  | succ steps =>
      rw [completeQueued, Action.answer_get_bind, hqueue]
      rfl

/-- The first class leaves the queue, and if it can be completed the next ones follow. -/
theorem answer_completeQueued_of_cons (hqueue : registry.queue = id :: rest)
    (writer : Writer δ) (table : TypeTable) (steps : Nat) :
    (completeQueued writer table (steps + 1)).answer registry =
      (complete writer table id >>= fun _ => completeQueued writer table steps).answer
        { registry with queue := rest } := by
  rw [completeQueued, Action.answer_get_bind, hqueue]
  rfl

/-- A step for each class that is or can get into the queue is enough to empty it, and further
steps change nothing. -/
theorem completeQueued_settles {steps : Nat} (hsteps : registry.work table ≤ steps) :
    (∀ more, (completeQueued writer table (steps + more)).answer registry =
      (completeQueued writer table steps).answer registry) ∧
    ∀ next, (completeQueued writer table steps).answer registry = (.ok (), next) →
      next.queue = [] := by
  induction steps generalizing registry with
  | zero =>
      have hqueue : registry.queue = [] := by
        rw [← List.length_eq_zero_iff]
        rw [work] at hsteps
        omega
      simp only [answer_completeQueued_of_empty hqueue]
      exact ⟨fun _ => trivial, fun next hnext => (Prod.mk.inj hnext).2 ▸ hqueue⟩
  | succ steps ih =>
      cases hqueue : registry.queue with
      | nil =>
          simp only [answer_completeQueued_of_empty hqueue]
          exact ⟨fun _ => trivial, fun next hnext => (Prod.mk.inj hnext).2 ▸ hqueue⟩
      | cons id rest =>
          have hleft := work_complete_le writer table id { registry with queue := rest }
          rw [work_of_cons hqueue] at hsteps
          simp only [Nat.add_right_comm steps 1, answer_completeQueued_of_cons hqueue,
            Action.answer_bind]
          cases hcomplete : (complete writer table id).answer { registry with queue := rest } with
          | mk result left =>
              rw [hcomplete] at hleft
              cases result with
              | error failure =>
                  exact ⟨fun _ => rfl, fun _ hnext => nomatch congrArg Prod.fst hnext⟩
              | ok value => exact ih (Nat.le_trans hleft (Nat.le_of_succ_le_succ hsteps))

end Steps

/-! Who still waits after a drain -/

/-- Every pending class waits, in the queue or set aside. -/
def Waits (registry : Registry δ) : Prop :=
  ∀ id, registry.IsPending id → id ∈ registry.queue ∨ id ∈ registry.deferred

/-- What was set aside has no layout in the table. -/
def SetAside (table : TypeTable) (registry : Registry δ) : Prop :=
  ∀ id ∈ registry.deferred, ∃ record, table.record id = .ok record ∧ record.fields = none

section Waiting

variable {table : TypeTable} {writer : Writer δ} {registry next : Registry δ} {id : TypeId}
  {rest : List TypeId}

theorem SetAside.complete (haside : registry.SetAside table) (writer : Writer δ) (id : TypeId) :
    ((complete writer table id).answer registry).2.SetAside table := by
  rcases complete_cases writer table id registry with
    ⟨record, hrecord, hfields, hanswer⟩ | ⟨⟨declared, hdeclares⟩, -⟩
  · rw [hanswer]
    intro other hother
    rcases List.mem_append.mp hother with hearlier | hnow
    · exact haside other hearlier
    · obtain rfl := List.mem_singleton.mp hnow
      exact ⟨record, hrecord, hfields⟩
  · rw [SetAside, hdeclares.deferred]
    exact haside

/-- A class that leaves the queue is set aside, or it is pending no more. -/
theorem Waits.complete (hwaits : registry.Waits) (hqueue : registry.queue = id :: rest)
    (hcomplete : (complete writer table id).answer { registry with queue := rest } =
      (.ok (), next)) : next.Waits := by
  rcases complete_cases writer table id { registry with queue := rest } with
    ⟨record, -, -, hanswer⟩ | ⟨⟨declared, hdeclares⟩, hdone⟩
  · obtain ⟨-, rfl⟩ := Prod.mk.inj (hanswer.symm.trans hcomplete)
    intro other hother
    have hwaiting := hwaits other hother
    rw [hqueue, List.mem_cons] at hwaiting
    rw [List.mem_append, List.mem_singleton]
    tauto
  · rw [hcomplete] at hdeclares
    intro other hother
    rw [hdeclares.queue, hdeclares.deferred, List.mem_append]
    rcases hdeclares.pending other hother with hbefore | hdeclared
    · have hne : other ≠ id := by
        rintro rfl
        exact hdone next hcomplete hother
      have hwaiting := hwaits other hbefore
      rw [hqueue, List.mem_cons] at hwaiting
      tauto
    · exact .inl (.inr hdeclared)

theorem completeQueued_waits {steps : Nat} (haside : registry.SetAside table) :
    ((completeQueued writer table steps).answer registry).2.SetAside table ∧
      ∀ next, registry.Waits →
        (completeQueued writer table steps).answer registry = (.ok (), next) → next.Waits := by
  induction steps generalizing registry with
  | zero => exact ⟨haside, fun next hwaits hnext => (Prod.mk.inj hnext).2 ▸ hwaits⟩
  | succ steps ih =>
      cases hqueue : registry.queue with
      | nil =>
          rw [answer_completeQueued_of_empty hqueue]
          exact ⟨haside, fun next hwaits hnext => (Prod.mk.inj hnext).2 ▸ hwaits⟩
      | cons id rest =>
          have hpopped : SetAside table { registry with queue := rest } := haside
          have hleft := hpopped.complete writer id
          rw [answer_completeQueued_of_cons hqueue, Action.answer_bind]
          cases hcomplete : (complete writer table id).answer { registry with queue := rest } with
          | mk result left =>
              rw [hcomplete] at hleft
              cases result with
              | error failure => exact ⟨hleft, fun _ _ hnext => nomatch congrArg Prod.fst hnext⟩
              | ok value =>
                  obtain ⟨hlast, hthen⟩ := ih hleft
                  exact ⟨hlast, fun next hwaits => hthen next (hwaits.complete hqueue hcomplete)⟩

/-- A drain has as many steps as it needs: with any greater number it would do the same, also
where it fails. If it succeeds the queue is empty, and where every pending class was waiting,
those that are still pending have been set aside for want of a layout. -/
theorem drain_settles (hwriter : registry.activeWriter? = some writer) :
    (∀ steps, registry.queue.length + registry.deferred.length + table.size ≤ steps →
      (drain table).answer registry = (completeQueued writer table steps).answer
        { registry with queue := registry.queue ++ registry.deferred, deferred := [] }) ∧
    ∀ next, (drain table).answer registry = (.ok (), next) →
      next.queue = [] ∧ next.SetAside table ∧
        (registry.Waits → ∀ id, next.IsPending id → id ∈ next.deferred) := by
  generalize hstart : { registry with
    queue := registry.queue ++ registry.deferred, deferred := [] } = start
  have hdrain : (drain table).answer registry =
      (completeQueued writer table (start.queue.length + table.size)).answer start := by
    rw [drain, Action.answer_get_bind, hwriter, ← hstart]
    rfl
  have henough : start.work table ≤ start.queue.length + table.size :=
    Nat.add_le_add_left (length_undeclared_le table start) _
  obtain ⟨hmore, hempty⟩ := completeQueued_settles henough
  have hnone : start.SetAside table := by
    rw [← hstart]
    exact List.forall_mem_nil _
  obtain ⟨haside, hwaiting⟩ := completeQueued_waits hnone
  refine ⟨fun steps hsteps => ?_, fun next hnext => ?_⟩
  · obtain ⟨more, rfl⟩ : ∃ more, steps = start.queue.length + table.size + more := by
      refine Nat.exists_eq_add_of_le ?_
      rw [← hstart, List.length_append]
      exact hsteps
    rw [hdrain, hmore]
  · rw [hdrain] at hnext
    have hqueue := hempty next hnext
    rw [hnext] at haside
    refine ⟨hqueue, haside, fun hwaits id hpending => ?_⟩
    have hready : start.Waits := by
      rw [← hstart]
      exact fun other hother => .inl (List.mem_append.mpr (hwaits other hother))
    have hstill := hwaiting next hready hnext id hpending
    rw [hqueue] at hstill
    exact hstill.resolve_left List.not_mem_nil

end Waiting

/-- A writer that accepts every description. -/
def accepting : Writer Unit where
  write _ := .ok ()
  layout _ _ _ := none
  headerInBits _ _ := 0
  finish := .ok ()

/-- A class with a field of another class, whose own fields are not known yet. -/
def linkedClasses : TypeTable :=
  .after .seed [.addAggregate { name := "Node" }, .addAggregate { name := "Leaf" },
    .publish 15 [{ name := "leaf", type := 16 }]]

/-- The second class is declared by the drain that completes the first, and set aside. -/
example :
    let declared := ((declareClass accepting linkedClasses 15).answer
      (.initial (some accepting))).2
    let drained := ((drain linkedClasses).answer declared).2
    (declared.queue, declared.deferred, declared.classes[(16 : TypeId)]?) = ([15], [], none) ∧
      (drained.queue, drained.deferred) = ([], [16]) ∧
      drained.classes[(15 : TypeId)]?.map ClassEntry.state = some .complete := by
  cbv

/-! Histories -/

section Requests

variable {table : TypeTable} {registry next : Registry δ}

theorem OnlyDeclares.waits {action : Action (Registry δ) α} {reply : Except Failure α}
    (hdeclares : OnlyDeclares table action registry) (hwaits : registry.Waits)
    (hanswer : action.answer registry = (reply, next)) : next.Waits := by
  obtain ⟨declared, hdeclares⟩ := hdeclares
  rw [hanswer] at hdeclares
  intro id hpending
  rw [hdeclares.queue, hdeclares.deferred, List.mem_append]
  rcases hdeclares.pending id hpending with hbefore | hdeclared
  · exact (hwaits id hbefore).imp_left .inl
  · exact .inl (.inr hdeclared)

theorem Waits.drain (hwaits : registry.Waits)
    (hdrain : (drain table).answer registry = (.ok (), next)) : next.Waits := by
  cases hwriter : registry.activeWriter? with
  | none =>
      rw [Registry.drain, Action.answer_get_bind, hwriter] at hdrain
      exact (Prod.mk.inj hdrain).2 ▸ hwaits
  | some writer =>
      intro id hpending
      exact .inr (((drain_settles hwriter).2 next hdrain).2.2 hwaits id hpending)

theorem Waits.describeVariable (hwaits : registry.Waits) {scope : Option δ} {type : TypeId}
    {note : VariableNote δ} {descriptor : Option δ}
    (hdescribe : (describeVariable table scope type note).answer registry =
      (.ok descriptor, next)) : next.Waits := by
  rw [Registry.describeVariable, Action.answer_get_bind] at hdescribe
  split at hdescribe
  case h_1 _ _ writer scope _ =>
    obtain ⟨_, middle, hbefore, hdescribe⟩ := Action.exists_of_bind_ok hdescribe
    obtain ⟨_, drained, hdrain, hdescribe⟩ := Action.exists_of_bind_ok hdescribe
    have hready := (onlyDeclares_describeType type registry).waits hwaits hbefore
    have hagain : OnlyDeclares table (describeType writer table type) drained :=
      onlyDeclares_describeType type drained
    exact (hagain.bind fun _ _ _ => (onlyDeclares_of_keeps (Action.keeps_ofExcept _ _)).map).waits
      (hready.drain hdrain) hdescribe
  case h_2 => exact (Prod.mk.inj hdescribe).2 ▸ hwaits

/-- A request that loses track of no class: it does not seal the classes, and it does not fail
at one that it has taken from the queue. -/
def Request.LosesNone (table : TypeTable) (registry : Registry δ) : Request δ → Prop
  | .drain => (step table registry .drain).1.isOk = true
  | .describeVariable scope type name =>
      (step table registry (.describeVariable scope type name)).1.isOk = true
  | .sealClasses | .finish => False
  | _ => True

theorem Waits.step (hwaits : registry.Waits) {request : Request δ}
    (hrequest : request.LosesNone table registry) :
    (Registry.step table registry request).2.Waits := by
  cases request with
  | typeOf id => exact (onlyDeclares_typeOf id registry).map.waits hwaits rfl
  | classOf id => exact (onlyDeclares_classOf id registry).map.waits hwaits rfl
  | namespaceOf path =>
      have hkeeps : OnlyDeclares table (namespaceOf path) registry :=
        onlyDeclares_of_keeps (keeps_namespaceOf path)
      exact hkeeps.map.waits hwaits rfl
  | lookupNamespace | classEntry | isQueued => exact hwaits
  | sealClasses | finish => cases hrequest
  | drain =>
      have hstep : Registry.step table registry .drain = _ :=
        Action.answer_bind_pure (Registry.drain table) (fun _ => Answer.done) registry
      rw [Request.LosesNone, hstep, Action.isOk_map] at hrequest
      obtain ⟨_, hdrain⟩ := Action.exists_of_isOk hrequest
      rw [hstep]
      exact hwaits.drain hdrain
  | describeVariable scope type name =>
      have hstep : Registry.step table registry (.describeVariable scope type name) = _ :=
        Action.answer_map Answer.descriptor
          (Registry.describeVariable table scope type { name }) registry
      rw [Request.LosesNone, hstep, Action.isOk_map] at hrequest
      obtain ⟨_, hdescribe⟩ := Action.exists_of_isOk hrequest
      rw [hstep]
      exact hwaits.describeVariable hdescribe

end Requests

theorem waits_initial (writer : Option (Writer δ)) : (initial writer).Waits := by
  rintro id ⟨slot, hslot⟩
  simp [initial] at hslot

end Registry

namespace CompilationUnit

variable {δ : Type} {unit : CompilationUnit δ}

def Request.LosesNone (unit : CompilationUnit δ) : Request δ → Prop
  | .registry request => request.LosesNone unit.table unit.registry
  | _ => True

/-- No request of a history loses track of a class. -/
def LosesNone (unit : CompilationUnit δ) : List (Request δ) → Prop
  | [] => True
  | request :: rest => request.LosesNone unit ∧ (unit.step request).2.LosesNone rest

theorem waits_step (hwaits : unit.registry.Waits) {request : Request δ}
    (hrequest : request.LosesNone unit) : (unit.step request).2.registry.Waits := by
  cases request with
  | table | adopt | settings => exact hwaits
  | registry request => exact hwaits.step hrequest
  | configure newWriter =>
      have hkept : Registry.OnlyDeclares unit.table
          (Registry.configure unit.settings newWriter) unit.registry :=
        Registry.onlyDeclares_of_keeps (Registry.keeps_configure _ _)
      exact hkept.waits hwaits rfl

theorem waits_after (hwaits : unit.registry.Waits) {requests : List (Request δ)}
    (hnone : unit.LosesNone requests) : (unit.after requests).registry.Waits := by
  induction requests generalizing unit with
  | nil => exact hwaits
  | cons request rest ih =>
      obtain ⟨hrequest, hrest⟩ := hnone
      exact ih (waits_step hwaits hrequest) hrest

/-- In a unit that has lost track of no class, a drain that succeeds leaves no class pending
whose layout is known. -/
theorem pending_after_drain {settings : Settings} {writer : Option (Writer δ)}
    {requests : List (Request δ)} (hnone : (initial settings writer).LosesNone requests)
    (hunit : (initial settings writer).after requests = unit)
    (hactive : unit.registry.isActive = true) {next : Registry δ}
    (hdrain : (Registry.drain unit.table).answer unit.registry = (.ok (), next)) :
    next.queue = [] ∧ ∀ id, next.IsPending id →
      id ∈ next.deferred ∧ ∃ record, unit.table.record id = .ok record ∧ record.fields = none := by
  subst hunit
  obtain ⟨active, hwriter⟩ := Option.isSome_iff_exists.mp hactive
  obtain ⟨hqueue, haside, hpending⟩ := (Registry.drain_settles hwriter).2 next hdrain
  have hwaits := waits_after (Registry.waits_initial writer) hnone
  exact ⟨hqueue, fun id hid => ⟨hpending hwaits id hid, haside id (hpending hwaits id hid)⟩⟩

end CompilationUnit

end DebugInfo
