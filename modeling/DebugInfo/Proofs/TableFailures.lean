import DebugInfo.Proofs.Interning

/-!
When a request to a type table fails, and what remains of it. `Refuses` lists the faults
that a request can have and the failure that each leads to. Where a request has several,
only the first counts: the type that it looks up at the start, then its own kind or that
of the type it found, then the other types that it names. A request without a fault is
answered.

A request that failed leaves the table and what is interned as they were, so a history
is answered the same without those of its requests that fail.
-/

namespace DebugInfo.TypeTable

/-- The type that a request looks up before anything else is checked. -/
def Request.subject? : Request → Option TypeId
  | .indirect _ target => some target
  | .addEnum decl => some decl.underlying
  | .publish id _ | .record id | .fullName id => some id
  | .primitive _ | .addAggregate _ | .addUnshaped .. | .nativeInt | .recordsFrom _ => none

/-- What is wrong with a request, and the failure that it is answered with. -/
inductive Refuses (table : TypeTable) : Request → Failure → Prop where
  | unknownSubject {request : Request} {id : TypeId} (hsubject : request.subject? = some id)
      (hid : table.size ≤ id.toNat) : Refuses table request .unknownType
  | notPrimitive {kind : Kind} (hkind : kind.isPrimitive = false) (hvoid : kind ≠ .void) :
      Refuses table (.primitive kind) .notPrimitive
  | underlyingNotPrimitive {decl : EnumDecl} {underlying : TypeRecord}
      (hunderlying : table.record decl.underlying = .ok underlying)
      (hkind : underlying.kind.isPrimitive = false) :
      Refuses table (.addEnum decl) (.underlyingNotPrimitive decl.name)
  | notAggregate {decl : AggregateDecl} (hkind : decl.kind.isAggregate = false) :
      Refuses table (.addAggregate decl) (.notAggregate decl.name)
  | unknownBase {decl : AggregateDecl} {base : TypeId} (hkind : decl.kind.isAggregate = true)
      (hbase : decl.base = some base) (hid : table.size ≤ base.toNat) :
      Refuses table (.addAggregate decl) .unknownType
  | fieldsNotAllowed {id : TypeId} {fields : List Field} {record : TypeRecord}
      (hrecord : table.record id = .ok record) (hkind : record.kind.isAggregate = false) :
      Refuses table (.publish id fields) (.fieldsNotAllowed record.name)
  | unknownField {id : TypeId} {fields : List Field} {record : TypeRecord} {field : Field}
      (hrecord : table.record id = .ok record) (hkind : record.kind.isAggregate = true)
      (hfield : field ∈ fields) (hid : table.size ≤ field.type.toNat) :
      Refuses table (.publish id fields) .unknownType

/-- What is interned for an address has a target that is known, and the integer as wide
as an address is interned. -/
structure Answerable (table : TypeTable) : Prop where
  target : ∀ via target id, table.interned[Shape.indirect via target]? = some id →
    table.knows target = true
  native : ∃ id, table.interned[Shape.primitive .intPtr]? = some id

theorem eq_error_of_map {α β : Type} {change : α → β} {result : Except Failure α}
    {failure : Failure} (hmap : result.map change = .error failure) :
    result = .error failure := by
  cases result with
  | error other => cases hmap; rfl
  | ok value => cases hmap

theorem record_of_le {table : TypeTable} {id : TypeId} (hid : table.size ≤ id.toNat) :
    table.record id = .error .unknownType :=
  (record_eq_error_iff table id .unknownType).mpr ⟨rfl, hid⟩

theorem knows_eq_false_iff (table : TypeTable) (id : TypeId) :
    table.knows id = false ↔ table.size ≤ id.toNat := by
  simp [knows]

section Requests

variable {table : TypeTable} {request : Request} {failure : Failure}

/-- A request with a fault fails with it and changes nothing. -/
theorem Answerable.step_of_refuses (hanswerable : table.Answerable)
    (hrefuses : table.Refuses request failure) :
    table.step request = (.error failure, table) := by
  cases hrefuses with
  | @unknownSubject _ id hsubject hid =>
      have hrecord := record_of_le hid
      cases request with
      | indirect via target =>
          cases hsubject
          cases hinterned : table.interned[Shape.indirect via id]? with
          | some found =>
              have hknown := (knows_iff _ _).mp (hanswerable.target via id found hinterned)
              omega
          | none => simp only [step, indirect, hinterned, hrecord, Except.map, answerId]
      | addEnum decl =>
          cases hsubject
          simp only [step, addEnum, hrecord, bind, Except.bind, answerId]
      | publish target fields =>
          cases hsubject
          simp only [step, publish, hrecord, bind, Except.bind]
      | record target =>
          cases hsubject
          simp only [step, hrecord, Except.map]
      | fullName target =>
          cases hsubject
          simp only [step, fullName, hrecord, Except.map]
      | primitive | addAggregate | addUnshaped | nativeInt | recordsFrom => cases hsubject
  | notPrimitive hkind hvoid =>
      have hneither : ¬ (_ ∨ _) := not_or.mpr ⟨Bool.eq_false_iff.mp hkind, hvoid⟩
      simp only [step, primitive, if_neg hneither, answerId]
  | underlyingNotPrimitive hunderlying hkind =>
      simp only [step, addEnum, hunderlying, bind, Except.bind, hkind]
      rfl
  | notAggregate hkind =>
      simp only [step, addAggregate, hkind]
      rfl
  | unknownBase hkind hbase hid =>
      have hunknown := (knows_eq_false_iff _ _).mpr hid
      simp only [step, addAggregate, hkind, hbase, Option.all_some, hunknown]
      rfl
  | fieldsNotAllowed hrecord hkind =>
      simp only [step, publish, hrecord, bind, Except.bind, hkind]
      rfl
  | @unknownField _ fields _ field hrecord hkind hfield hid =>
      have hunknown : fields.all (fun field => table.knows field.type) = false := by
        rw [List.all_eq_false]
        exact ⟨field, hfield, Bool.eq_false_iff.mp ((knows_eq_false_iff _ _).mpr hid)⟩
      simp only [step, publish, hrecord, bind, Except.bind, hkind, hunknown]
      rfl

theorem refuses_of_record {id : TypeId} (hsubject : request.subject? = some id)
    (hrecord : table.record id = .error failure) : table.Refuses request failure := by
  obtain ⟨rfl, hid⟩ := (record_eq_error_iff _ _ _).mp hrecord
  exact .unknownSubject hsubject hid

theorem refuses_of_primitive {kind : Kind}
    (hfails : (table.step (.primitive kind)).1 = .error failure) :
    table.Refuses (.primitive kind) failure := by
  simp only [step, primitive] at hfails
  split at hfails
  · split at hfails <;> cases hfails
  · rename_i hneither
    obtain ⟨hkind, hvoid⟩ := not_or.mp hneither
    cases hfails
    exact .notPrimitive (Bool.eq_false_iff.mpr hkind) hvoid

theorem refuses_of_indirect {via : Indirection} {target : TypeId}
    (hfails : (table.step (.indirect via target)).1 = .error failure) :
    table.Refuses (.indirect via target) failure := by
  simp only [step, indirect] at hfails
  split at hfails
  · cases hfails
  · cases hrecord : table.record target with
    | error other =>
        rw [hrecord] at hfails
        cases hfails
        exact refuses_of_record rfl hrecord
    | ok record =>
        rw [hrecord] at hfails
        cases hfails

theorem refuses_of_addEnum {decl : EnumDecl}
    (hfails : (table.step (.addEnum decl)).1 = .error failure) :
    table.Refuses (.addEnum decl) failure := by
  simp only [step, addEnum] at hfails
  cases hunderlying : table.record decl.underlying with
  | error other =>
      rw [hunderlying] at hfails
      cases hfails
      exact refuses_of_record rfl hunderlying
  | ok underlying =>
      simp only [hunderlying, bind, Except.bind] at hfails
      split at hfails
      · cases hfails
      · rename_i hkind
        cases hfails
        exact .underlyingNotPrimitive hunderlying (Bool.eq_false_iff.mpr hkind)

theorem refuses_of_addAggregate {decl : AggregateDecl}
    (hfails : (table.step (.addAggregate decl)).1 = .error failure) :
    table.Refuses (.addAggregate decl) failure := by
  simp only [step, addAggregate] at hfails
  cases hkind : decl.kind.isAggregate with
  | false =>
      rw [hkind] at hfails
      cases hfails
      exact .notAggregate hkind
  | true =>
      cases hbase : decl.base with
      | none =>
          rw [hkind, hbase] at hfails
          cases hfails
      | some base =>
          rw [hkind, hbase] at hfails
          cases hknown : table.knows base with
          | false =>
              simp only [Option.all_some, hknown] at hfails
              cases hfails
              exact .unknownBase hkind hbase ((knows_eq_false_iff _ _).mp hknown)
          | true =>
              simp only [Option.all_some, hknown] at hfails
              cases hfails

theorem refuses_of_publish {id : TypeId} {fields : List Field}
    (hfails : (table.step (.publish id fields)).1 = .error failure) :
    table.Refuses (.publish id fields) failure := by
  simp only [step, publish] at hfails
  cases hrecord : table.record id with
  | error other =>
      rw [hrecord] at hfails
      cases hfails
      exact refuses_of_record rfl hrecord
  | ok record =>
      simp only [hrecord, bind, Except.bind] at hfails
      cases hkind : record.kind.isAggregate with
      | false =>
          rw [hkind] at hfails
          cases hfails
          exact .fieldsNotAllowed hrecord hkind
      | true =>
          cases hknown : fields.all fun field => table.knows field.type with
          | false =>
              simp only [hkind, hknown] at hfails
              cases hfails
              obtain ⟨field, hfield, hunknown⟩ := List.all_eq_false.mp hknown
              rw [Bool.not_eq_true, knows_eq_false_iff] at hunknown
              exact .unknownField hrecord hkind hfield hunknown
          | true =>
              simp only [hkind, hknown] at hfails
              cases hfails

/-- A request only fails with a fault that it has. -/
theorem Answerable.refuses_of_step (hanswerable : table.Answerable)
    (hfails : (table.step request).1 = .error failure) : table.Refuses request failure := by
  cases request with
  | primitive kind => exact refuses_of_primitive hfails
  | indirect via target => exact refuses_of_indirect hfails
  | addEnum decl => exact refuses_of_addEnum hfails
  | addAggregate decl => exact refuses_of_addAggregate hfails
  | publish id fields => exact refuses_of_publish hfails
  | record id => exact refuses_of_record rfl (eq_error_of_map hfails)
  | fullName id => exact refuses_of_record rfl (eq_error_of_map (eq_error_of_map hfails))
  | nativeInt =>
      obtain ⟨id, hid⟩ := hanswerable.native
      simp only [step, nativeInt, hid] at hfails
      cases hfails
  | addUnshaped | recordsFrom => cases hfails

theorem Effect.answerable {next : TypeTable} {reply : Except Failure Answer}
    (heffect : Effect table request reply next) (hanswerable : table.Answerable) :
    next.Answerable where
  target := by
    intro via target id hid
    rcases heffect.interned_cases hid with hold | ⟨hshape, -, record, henters, -, -⟩
    · exact heffect.knows (hanswerable.target via target id hold)
    · apply heffect.knows
      cases henters with
      | indirect htarget =>
          cases hshape
          exact knows_of_record htarget
      | primitive | enumeration | aggregate | unshaped => cases hshape
  native := by
    obtain ⟨id, hid⟩ := hanswerable.native
    exact ⟨id, heffect.interned_keeps hid⟩

/-- A request that fails changes nothing. -/
theorem step_of_failed (hfails : (table.step request).1 = .error failure) :
    (table.step request).2 = table := by
  have heffect := table.effect_step request
  rw [hfails] at heffect
  generalize (table.step request).2 = next at heffect ⊢
  cases heffect
  rfl

theorem step_of_not_isOk (hfails : (table.step request).1.isOk = false) :
    (table.step request).2 = table := by
  cases hreply : (table.step request).1 with
  | error failure => exact step_of_failed hreply
  | ok answer =>
      rw [hreply] at hfails
      cases hfails

end Requests

/-! Whole histories -/

theorem answerable_seed : seed.Answerable where
  target := by
    intro via target id hid
    rw [interned_indirect_seed] at hid
    cases hid
  native := ⟨_, accounted_seed.interned_of_mem (@mem_seeded 13 .intPtr rfl) rfl⟩

theorem answerable_after (requests : List Request) : (after seed requests).Answerable :=
  History.after_induction (fun table request => (table.effect_step request).answerable)
    answerable_seed requests

/-- The requests of a run that do not fail. -/
def answered (table : TypeTable) : List Request → List Request
  | [] => []
  | request :: rest =>
      if (table.step request).1.isOk then request :: answered (table.step request).2 rest
      else answered (table.step request).2 rest

theorem run_answered (table : TypeTable) (requests : List Request) :
    run table (answered table requests) =
      (run table requests).filter fun reply => reply.1.isOk := by
  induction requests generalizing table with
  | nil => rfl
  | cons request rest ih =>
      have hrun (others : List Request) : run table (request :: others) =
          table.step request :: run (table.step request).2 others := rfl
      rw [answered, hrun, List.filter_cons]
      cases hok : (table.step request).1.isOk with
      | true =>
          simp only [if_true]
          rw [hrun, ih]
      | false =>
          simp only [Bool.false_eq_true, if_false]
          rw [← ih, step_of_not_isOk hok]

/-- The failures of a type table are exact and leave no trace. In every table that
requests can lead to, a request fails exactly if it has a fault, and with the first one.
The table and what is interned are then as before. So deleting the requests that fail
from a run changes neither what the others are answered nor the tables in between. -/
theorem failures_exact_and_traceless (earlier : List Request) :
    (∀ request failure, ((after seed earlier).step request).1 = .error failure ↔
      (after seed earlier).Refuses request failure) ∧
    (∀ request failure, ((after seed earlier).step request).1 = .error failure →
      ((after seed earlier).step request).2 = after seed earlier) ∧
    ∀ requests, run (after seed earlier) (answered (after seed earlier) requests) =
      (run (after seed earlier) requests).filter fun reply => reply.1.isOk := by
  have hanswerable := answerable_after earlier
  refine ⟨fun request failure => ?_, fun _ _ => step_of_failed, run_answered _⟩
  constructor
  · exact hanswerable.refuses_of_step
  · intro hrefuses
    rw [hanswerable.step_of_refuses hrefuses]

/-- Faults of each kind, some requests with several, and four requests without any. -/
def faulty : List Request :=
  [.primitive .string, .addAggregate { name := "Node" },
    .addEnum { name := "Color", underlying := 0 }, .addEnum { underlying := 99 },
    .addAggregate { kind := .pointer, base := some 99 }, .addAggregate { base := some 99 },
    .publish 99 [{ type := 99 }], .publish 7 [{ type := 99 }],
    .publish 15 [{ type := 15 }, { type := 16 }], .record 99,
    .addEnum { name := "Color", underlying := 4 }, .publish 15 [{ type := 16 }],
    .fullName 17, .addUnshaped .typeParameter "T"]

theorem faulty_leaves_no_trace :
    (seed.step (.indirect .pointer 99)).1 = .error .unknownType ∧
      (seed.step (.indirect .pointer 99)).2 = seed ∧
      (run seed (answered seed faulty)).map Prod.fst =
        [.ok (.id 15), .ok (.id 16), .ok .published, .ok (.id 17)] := by
  obtain ⟨hexact, hkeeps, hrun⟩ := failures_exact_and_traceless []
  have hfails : (seed.step (.indirect .pointer 99)).1 = .error .unknownType :=
    (hexact _ _).mpr (.unknownSubject rfl (by decide))
  refine ⟨hfails, hkeeps _ _ hfails, ?_⟩
  have hanswers := congrArg (List.map Prod.fst) (hrun faulty)
  exact hanswers.trans rfl

end DebugInfo.TypeTable
