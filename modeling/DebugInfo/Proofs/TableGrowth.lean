import DebugInfo.TypeTable.Lemmas
import DebugInfo.TypeTable.Request

/-!
All that a request can do to a type table. It fails or reads and leaves the
table alone, it finds an id that was interned before, it enters one record at
the end, or it publishes a field layout in a record that is there. `Effect` says
so with what each case rests on, and what holds of every history of a table is
derived from it. Nothing is asked of the requests or of their order.
-/

namespace DebugInfo.TypeTable

/-- The interned type that a request asks for. -/
def Request.shape? : Request → Option Shape
  | .primitive kind => some (.primitive kind)
  | .indirect via target => some (.indirect via target)
  | .nativeInt => some (.primitive .intPtr)
  | _ => none

def Answer.id? : Answer → Option TypeId
  | .id answered => some answered
  | _ => none

/-- The record that a request enters if the type it asks for is not there yet,
with what is checked before. -/
inductive Enters (table : TypeTable) : Request → TypeRecord → Prop where
  | primitive {kind : Kind} (hkind : kind.isPrimitive = true ∨ kind = .void) :
      Enters table (.primitive kind) (.ofPrimitive kind)
  | indirect {via : Indirection} {target : TypeId} {record : TypeRecord}
      (htarget : table.record target = .ok record) :
      Enters table (.indirect via target) (.ofIndirection via target record)
  | enumeration {decl : EnumDecl} {underlying : TypeRecord}
      (hunderlying : table.record decl.underlying = .ok underlying)
      (hprimitive : underlying.kind.isPrimitive = true) :
      Enters table (.addEnum decl) (.ofEnum decl)
  | aggregate {decl : AggregateDecl} (hkind : decl.kind.isAggregate = true)
      (hbase : ∀ base, decl.base = some base → table.knows base = true) :
      Enters table (.addAggregate decl) (.ofAggregate decl)
  | unshaped (kind : Kind) (name : String) :
      Enters table (.addUnshaped kind name) { kind, name }

/-- The table with a field layout published in a record. -/
def withFields (table : TypeTable) (id : TypeId) (record : TypeRecord)
    (fields : List Field) : TypeTable :=
  { table with
    records := table.records.setIfInBounds id.toNat
      { record with fields := some (renumber fields) } }

theorem publish_eq (table : TypeTable) (id : TypeId) (fields : List Field) :
    table.publish id fields = (table.record id).bind fun record =>
      if !record.kind.isAggregate then .error (.fieldsNotAllowed record.name)
      else if !fields.all (fun field => table.knows field.type) then .error .unknownType
      else .ok (table.withFields id record fields) := rfl

theorem publish_eq_ok_iff {table next : TypeTable} {id : TypeId} {fields : List Field} :
    table.publish id fields = .ok next ↔
      ∃ record, table.record id = .ok record ∧ record.kind.isAggregate = true ∧
        (∀ field ∈ fields, table.knows field.type = true) ∧
        next = table.withFields id record fields := by
  rw [publish_eq]
  cases table.record id with
  | error failure => simp [Except.bind]
  | ok record =>
      simp only [Except.bind, Except.ok.injEq, exists_eq_left', ← List.all_eq_true]
      cases hkind : record.kind.isAggregate <;>
        cases hknown : fields.all fun field => table.knows field.type <;>
        simp [eq_comm]

/-- What a request is answered and the table that it leaves. -/
inductive Effect (table : TypeTable) : Request → Except Failure Answer → TypeTable → Prop where
  | failed {request : Request} (failure : Failure) :
      Effect table request (.error failure) table
  | read {request : Request} {answer : Answer} (hanswer : answer.id? = none) :
      Effect table request (.ok answer) table
  | found {request : Request} {shape : Shape} {id : TypeId}
      (hshape : request.shape? = some shape) (hid : table.interned[shape]? = some id) :
      Effect table request (.ok (.id id)) table
  | interned {request : Request} {shape : Shape} {record : TypeRecord}
      (hshape : request.shape? = some shape) (hnew : table.interned[shape]? = none)
      (henters : table.Enters request record) :
      Effect table request (.ok (.id (table.add record).1)) (table.intern shape record).2
  | added {request : Request} {record : TypeRecord} (hshape : request.shape? = none)
      (henters : table.Enters request record) :
      Effect table request (.ok (.id (table.add record).1)) (table.add record).2
  | published {id : TypeId} {record : TypeRecord} {fields : List Field}
      (hrecord : table.record id = .ok record)
      (haggregate : record.kind.isAggregate = true)
      (hknown : ∀ field ∈ fields, table.knows field.type = true) :
      Effect table (.publish id fields) (.ok .published) (table.withFields id record fields)

section Step

variable (table : TypeTable)

theorem effect_primitive (kind : Kind) :
    Effect table (.primitive kind) (table.step (.primitive kind)).1
      (table.step (.primitive kind)).2 := by
  simp only [step, primitive]
  split
  · rename_i hkind
    cases hid : table.interned[Shape.primitive kind]? with
    | some id => exact .found rfl hid
    | none => exact .interned rfl hid (.primitive hkind)
  · exact .failed _

theorem effect_indirect (via : Indirection) (target : TypeId) :
    Effect table (.indirect via target) (table.step (.indirect via target)).1
      (table.step (.indirect via target)).2 := by
  simp only [step, indirect]
  cases hid : table.interned[Shape.indirect via target]? with
  | some id => exact .found rfl hid
  | none =>
      cases htarget : table.record target with
      | error failure => exact .failed _
      | ok record => exact .interned rfl hid (.indirect htarget)

theorem effect_addEnum (decl : EnumDecl) :
    Effect table (.addEnum decl) (table.step (.addEnum decl)).1
      (table.step (.addEnum decl)).2 := by
  simp only [step, addEnum]
  cases hunderlying : table.record decl.underlying with
  | error failure => exact .failed _
  | ok underlying =>
      simp only [bind, Except.bind]
      split
      · rename_i hprimitive
        exact .added rfl (.enumeration hunderlying hprimitive)
      · exact .failed _

theorem effect_addAggregate (decl : AggregateDecl) :
    Effect table (.addAggregate decl) (table.step (.addAggregate decl)).1
      (table.step (.addAggregate decl)).2 := by
  simp only [step, addAggregate]
  split
  · exact .failed _
  · rename_i hkind
    split
    · exact .failed _
    · rename_i hbase
      refine .added rfl (.aggregate (by simpa using hkind) ?_)
      intro base hsome
      simpa [hsome] using hbase

/-- Publishing a layout fails and changes nothing, or puts it into the record of a
known aggregate. -/
theorem step_publish_cases (id : TypeId) (fields : List Field) :
    (∃ failure, table.step (.publish id fields) = (.error failure, table)) ∨
    ∃ record, table.record id = .ok record ∧ record.kind.isAggregate = true ∧
      (∀ field ∈ fields, table.knows field.type = true) ∧
      table.step (.publish id fields) = (.ok .published, table.withFields id record fields) := by
  cases hpublish : table.publish id fields with
  | error failure =>
      simp only [step, hpublish]
      exact Or.inl ⟨failure, rfl⟩
  | ok next =>
      obtain ⟨record, hrecord, haggregate, hknown, rfl⟩ := publish_eq_ok_iff.mp hpublish
      simp only [step, hpublish]
      exact Or.inr ⟨record, hrecord, haggregate, hknown, rfl⟩

theorem effect_publish (id : TypeId) (fields : List Field) :
    Effect table (.publish id fields) (table.step (.publish id fields)).1
      (table.step (.publish id fields)).2 := by
  rcases table.step_publish_cases id fields with ⟨failure, hstep⟩ |
    ⟨record, hrecord, haggregate, hknown, hstep⟩
  · rw [hstep]
    exact .failed _
  · rw [hstep]
    exact .published hrecord haggregate hknown

theorem effect_step (request : Request) :
    Effect table request (table.step request).1 (table.step request).2 := by
  cases request with
  | primitive kind => exact table.effect_primitive kind
  | indirect via target => exact table.effect_indirect via target
  | addEnum decl => exact table.effect_addEnum decl
  | addAggregate decl => exact table.effect_addAggregate decl
  | addUnshaped kind name => exact .added rfl (.unshaped kind name)
  | publish id fields => exact table.effect_publish id fields
  | record id =>
      simp only [step]
      cases table.record id with
      | error failure => exact .failed _
      | ok record => exact .read rfl
  | fullName id =>
      simp only [step]
      cases table.fullName id with
      | error failure => exact .failed _
      | ok text => exact .read rfl
  | nativeInt =>
      simp only [step, nativeInt]
      cases hid : table.interned[Shape.primitive .intPtr]? with
      | none => exact .failed _
      | some id => exact .found rfl hid
  | recordsFrom id => exact .read rfl

end Step

/-! The records before and after -/

theorem record_push_iff {table next : TypeTable} {entered : TypeRecord}
    (hrecords : next.records = table.records.push entered) {id : TypeId}
    {record : TypeRecord} :
    next.record id = .ok record ↔
      table.record id = .ok record ∨ id.toNat = table.size ∧ record = entered := by
  rw [record_eq_ok_iff, record_eq_ok_iff, hrecords, Array.getElem?_push]
  by_cases hid : id.toNat = table.records.size
  · simp [hid, size, eq_comm]
  · simp [hid, size]

/-- The id whose place is behind all records is the next one. -/
theorem add_eq_of_toNat {table : TypeTable} {record : TypeRecord} {id : TypeId}
    (hid : id.toNat = table.size) : (table.add record).1 = id := by
  simp only [add, ← hid, UInt32.ofNat_toNat]

theorem record_withFields {table : TypeTable} {id : TypeId} {old : TypeRecord}
    (hold : table.record id = .ok old) (fields : List Field) (other : TypeId) :
    (table.withFields id old fields).record other =
      if other = id then .ok { old with fields := some (renumber fields) }
      else table.record other := by
  have hid : id.toNat < table.records.size := (table.knows_iff id).mp (knows_of_record hold)
  by_cases hother : other = id
  · rw [if_pos hother, hother, record_eq_ok_iff]
    exact Array.getElem?_setIfInBounds_self_of_lt hid
  · have hne : id.toNat ≠ other.toNat := fun heq => hother (UInt32.toNat.inj heq.symm)
    rw [if_neg hother, TypeTable.record, withFields, Array.getElem?_setIfInBounds_ne hne]
    rfl

theorem record_withFields_iff {table : TypeTable} {id : TypeId} {old : TypeRecord}
    (hold : table.record id = .ok old) (fields : List Field) {other : TypeId}
    {record : TypeRecord} :
    (table.withFields id old fields).record other = .ok record ↔
      if other = id then record = { old with fields := some (renumber fields) }
      else table.record other = .ok record := by
  rw [record_withFields hold]
  split
  · rw [Except.ok.injEq, eq_comm]
  · rfl

namespace Effect

variable {table next : TypeTable} {request : Request} {reply : Except Failure Answer}

theorem size_le (heffect : Effect table request reply next) : table.size ≤ next.size := by
  cases heffect with
  | failed | read | found => exact Nat.le_refl _
  | interned => rw [size_intern]; exact Nat.le_succ _
  | added => rw [size_add]; exact Nat.le_succ _
  | published => simp [withFields, TypeTable.size]

theorem size_le_succ (heffect : Effect table request reply next) :
    next.size ≤ table.size + 1 := by
  cases heffect with
  | failed | read | found => exact Nat.le_succ _
  | interned => exact Nat.le_of_eq (size_intern _ _ _)
  | added => exact Nat.le_of_eq (size_add _ _)
  | published => simp [withFields, TypeTable.size]

/-- A record is one from before, or one from before with a new layout, or the one
that was entered, whose id is the answer. -/
theorem record_cases (heffect : Effect table request reply next) {id : TypeId}
    {record : TypeRecord} (hrecord : next.record id = .ok record) :
    table.record id = .ok record ∨
    (∃ old fields, table.record id = .ok old ∧ old.kind.isAggregate = true ∧
      (∀ field ∈ fields, table.knows field.type = true) ∧
      record = { old with fields := some (renumber fields) }) ∨
    (id.toNat = table.size ∧ reply = .ok (.id id) ∧ table.Enters request record) := by
  cases heffect with
  | failed | read | found => exact Or.inl hrecord
  | interned _ _ henters =>
      rcases (record_push_iff rfl).mp hrecord with hold | ⟨hid, rfl⟩
      · exact Or.inl hold
      · exact Or.inr (Or.inr ⟨hid, by rw [add_eq_of_toNat hid], henters⟩)
  | added _ henters =>
      rcases (record_push_iff rfl).mp hrecord with hold | ⟨hid, rfl⟩
      · exact Or.inl hold
      · exact Or.inr (Or.inr ⟨hid, by rw [add_eq_of_toNat hid], henters⟩)
  | @published target old fields hold haggregate hknown =>
      rw [record_withFields_iff hold] at hrecord
      split at hrecord
      · subst id
        exact Or.inr (Or.inl ⟨old, fields, hold, haggregate, hknown, hrecord⟩)
      · exact Or.inl hrecord

/-- A record keeps all but its field layout. -/
theorem keeps (heffect : Effect table request reply next) {id : TypeId}
    {record : TypeRecord} (hrecord : table.record id = .ok record) :
    ∃ fields, next.record id = .ok { record with fields } := by
  cases heffect with
  | failed | read | found => exact ⟨record.fields, hrecord⟩
  | interned => exact ⟨record.fields, (record_push_iff rfl).mpr (Or.inl hrecord)⟩
  | added => exact ⟨record.fields, (record_push_iff rfl).mpr (Or.inl hrecord)⟩
  | @published target old fields hold _ _ =>
      by_cases hid : id = target
      · subst hid
        rw [hold] at hrecord
        cases hrecord
        exact ⟨some (renumber fields), by rw [record_withFields_iff hold, if_pos rfl]⟩
      · refine ⟨record.fields, ?_⟩
        rw [record_withFields_iff hold, if_neg hid]
        exact hrecord

theorem knows (heffect : Effect table request reply next) {id : TypeId}
    (hid : table.knows id = true) : next.knows id = true := by
  rw [knows_iff] at hid ⊢
  exact Nat.lt_of_lt_of_le hid heffect.size_le

end Effect

/-! Whole histories -/

theorem size_le_after (table : TypeTable) (requests : List Request) :
    table.size ≤ (after table requests).size := by
  induction requests generalizing table with
  | nil => exact Nat.le_refl _
  | cons request rest ih =>
      have hfirst := (table.effect_step request).size_le
      exact Nat.le_trans hfirst (ih (table.step request).2)

/-- What is known stays known. -/
theorem knows_after {table : TypeTable} {id : TypeId} (hid : table.knows id = true)
    (requests : List Request) : (after table requests).knows id = true := by
  rw [knows_iff] at hid ⊢
  exact Nat.lt_of_lt_of_le hid (size_le_after table requests)

/-- A history enters at most as many types as it has requests. -/
theorem size_after_le (table : TypeTable) (requests : List Request) :
    (after table requests).size ≤ table.size + requests.length := by
  induction requests generalizing table with
  | nil => exact Nat.le_refl _
  | cons request rest ih =>
      have hfirst := (table.effect_step request).size_le_succ
      have hrest := ih (table.step request).2
      rw [List.length_cons]
      exact Nat.le_trans hrest (by omega)

end DebugInfo.TypeTable
