import DebugInfo.Proofs.AppendOnly

/-!
When a field layout is published. Requests look at the kinds and the names of the types
that they use, never at their fields. A type keeps its kind, and the types of fields stay
known. So a layout that can be published now can also be published later. Whatever is
asked in between gets the same answers, unless it shows the very record, and the table is
the same in the end.

Other layouts for the same type are left out: of two the last one counts.
-/

namespace DebugInfo.TypeTable

/-- The record of a type is part of the answer. -/
def Request.Shows (id : TypeId) : Request → Prop
  | .record asked => asked = id
  | .recordsFrom first => first ≤ id
  | _ => False

/-! A table with a layout in it -/

section Layout

variable {table : TypeTable} {id : TypeId} {old : TypeRecord}

@[simp] theorem interned_withFields (table : TypeTable) (id : TypeId) (old : TypeRecord)
    (fields : List Field) : (table.withFields id old fields).interned = table.interned := rfl

@[simp] theorem knows_withFields (table : TypeTable) (id : TypeId) (old : TypeRecord)
    (fields : List Field) : (table.withFields id old fields).knows = table.knows := by
  funext other
  rw [Bool.eq_iff_iff, knows_iff, knows_iff, size, withFields, Array.size_setIfInBounds]
  rfl

/-- The records are the same up to the fields. -/
theorem record_withFields_cases (hold : table.record id = .ok old) (fields : List Field)
    (other : TypeId) :
    (∃ failure, table.record other = .error failure ∧
      (table.withFields id old fields).record other = .error failure) ∨
    ∃ record layout, table.record other = .ok record ∧
      (table.withFields id old fields).record other = .ok { record with fields := layout } := by
  rw [record_withFields hold]
  by_cases hother : other = id
  · rw [if_pos hother, hother]
    exact Or.inr ⟨old, _, hold, rfl⟩
  · rw [if_neg hother]
    cases table.record other with
    | error failure => exact Or.inl ⟨failure, rfl, rfl⟩
    | ok record => exact Or.inr ⟨record, record.fields, rfl, rfl⟩

/-- A new type stands behind all that have a layout. -/
theorem add_withFields (hold : table.record id = .ok old) (fields : List Field)
    (record : TypeRecord) :
    (table.withFields id old fields).add record =
      ((table.add record).1, (table.add record).2.withFields id old fields) := by
  have hlt : id.toNat < table.records.size := (table.knows_iff id).mp (knows_of_record hold)
  simp only [add, withFields, size, Array.size_setIfInBounds]
  simp [Array.setIfInBounds_def, Array.set_push, hlt, Nat.lt_succ_of_lt hlt]

theorem intern_withFields (hold : table.record id = .ok old) (fields : List Field)
    (shape : Shape) (record : TypeRecord) :
    (table.withFields id old fields).intern shape record =
      ((table.intern shape record).1,
        (table.intern shape record).2.withFields id old fields) := by
  simp only [intern, add_withFields hold]
  rfl

theorem withFields_comm {other : TypeId} (hother : other ≠ id) (record : TypeRecord)
    (fields others : List Field) :
    (table.withFields id old fields).withFields other record others =
      (table.withFields other record others).withFields id old fields := by
  have hne : id.toNat ≠ other.toNat := fun heq => hother (UInt32.toNat.inj heq.symm)
  simp only [withFields]
  rw [Array.setIfInBounds_comm _ _ hne]

/-- Publishing for another type goes as it would without the layout. -/
theorem publish_withFields (hold : table.record id = .ok old) (fields : List Field)
    {other : TypeId} (hother : other ≠ id) (others : List Field) :
    (table.withFields id old fields).publish other others =
      (table.publish other others).map fun next => next.withFields id old fields := by
  simp only [publish_eq, record_withFields hold, if_neg hother, knows_withFields,
    withFields_comm hother]
  cases table.record other with
  | error failure => rfl
  | ok record =>
      simp only [Except.bind]
      split
      · rfl
      · split <;> rfl

theorem recordsFrom_withFields (old : TypeRecord) (fields : List Field) {first : TypeId}
    (hfirst : ¬ first ≤ id) :
    (table.withFields id old fields).recordsFrom first = table.recordsFrom first := by
  have hlt : id.toNat < first.toNat := by
    rw [UInt32.le_iff_toNat_le] at hfirst
    exact Nat.not_le.mp hfirst
  simp only [recordsFrom, withFields, Array.toList_setIfInBounds]
  exact List.drop_set_of_lt hlt

end Layout

/-! One request -/

section Requests

variable {table : TypeTable} {id : TypeId} {old : TypeRecord}

theorem step_primitive_withFields (hold : table.record id = .ok old) (fields : List Field)
    (kind : Kind) :
    (table.withFields id old fields).step (.primitive kind) =
      ((table.step (.primitive kind)).1,
        (table.step (.primitive kind)).2.withFields id old fields) := by
  simp only [step, primitive, interned_withFields, intern_withFields hold]
  split
  · cases table.interned[Shape.primitive kind]? <;> rfl
  · rfl

/-- An address takes its names from its target, and nothing else. -/
theorem step_indirect_withFields (hold : table.record id = .ok old) (fields : List Field)
    (via : Indirection) (target : TypeId) :
    (table.withFields id old fields).step (.indirect via target) =
      ((table.step (.indirect via target)).1,
        (table.step (.indirect via target)).2.withFields id old fields) := by
  simp only [step, indirect, interned_withFields, intern_withFields hold]
  cases table.interned[Shape.indirect via target]? with
  | some found => rfl
  | none =>
      rcases record_withFields_cases hold fields target with
        ⟨failure, htarget, hlaid⟩ | ⟨record, layout, htarget, hlaid⟩
      · rw [htarget, hlaid]
        rfl
      · rw [htarget, hlaid]
        rfl

theorem step_addEnum_withFields (hold : table.record id = .ok old) (fields : List Field)
    (decl : EnumDecl) :
    (table.withFields id old fields).step (.addEnum decl) =
      ((table.step (.addEnum decl)).1,
        (table.step (.addEnum decl)).2.withFields id old fields) := by
  simp only [step, addEnum, add_withFields hold]
  rcases record_withFields_cases hold fields decl.underlying with
    ⟨failure, hunderlying, hlaid⟩ | ⟨record, layout, hunderlying, hlaid⟩
  · rw [hunderlying, hlaid]
    rfl
  · rw [hunderlying, hlaid]
    simp only [bind, Except.bind]
    split <;> rfl

theorem step_addAggregate_withFields (hold : table.record id = .ok old)
    (fields : List Field) (decl : AggregateDecl) :
    (table.withFields id old fields).step (.addAggregate decl) =
      ((table.step (.addAggregate decl)).1,
        (table.step (.addAggregate decl)).2.withFields id old fields) := by
  simp only [step, addAggregate, add_withFields hold, knows_withFields]
  split
  · rfl
  · split <;> rfl

theorem step_publish_withFields (hold : table.record id = .ok old) (fields : List Field)
    {other : TypeId} (hother : other ≠ id) (others : List Field) :
    (table.withFields id old fields).step (.publish other others) =
      ((table.step (.publish other others)).1,
        (table.step (.publish other others)).2.withFields id old fields) := by
  simp only [step, publish_withFields hold fields hother]
  cases table.publish other others <;> rfl

theorem step_fullName_withFields (hold : table.record id = .ok old) (fields : List Field)
    (asked : TypeId) :
    (table.withFields id old fields).step (.fullName asked) =
      ((table.step (.fullName asked)).1,
        (table.step (.fullName asked)).2.withFields id old fields) := by
  simp only [step, fullName]
  rcases record_withFields_cases hold fields asked with
    ⟨failure, hasked, hlaid⟩ | ⟨record, layout, hasked, hlaid⟩
  · rw [hasked, hlaid]
  · rw [hasked, hlaid]
    rfl

/-- A request that neither publishes nor shows the fields of a type does not notice them. -/
theorem step_withFields (hold : table.record id = .ok old) (fields : List Field)
    {request : Request} (hrequest : ∀ others, request ≠ .publish id others)
    (hshows : ¬ request.Shows id) :
    (table.withFields id old fields).step request =
      ((table.step request).1, (table.step request).2.withFields id old fields) := by
  cases request with
  | primitive kind => exact step_primitive_withFields hold fields kind
  | indirect via target => exact step_indirect_withFields hold fields via target
  | addEnum decl => exact step_addEnum_withFields hold fields decl
  | addAggregate decl => exact step_addAggregate_withFields hold fields decl
  | addUnshaped kind name => simp only [step, addUnshaped, add_withFields hold, answerId]
  | publish other others =>
      have hother : other ≠ id := fun heq => hrequest others (by rw [heq])
      exact step_publish_withFields hold fields hother others
  | record asked =>
      have hasked : asked ≠ id := hshows
      simp only [step, record_withFields hold, if_neg hasked]
  | fullName asked => exact step_fullName_withFields hold fields asked
  | nativeInt => rfl
  | recordsFrom first => simp only [step, recordsFrom_withFields old fields hshows]

theorem snd_step_withFields (hold : table.record id = .ok old) (fields : List Field)
    {request : Request} (hrequest : ∀ others, request ≠ .publish id others) :
    ((table.withFields id old fields).step request).2 =
      (table.step request).2.withFields id old fields := by
  by_cases hshows : request.Shows id
  · -- Requests that show a record leave the table alone.
    cases request with
    | record | recordsFrom => rfl
    | primitive | indirect | addEnum | addAggregate | addUnshaped | publish | fullName
    | nativeInt => exact absurd hshows not_false
  · rw [step_withFields hold fields hrequest hshows]

end Requests

/-! Whole histories -/

/-- A run in which nothing else is published for a type keeps a layout of that type apart
from all that it does. -/
theorem after_withFields {table : TypeTable} {id : TypeId} {old : TypeRecord}
    (hold : table.record id = .ok old) (fields : List Field) {requests : List Request}
    (hrequests : ∀ others, Request.publish id others ∉ requests) :
    (after table requests).record id = .ok old ∧
      after (table.withFields id old fields) requests =
        (after table requests).withFields id old fields := by
  induction requests generalizing table with
  | nil => exact ⟨hold, rfl⟩
  | cons request rest ih =>
      have hfirst : ∀ others, request ≠ .publish id others := by
        rintro others rfl
        exact hrequests others List.mem_cons_self
      have hrest : ∀ others, Request.publish id others ∉ rest :=
        fun others hmem => hrequests others (List.mem_cons_of_mem _ hmem)
      have hnext : (table.step request).2.record id = .ok old :=
        (table.effect_step request).record_keeps hold fun others heq =>
          absurd heq (hfirst others)
      obtain ⟨hkept, hafter⟩ := ih hnext hrest
      refine ⟨hkept, ?_⟩
      rw [after, History.after_cons, snd_step_withFields hold fields hfirst]
      exact hafter

/-- A layout that can be published can be published as well after a history in which nothing
else is published for the type. The histories with the layout published first and last
leave the same table, with the same types interned. All answers in between are the same,
except those that show the record itself. In particular, layouts of two types can be
published in either order, whatever types their fields have. -/
theorem layout_may_come_late {table published : TypeTable} {id : TypeId} {fields : List Field}
    (hpublish : table.publish id fields = .ok published) :
    (∀ requests : List Request, (∀ others, Request.publish id others ∉ requests) →
      (after table requests).publish id fields = .ok (after published requests) ∧
      ∀ (position : Nat) (request : Request), requests[position]? = some request →
        ¬ request.Shows id →
        (run published requests)[position]?.map Prod.fst =
          (run table requests)[position]?.map Prod.fst) ∧
    ∀ other others next, other ≠ id → table.publish other others = .ok next →
      ∃ both, published.publish other others = .ok both ∧
        next.publish id fields = .ok both := by
  obtain ⟨record, hrecord, haggregate, hknown, rfl⟩ := publish_eq_ok_iff.mp hpublish
  refine ⟨fun requests hrequests => ⟨?_, ?_⟩, ?_⟩
  · obtain ⟨hkept, hafter⟩ := after_withFields hrecord fields hrequests
    have hstill : ∀ field ∈ fields, (after table requests).knows field.type = true :=
      fun field hfield => knows_after (hknown field hfield) requests
    exact publish_eq_ok_iff.mpr ⟨record, hkept, haggregate, hstill, hafter⟩
  · intro position request hposition hshows
    have hbefore : ∀ others, Request.publish id others ∉ requests.take position :=
      fun others hmem => hrequests others (List.mem_of_mem_take hmem)
    have hrequest : ∀ others, request ≠ .publish id others := by
      rintro others rfl
      exact hrequests others (List.mem_of_getElem? hposition)
    obtain ⟨hkept, hafter⟩ := after_withFields hrecord fields hbefore
    have hstep := step_withFields hkept fields hrequest hshows
    simp only [after] at hafter hstep
    simp only [run, History.getElem?_trail, hposition, Option.map_some, hafter, hstep]
  · intro other others next hother hnext
    refine ⟨next.withFields id record fields, ?_, ?_⟩
    · rw [publish_withFields hrecord fields hother, hnext]
      rfl
    · obtain ⟨target, htarget, -, -, rfl⟩ := publish_eq_ok_iff.mp hnext
      refine publish_eq_ok_iff.mpr ⟨record, ?_, haggregate, ?_, rfl⟩
      · rw [record_withFields htarget, if_neg hother.symm]
        exact hrecord
      · rw [knows_withFields]
        exact hknown

/-- Two classes. -/
def twoClasses : List Request :=
  [.addAggregate { name := "Node" }, .addAggregate { name := "Leaf" }]

/-- The first class has got a field of the second at once. -/
def laidOutFirst : TypeTable :=
  after seed (twoClasses ++ [.publish 15 [{ name := "leaf", type := 16 }]])

/-- Requests before or after which it can get the field: the second class gets one of the
first, some requests fail, and some look at the first class. -/
def aroundLayout : List Request :=
  [.publish 16 [{ name := "parent", type := 15 }], .indirect .pointer 15, .record 15,
    .publish 99 [], .addEnum { underlying := 15 }, .fullName 15, .recordsFrom 16,
    .indirect .pointer 15, .addAggregate { base := some 15 }]

/-- The first class has its field in the table to which both orders lead. -/
theorem layout_comes_late_aroundLayout :
    (after seed twoClasses).publish 15 [{ name := "leaf", type := 16 }] = .ok laidOutFirst ∧
    (∀ others, Request.publish 15 others ∉ aroundLayout) ∧
    (after (after seed twoClasses) aroundLayout).publish 15 [{ name := "leaf", type := 16 }] =
      .ok (after laidOutFirst aroundLayout) ∧
    (run laidOutFirst aroundLayout)[6]?.map Prod.fst =
      (run (after seed twoClasses) aroundLayout)[6]?.map Prod.fst ∧
    ∃ node, (after laidOutFirst aroundLayout).record 15 = .ok node ∧
      node.fields = some [{ name := "leaf", type := 16, index := 0 }] := by
  have hpublish : (after seed twoClasses).publish 15 [{ name := "leaf", type := 16 }] =
      .ok laidOutFirst := rfl
  have hothers : ∀ others, Request.publish 15 others ∉ aroundLayout := by
    simp [aroundLayout]
  obtain ⟨hlate, hanswers⟩ := (layout_may_come_late hpublish).1 aroundLayout hothers
  have hrecords := hanswers 6 _ rfl (by decide : ¬ (16 : TypeId) ≤ 15)
  obtain ⟨node, hnode, -, -, hfinal⟩ := publish_eq_ok_iff.mp hlate
  have hfields : (after laidOutFirst aroundLayout).record 15 = .ok
      { node with fields := some [{ name := "leaf", type := 16, index := 0 }] } := by
    rw [hfinal, record_withFields hnode, if_pos rfl]
    rfl
  exact ⟨hpublish, hothers, hlate, hrecords, _, hfields, rfl⟩

end DebugInfo.TypeTable
