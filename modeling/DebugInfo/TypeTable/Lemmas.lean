import DebugInfo.TypeTable.Basic

/-!
What each operation of the type table does to its records, seen through `size`
and `record`: entering a type adds one record at the end and keeps the others,
and publishing a layout changes one record in place. The first fifteen ids of
the seeded table are the primitive kinds in order.
-/

namespace DebugInfo.TypeTable

theorem knows_iff (table : TypeTable) (id : TypeId) :
    table.knows id = true ↔ id.toNat < table.size := by
  simp [knows]

theorem record_eq_ok_iff (table : TypeTable) (id : TypeId) (record : TypeRecord) :
    table.record id = .ok record ↔ table.records[id.toNat]? = some record := by
  unfold TypeTable.record
  cases table.records[id.toNat]? <;> simp

/-- Looking up a type has one way to fail. -/
theorem record_eq_error_iff (table : TypeTable) (id : TypeId) (failure : Failure) :
    table.record id = .error failure ↔
      failure = .unknownType ∧ table.size ≤ id.toNat := by
  by_cases hid : id.toNat < table.records.size
  · simp [TypeTable.record, size, hid]
  · simp [TypeTable.record, size, hid, Nat.not_lt.mp hid, eq_comm]

theorem record_of_knows {table : TypeTable} {id : TypeId} (hid : table.knows id = true) :
    ∃ record, table.record id = .ok record := by
  have hlt : id.toNat < table.records.size := (table.knows_iff id).mp hid
  exact ⟨_, (record_eq_ok_iff _ _ _).mpr (Array.getElem?_eq_getElem hlt)⟩

theorem knows_of_record {table : TypeTable} {id : TypeId} {record : TypeRecord}
    (hrecord : table.record id = .ok record) : table.knows id = true := by
  rw [knows_iff]
  exact (Array.getElem?_eq_some_iff.mp ((record_eq_ok_iff _ _ _).mp hrecord)).1

@[simp] theorem size_add (table : TypeTable) (record : TypeRecord) :
    (table.add record).2.size = table.size + 1 := by
  simp [add, size]

@[simp] theorem interned_add (table : TypeTable) (record : TypeRecord) :
    (table.add record).2.interned = table.interned := rfl

@[simp] theorem records_intern (table : TypeTable) (shape : Shape) (record : TypeRecord) :
    (table.intern shape record).2.records = table.records.push record := rfl

@[simp] theorem size_intern (table : TypeTable) (shape : Shape) (record : TypeRecord) :
    (table.intern shape record).2.size = table.size + 1 := by
  simp [size]

/-- A new id is the size from before, as long as ids do not run out. -/
theorem toNat_add (table : TypeTable) (record : TypeRecord)
    (hroom : table.size < UInt32.size) : (table.add record).1.toNat = table.size := by
  simp only [add, UInt32.toNat_ofNat']
  exact Nat.mod_eq_of_lt hroom

/-- The type that was entered is known. -/
theorem knows_add (table : TypeTable) (record : TypeRecord) :
    (table.add record).2.knows (table.add record).1 = true := by
  rw [knows_iff, size_add]
  simp only [add, UInt32.toNat_ofNat']
  exact Nat.lt_succ_of_le (Nat.mod_le _ _)

theorem records_seed : seed.records.toList = primitives.map .ofPrimitive := rfl

theorem mem_primitives_iff {kind : Kind} :
    kind ∈ primitives ↔ kind.isPrimitive = true ∨ kind = .void := by
  cases kind <;> decide

end DebugInfo.TypeTable
