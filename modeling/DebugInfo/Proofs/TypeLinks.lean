import DebugInfo.Proofs.TableGrowth
import Mathlib.Data.List.Permutation

/-!
Where the ids inside the records of a type table lead. The parts that a type is
made from were there before it: the type behind an address, the type in which an
enumeration counts and the base of an aggregate all have smaller ids. Fields are
different. Their types have to be known when the layout is published, and by then
the aggregate itself is, so a type can have a field of its own type.
-/

namespace DebugInfo.TypeTable

/-- What the ids inside a record lead to. -/
structure WellLinked (table : TypeTable) (id : TypeId) (record : TypeRecord) : Prop where
  /-- An address stands behind its target. -/
  element : record.kind = .pointer ∨ record.kind = .byReference → record.element < id
  /-- An enumeration stands behind the primitive type in which it counts. -/
  underlying : record.isEnum = true →
    record.kind = .valueType ∧ record.base = none ∧ record.underlying < id ∧
      ∃ counted, table.record record.underlying = .ok counted ∧
        counted.kind.isPrimitive = true
  /-- Only aggregates have a base, and they stand behind it. -/
  base : ∀ base, record.base = some base → base < id ∧ record.kind.isAggregate = true
  /-- Only aggregates have fields. Their types are known and they are numbered by
  position. -/
  fields : ∀ fields, record.fields = some fields →
    record.kind.isAggregate = true ∧ (∀ field ∈ fields, table.knows field.type = true) ∧
      ∀ position field, fields[position]? = some field → position < UInt32.size →
        field.index.toNat = position

/-- One type is a part of another: what an address leads to, what an enumeration
counts in, or the base of an aggregate. -/
inductive IsPartOf (table : TypeTable) : TypeId → TypeId → Prop where
  | element {id : TypeId} {record : TypeRecord} (hrecord : table.record id = .ok record)
      (hkind : record.kind = .pointer ∨ record.kind = .byReference) :
      IsPartOf table record.element id
  | underlying {id : TypeId} {record : TypeRecord} (hrecord : table.record id = .ok record)
      (henum : record.isEnum = true) : IsPartOf table record.underlying id
  | base {id base : TypeId} {record : TypeRecord} (hrecord : table.record id = .ok record)
      (hbase : record.base = some base) : IsPartOf table base id

/-- One type is the type of a field of another. -/
def IsFieldOf (table : TypeTable) (type id : TypeId) : Prop :=
  ∃ record fields field, table.record id = .ok record ∧ record.fields = some fields ∧
    field ∈ fields ∧ field.type = type

theorem index_renumber {fields : List Field} {position : Nat} {field : Field}
    (hfield : (renumber fields)[position]? = some field) (hposition : position < UInt32.size) :
    field.index.toNat = position := by
  rw [getElem?_renumber, Option.map_eq_some_iff] at hfield
  obtain ⟨original, -, rfl⟩ := hfield
  simp only [UInt32.toNat_ofNat']
  exact Nat.mod_eq_of_lt hposition

theorem type_of_mem_renumber {fields : List Field} {field : Field}
    (hfield : field ∈ renumber fields) : ∃ original ∈ fields, original.type = field.type := by
  obtain ⟨position, hposition, rfl⟩ := List.mem_mapIdx.mp hfield
  exact ⟨_, List.getElem_mem hposition, rfl⟩

section Steps

variable {table next : TypeTable} {request : Request} {reply : Except Failure Answer}
  {id : TypeId} {record : TypeRecord}

/-- A type that is known stands before one that is entered now. -/
theorem lt_of_record (hid : id.toNat = table.size) {part : TypeId}
    (hrecord : table.record part = .ok record) : part < id := by
  rw [UInt32.lt_iff_toNat_lt, hid]
  exact (knows_iff _ _).mp (knows_of_record hrecord)

theorem wellLinked_ofPrimitive (table : TypeTable) (id : TypeId) {kind : Kind}
    (hkind : kind.isPrimitive = true ∨ kind = .void) :
    table.WellLinked id (.ofPrimitive kind) := by
  refine ⟨?_, by rintro ⟨⟩, by rintro _ ⟨⟩, by rintro _ ⟨⟩⟩
  intro haddress
  change kind = .pointer ∨ kind = .byReference at haddress
  rcases haddress with rfl | rfl <;> simp [Kind.isPrimitive] at hkind

theorem Enters.wellLinked (henters : table.Enters request record)
    (hid : id.toNat = table.size) (hsize : 0 < table.size) : table.WellLinked id record := by
  cases henters with
  | primitive hkind => exact wellLinked_ofPrimitive table id hkind
  | indirect htarget =>
      exact ⟨fun _ => lt_of_record hid htarget, by rintro ⟨⟩, by rintro _ ⟨⟩, by rintro _ ⟨⟩⟩
  | @enumeration decl counted hcounted hprimitive =>
      exact ⟨by simp [TypeRecord.ofEnum], fun _ => ⟨rfl, rfl, lt_of_record hid hcounted, counted,
        hcounted, hprimitive⟩, by rintro _ ⟨⟩, by rintro _ ⟨⟩⟩
  | @aggregate decl hkind hbase =>
      refine ⟨?_, by rintro ⟨⟩, ?_, by rintro _ ⟨⟩⟩
      · intro haddress
        change decl.kind = .pointer ∨ decl.kind = .byReference at haddress
        rcases haddress with haddress | haddress <;> simp [haddress, Kind.isAggregate] at hkind
      · intro base hsome
        have hknown := (knows_iff _ _).mp (hbase base hsome)
        refine ⟨?_, hkind⟩
        rw [UInt32.lt_iff_toNat_lt, hid]
        exact hknown
  | unshaped kind name =>
      refine ⟨fun _ => ?_, by rintro ⟨⟩, by rintro _ ⟨⟩, by rintro _ ⟨⟩⟩
      -- Such a record may claim to be an address; it then leads to the first type.
      rw [UInt32.lt_iff_toNat_lt, hid]
      exact hsize

theorem WellLinked.publish (hlinked : table.WellLinked id record)
    (haggregate : record.kind.isAggregate = true) {fields : List Field}
    (hknown : ∀ field ∈ fields, table.knows field.type = true) :
    table.WellLinked id { record with fields := some (renumber fields) } where
  element := hlinked.element
  underlying := hlinked.underlying
  base := hlinked.base
  fields := by
    intro published hpublished
    obtain rfl := Option.some.inj hpublished
    refine ⟨haggregate, ?_, fun _ _ => index_renumber⟩
    intro field hfield
    obtain ⟨original, horiginal, htype⟩ := type_of_mem_renumber hfield
    rw [← htype]
    exact hknown original horiginal

/-- Links lead where they led before. -/
theorem WellLinked.mono (heffect : Effect table request reply next)
    (hlinked : table.WellLinked id record) : next.WellLinked id record where
  element := hlinked.element
  underlying := by
    intro henum
    obtain ⟨hkind, hbase, hlt, counted, hcounted, hprimitive⟩ := hlinked.underlying henum
    obtain ⟨fields, hkept⟩ := heffect.keeps hcounted
    exact ⟨hkind, hbase, hlt, _, hkept, hprimitive⟩
  base := hlinked.base
  fields := by
    intro fields hfields
    obtain ⟨haggregate, hknown, hindex⟩ := hlinked.fields fields hfields
    exact ⟨haggregate, fun field hfield => heffect.knows (hknown field hfield), hindex⟩

theorem Effect.wellLinked (heffect : Effect table request reply next)
    (hsize : 0 < table.size)
    (hlinked : ∀ id record, table.record id = .ok record → table.WellLinked id record)
    (hrecord : next.record id = .ok record) : next.WellLinked id record := by
  apply WellLinked.mono heffect
  rcases heffect.record_cases hrecord with hold | ⟨old, fields, hold, haggregate, hknown, rfl⟩ |
    ⟨hid, -, henters⟩
  · exact hlinked id record hold
  · exact (hlinked id old hold).publish haggregate hknown
  · exact henters.wellLinked hid hsize

end Steps

theorem wellLinked_after {table : TypeTable} (hsize : 0 < table.size)
    (hlinked : ∀ id record, table.record id = .ok record → table.WellLinked id record)
    (requests : List Request) {id : TypeId} {record : TypeRecord}
    (hrecord : (after table requests).record id = .ok record) :
    (after table requests).WellLinked id record := by
  induction requests generalizing table with
  | nil => exact hlinked id record hrecord
  | cons request rest ih =>
      have heffect := table.effect_step request
      exact ih (Nat.lt_of_lt_of_le hsize heffect.size_le)
        (fun _ _ hnext => heffect.wellLinked hsize hlinked hnext) hrecord

theorem wellLinked_seed {id : TypeId} {record : TypeRecord}
    (hrecord : seed.record id = .ok record) : seed.WellLinked id record := by
  have hmem := Array.mem_of_getElem? ((record_eq_ok_iff _ _ _).mp hrecord)
  rw [← Array.mem_toList_iff, records_seed] at hmem
  obtain ⟨kind, hkind, rfl⟩ := List.mem_map.mp hmem
  exact wellLinked_ofPrimitive seed id (mem_primitives_iff.mp hkind)

theorem IsPartOf.lt {table : TypeTable}
    (hlinked : ∀ id record, table.record id = .ok record → table.WellLinked id record)
    {part id : TypeId} (hpart : table.IsPartOf part id) : part < id := by
  cases hpart with
  | element hrecord hkind => exact (hlinked _ _ hrecord).element hkind
  | underlying hrecord henum =>
      obtain ⟨-, -, hlt, -⟩ := (hlinked _ _ hrecord).underlying henum
      exact hlt
  | base hrecord hbase => exact ((hlinked _ _ hrecord).base _ hbase).1

/-- In every table that requests can lead to, ids in records lead to types of the
table. Parts come before what is made from them, so following them ends. Fields
need not, and can lead from a type to itself. -/
theorem after_wellLinked (requests : List Request) :
    (∀ id record, (after seed requests).record id = .ok record →
      (after seed requests).WellLinked id record) ∧
    WellFounded (after seed requests).IsPartOf ∧
    ∃ (cyclic : List Request) (id : TypeId), (after seed cyclic).IsFieldOf id id := by
  have hlinked : ∀ id record, (after seed requests).record id = .ok record →
      (after seed requests).WellLinked id record :=
    fun _ _ => wellLinked_after (by decide) (fun _ _ => wellLinked_seed) requests
  refine ⟨hlinked, ?_, ?_⟩
  · have hsmaller : ∀ part id, (after seed requests).IsPartOf part id →
        part.toNat < id.toNat :=
      fun _ _ hpart => UInt32.lt_iff_toNat_lt.mp (hpart.lt hlinked)
    exact Subrelation.wf (hsmaller _ _) (InvImage.wf UInt32.toNat Nat.lt_wfRel.wf)
  · refine ⟨[.addAggregate {}, .publish 15 [{ type := 15 }]], 15, ?_⟩
    exact ⟨_, _, _, rfl, rfl, List.mem_singleton_self _, rfl⟩

/-- A class and one derived from it that have fields of each other's types, given
with other numbers than they get, a type that claims to be an address, an address of the
derived class and an enumeration that counts in bytes. -/
def mutualFields : List Request :=
  [.addAggregate { name := "Node" }, .addAggregate { name := "Leaf", base := some 15 },
    .publish 15 [{ type := 16, index := 7 }, { type := 15, index := 7 }],
    .addUnshaped .pointer "T", .publish 16 [{ type := 15 }], .indirect .byReference 16,
    .addEnum { name := "Shade", underlying := 4 }]

theorem wellLinked_mutualFields :
    (∃ node, (after seed mutualFields).record 15 = .ok node ∧
      node.fields = some [{ type := 16, index := 0 }, { type := 15, index := 1 }] ∧
      (after seed mutualFields).WellLinked 15 node) ∧
    (∃ leaf, (after seed mutualFields).record 16 = .ok leaf ∧
      leaf.base = some 15 ∧ leaf.fields = some [{ type := 15, index := 0 }] ∧
      (after seed mutualFields).WellLinked 16 leaf) ∧
    (∃ unshaped, (after seed mutualFields).record 17 = .ok unshaped ∧
      unshaped.kind = .pointer ∧ unshaped.element = 0 ∧
      (after seed mutualFields).WellLinked 17 unshaped) ∧
    (∃ address, (after seed mutualFields).record 18 = .ok address ∧
      address.kind = .byReference ∧ address.element = 16 ∧
      (after seed mutualFields).WellLinked 18 address) ∧
    ∃ shade, (after seed mutualFields).record 19 = .ok shade ∧
      shade.isEnum = true ∧ shade.underlying = 4 ∧
      (after seed mutualFields).WellLinked 19 shade := by
  obtain ⟨hlinked, -, -⟩ := after_wellLinked mutualFields
  have hnode : (after seed mutualFields).record 15 = .ok
      { TypeRecord.ofAggregate { name := "Node" } with
        fields := some [{ type := 16, index := 0 }, { type := 15, index := 1 }] } := by cbv
  have hleaf : (after seed mutualFields).record 16 = .ok
      { TypeRecord.ofAggregate { name := "Leaf", base := some 15 } with
        fields := some [{ type := 15, index := 0 }] } := by cbv
  have hunshaped : (after seed mutualFields).record 17 =
      .ok { kind := .pointer, name := "T" } := by cbv
  have haddress : (after seed mutualFields).record 18 =
      .ok { kind := .byReference, name := "Leaf&", form := .indirection 16 } := by cbv
  have hshade : (after seed mutualFields).record 19 =
      .ok (.ofEnum { name := "Shade", underlying := 4 }) := by cbv
  exact ⟨⟨_, hnode, rfl, hlinked 15 _ hnode⟩, ⟨_, hleaf, rfl, rfl, hlinked 16 _ hleaf⟩,
    ⟨_, hunshaped, rfl, rfl, hlinked 17 _ hunshaped⟩,
    ⟨_, haddress, rfl, rfl, hlinked 18 _ haddress⟩,
    ⟨_, hshade, rfl, rfl, hlinked 19 _ hshade⟩⟩

end DebugInfo.TypeTable
