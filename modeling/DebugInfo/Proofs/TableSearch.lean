import DebugInfo.Proofs.Interning

/-!
Interned ids against a search of the records. As long as nobody enters a type
without a form under a kind that interned types have, the table holds at most one
type for each shape that it can intern, and the remembered id is the one that a
search from the first record on finds. A request for an interned type then does
what a table without memory would do: it answers with what it finds and enters a
type only if it finds none.
-/

namespace DebugInfo

/-- Kinds that belong to interned types. -/
def Kind.IsInterned (kind : Kind) : Prop :=
  kind.isPrimitive = true ∨ kind = .void ∨ kind = .pointer ∨ kind = .byReference

instance (kind : Kind) : Decidable kind.IsInterned :=
  inferInstanceAs (Decidable (_ ∨ _))

theorem Kind.not_isInterned_of_isAggregate {kind : Kind}
    (haggregate : kind.isAggregate = true) : ¬ kind.IsInterned := by
  cases kind <;> first | decide | cases haggregate

instance (shape : Shape) (record : TypeRecord) : Decidable (shape.Describes record) :=
  match shape with
  | .primitive kind => inferInstanceAs (Decidable (record.kind = kind))
  | .indirect via target =>
      inferInstanceAs (Decidable (record.kind = via.kind ∧ record.element = target))

theorem Shape.isInterned_of_describes {shape : Shape} {record : TypeRecord}
    (hinternable : shape.IsInternable) (hdescribes : shape.Describes record) :
    record.kind.IsInterned := by
  cases shape with
  | primitive kind =>
      obtain rfl : record.kind = kind := hdescribes
      exact hinternable.imp_right Or.inl
  | indirect via target =>
      obtain ⟨hkind, -⟩ := hdescribes
      rw [hkind]
      cases via <;> decide

namespace TypeTable

/-- A type without a form is entered under a kind that interned types do not have. -/
def Request.IsProper : Request → Prop
  | .addUnshaped kind _ => ¬ kind.IsInterned
  | _ => True

/-- What interned types look like is interned. -/
def Complete (table : TypeTable) : Prop :=
  ∀ (shape : Shape) (id : TypeId) (record : TypeRecord), shape.IsInternable →
    table.record id = .ok record → shape.Describes record → table.interned[shape]? = some id

/-- The first type of the table that is what a shape asks for. -/
def search (table : TypeTable) (shape : Shape) : Option TypeId :=
  (table.records.toList.findIdx? fun record => decide (shape.Describes record)).map
    UInt32.ofNat

/-- A shape whose target is known, or whose kind has a primitive type. -/
def Knows (table : TypeTable) : Shape → Prop
  | .primitive kind => kind.isPrimitive = true ∨ kind = .void
  | .indirect _ target => table.knows target = true

theorem Knows.isInternable {table : TypeTable} {shape : Shape} (hknows : table.Knows shape) :
    shape.IsInternable := by
  cases shape with
  | primitive kind => exact hknows
  | indirect via target => trivial

section Steps

variable {table next : TypeTable} {request : Request} {reply : Except Failure Answer}

/-- What is entered looks like an interned type only if it was asked for as one. -/
theorem Enters.shape?_eq_some {record : TypeRecord} (henters : table.Enters request record)
    (hproper : request.IsProper) {shape : Shape} (hinternable : shape.IsInternable)
    (hdescribes : shape.Describes record) : request.shape? = some shape := by
  cases hshape : request.shape? with
  | some asked =>
      obtain ⟨hvalid, hshows⟩ := henters.describes hshape
      rw [Shape.eq_of_describes hvalid hinternable hshows hdescribes]
  | none =>
      have hkind := Shape.isInterned_of_describes hinternable hdescribes
      cases henters with
      | primitive | indirect => cases hshape
      | enumeration => exact absurd hkind (by decide : ¬ Kind.valueType.IsInterned)
      | aggregate haggregate =>
          exact absurd hkind (Kind.not_isInterned_of_isAggregate haggregate)
      | unshaped => exact absurd hkind hproper

theorem Effect.complete (heffect : Effect table request reply next)
    (hproper : request.IsProper) (hconsistent : table.Consistent)
    (hcomplete : table.Complete) (hroom : next.size ≤ UInt32.size) : next.Complete := by
  intro shape id record hinternable hrecord hdescribes
  rcases heffect.record_cases hrecord with hold | ⟨old, fields, hold, -, -, rfl⟩ |
    ⟨hid, rfl, henters⟩
  · exact heffect.interned_keeps (hcomplete shape id record hinternable hold hdescribes)
  · exact heffect.interned_keeps
      (hcomplete shape id old hinternable hold (hdescribes.withFields old.fields))
  · have hshape := henters.shape?_eq_some hproper hinternable hdescribes
    exact ((heffect.stands_reply hconsistent hroom).interned shape).mpr hshape

end Steps

theorem Complete.after {table : TypeTable} (hconsistent : table.Consistent)
    (hcomplete : table.Complete) {requests : List Request}
    (hproper : ∀ request ∈ requests, request.IsProper)
    (hroom : (after table requests).size ≤ UInt32.size) :
    (after table requests).Consistent ∧ (after table requests).Complete := by
  induction requests generalizing table with
  | nil => exact ⟨hconsistent, hcomplete⟩
  | cons request rest ih =>
      have heffect := table.effect_step request
      have hfirst := Nat.le_trans (size_le_after (table.step request).2 rest) hroom
      exact ih (heffect.consistent hconsistent hfirst)
        (heffect.complete (hproper request List.mem_cons_self) hconsistent hcomplete hfirst)
        (fun other hother => hproper other (List.mem_cons_of_mem _ hother)) hroom

theorem complete_empty : empty.Complete := by
  intro shape id record _ hrecord
  simp [record_eq_ok_iff, empty] at hrecord

theorem complete_after_seed {requests : List Request}
    (hproper : ∀ request ∈ requests, request.IsProper)
    (hroom : (after seed requests).size ≤ UInt32.size) :
    (after seed requests).Consistent ∧ (after seed requests).Complete := by
  have hseed := after_empty_primitives.1
  have hprimitives : ∀ request ∈ primitives.map Request.primitive, request.IsProper := by
    intro request hrequest
    obtain ⟨kind, -, rfl⟩ := List.mem_map.mp hrequest
    trivial
  obtain ⟨hconsistent, hcomplete⟩ := Complete.after accounted_empty.consistent
    complete_empty hprimitives (by rw [hseed]; decide)
  rw [hseed] at hconsistent hcomplete
  exact Complete.after hconsistent hcomplete hproper hroom

/-- Where interned types are told apart, the search finds what is remembered. -/
theorem search_eq_interned {table : TypeTable} (hconsistent : table.Consistent)
    (hcomplete : table.Complete) (hroom : table.size ≤ UInt32.size) {shape : Shape}
    (hinternable : shape.IsInternable) : table.search shape = table.interned[shape]? := by
  cases hfound : table.records.toList.findIdx? fun record =>
      decide (shape.Describes record) with
  | none =>
      rw [search, hfound, Option.map_none]
      have hnone := List.findIdx?_eq_none_iff.mp hfound
      cases hid : table.interned[shape]? with
      | none => rfl
      | some id =>
          obtain ⟨-, record, hrecord, hdescribes⟩ := hconsistent shape id hid
          have hmem := Array.mem_of_getElem? ((record_eq_ok_iff _ _ _).mp hrecord)
          have hnot := hnone record (Array.mem_toList_iff.mpr hmem)
          exact absurd hdescribes (of_decide_eq_false hnot)
  | some position =>
      rw [search, hfound, Option.map_some]
      obtain ⟨hposition, hshows, -⟩ := List.findIdx?_eq_some_iff_getElem.mp hfound
      have hid : (UInt32.ofNat position).toNat = position := by
        rw [UInt32.toNat_ofNat']
        exact Nat.mod_eq_of_lt (Nat.lt_of_lt_of_le hposition hroom)
      have hrecord : table.record (UInt32.ofNat position) =
          .ok table.records.toList[position] := by
        rw [record_eq_ok_iff, hid]
        simp
      exact (hcomplete shape _ _ hinternable hrecord (of_decide_eq_true hshows)).symm

theorem Complete.eq_of_describes {table : TypeTable} (hcomplete : table.Complete)
    {shape : Shape} (hinternable : shape.IsInternable) {first second : TypeId}
    {record other : TypeRecord} (hfirst : table.record first = .ok record)
    (hsecond : table.record second = .ok other) (hdescribes : shape.Describes record)
    (hshows : shape.Describes other) : first = second := by
  have hinterned := hcomplete shape first record hinternable hfirst hdescribes
  rw [hcomplete shape second other hinternable hsecond hshows] at hinterned
  exact (Option.some.inj hinterned).symm

/-- A request for a type that is not interned yet enters it, if it can. Only addresses
are not there from the start. -/
theorem step_of_new {table : TypeTable} {request : Request} {shape : Shape}
    (hshape : request.shape? = some shape) (hknows : table.Knows shape)
    (hprimitive : ∀ kind ∈ primitives, table.interned[Shape.primitive kind]?.isSome = true)
    (hnew : table.interned[shape]? = none) :
    ∃ record, table.step request =
        (.ok (.id (UInt32.ofNat table.size)), (table.intern shape record).2) ∧
      shape.Describes record := by
  cases shape with
  | primitive kind =>
      have hsome := hprimitive kind (mem_primitives_iff.mpr hknows)
      rw [hnew] at hsome
      cases hsome
  | indirect via target =>
      cases request with
      | indirect asked type =>
          cases hshape
          cases htarget : table.record target with
          | error failure =>
              have hunknown := ((record_eq_error_iff _ _ _).mp htarget).2
              have hknown := (knows_iff _ _).mp hknows
              omega
          | ok record =>
              refine ⟨.ofIndirection via target record, ?_, rfl, rfl⟩
              simp only [step, TypeTable.indirect, hnew, htarget]
              rfl
      | primitive | addEnum | addAggregate | addUnshaped | publish | record | fullName
      | nativeInt | recordsFrom => cases hshape

/-- A table answers a request for an interned type as one would that remembers
nothing and searches its records. In every history without improper requests no two
types are what one shape asks for. If the search for a shape finds a type, the
request gives its id and leaves the table as it is, and if it finds none, one record
is entered at the end. Primitive types are always found. -/
theorem interning_agrees_with_search {requests : List Request}
    (hproper : ∀ request ∈ requests, request.IsProper)
    (hroom : (after seed requests).size < UInt32.size) :
    (∀ shape : Shape, shape.IsInternable → ∀ first second record other,
      (after seed requests).record first = .ok record →
      (after seed requests).record second = .ok other →
      shape.Describes record → shape.Describes other → first = second) ∧
    (∀ (request : Request) (shape : Shape), request.shape? = some shape →
      (after seed requests).Knows shape →
      match (after seed requests).search shape with
      | some id => (after seed requests).step request = (.ok (.id id), after seed requests)
      | none => ∃ id record next, (after seed requests).step request = (.ok (.id id), next) ∧
          id.toNat = (after seed requests).size ∧
          next.records = (after seed requests).records.push record ∧
          shape.Describes record) ∧
    ∀ kind : Kind, kind.isPrimitive = true ∨ kind = .void →
      ((after seed requests).search (.primitive kind)).isSome = true := by
  obtain ⟨hconsistent, hcomplete⟩ := complete_after_seed hproper (Nat.le_of_lt hroom)
  have hprimitive : ∀ kind ∈ primitives,
      (after seed requests).interned[Shape.primitive kind]?.isSome = true := by
    intro kind hkind
    obtain ⟨id, hid⟩ :=
      (accounted_seed.after requests (Nat.le_of_lt hroom)).interned_primitive hkind
    rw [hid]
    rfl
  generalize after seed requests = table at *
  refine ⟨?_, ?_, ?_⟩
  · intro shape hinternable first second record other hfirst hsecond
    exact hcomplete.eq_of_describes hinternable hfirst hsecond
  · intro request shape hshape hknows
    rw [search_eq_interned hconsistent hcomplete (Nat.le_of_lt hroom) hknows.isInternable]
    cases hid : table.interned[shape]? with
    | some id => exact hconsistent.step_eq hshape hid
    | none =>
        obtain ⟨record, hstep, hdescribes⟩ := step_of_new hshape hknows hprimitive hid
        exact ⟨_, record, _, hstep, table.toNat_add record hroom, rfl, hdescribes⟩
  · intro kind hkind
    have hinternable : (Shape.primitive kind).IsInternable := hkind
    rw [search_eq_interned hconsistent hcomplete (Nat.le_of_lt hroom) hinternable]
    exact hprimitive kind (mem_primitives_iff.mpr hkind)

/-- A class and a generic parameter. -/
def generic : List Request :=
  [.addAggregate { name := "List" }, .addUnshaped .typeParameter "T"]

theorem search_generic :
    (∀ request ∈ generic, request.IsProper) ∧
      (after seed generic).size < UInt32.size ∧
      ∃ id record next, (after seed generic).step (.indirect .pointer 15) =
          (.ok (.id id), next) ∧ id.toNat = (after seed generic).size ∧
        next.records = (after seed generic).records.push record ∧
        (Shape.indirect .pointer 15).Describes record := by
  have hproper : ∀ request ∈ generic, request.IsProper := by
    simp [generic, Request.IsProper, Kind.IsInterned, Kind.isPrimitive]
  have hroom : (after seed generic).size < UInt32.size := by decide
  have hnone : (after seed generic).search (.indirect .pointer 15) = none := by decide +kernel
  obtain ⟨-, hanswers, -⟩ := interning_agrees_with_search hproper hroom
  have hpointer := hanswers (.indirect .pointer 15) (.indirect .pointer 15) rfl
    (by decide : (after seed generic).knows 15 = true)
  rw [hnone] at hpointer
  exact ⟨hproper, hroom, hpointer⟩

end TypeTable

end DebugInfo
