import DebugInfo.Proofs.TableGrowth

/-!
What a history of requests leaves alone in a type table. Types are entered at the
end, one at a time, and never leave, so an id means the same type for ever. Of its
record only the field layout can change, and only by publishing a layout for exactly
this id; the last one published counts. The primitive types have no fields, so the
first fifteen records never change at all.

`lastPublished` reads a layout off the requests of a run and their answers, without
looking at a table.
-/

namespace DebugInfo.TypeTable

/-- The fields that a request publishes for a type, if it is answered so. -/
def publishedFor (id : TypeId) :
    Request × (Except Failure Answer × TypeTable) → Option (List Field)
  | (.publish target fields, .ok _, _) => if target = id then some fields else none
  | _ => none

/-- The fields that a run published last for a type, if it published any. -/
def lastPublished (table : TypeTable) (requests : List Request) (id : TypeId) :
    Option (List Field) :=
  (requests.zip (run table requests)).reverse.findSome? (publishedFor id)

theorem lastPublished_cons (table : TypeTable) (request : Request) (rest : List Request)
    (id : TypeId) :
    lastPublished table (request :: rest) id =
      (lastPublished (table.step request).2 rest id).or
        (publishedFor id (request, table.step request)) := by
  have hrun : run table (request :: rest) =
      table.step request :: run (table.step request).2 rest := rfl
  simp only [lastPublished, hrun, List.zip_cons_cons, List.reverse_cons,
    List.findSome?_append, List.findSome?_singleton]

theorem publishedFor_eq_none {request : Request}
    (hrequest : ∀ target fields, request ≠ .publish target fields) (id : TypeId)
    (reply : Except Failure Answer × TypeTable) : publishedFor id (request, reply) = none := by
  unfold publishedFor
  split
  · rename_i target fields _ _ hentry
    cases hentry
    exact absurd rfl (hrequest target fields)
  · rfl

/-- The size stays, or grows by one type whose id is the size from before. -/
def GrowsAtEnd (table : TypeTable) (reply : Except Failure Answer × TypeTable) : Prop :=
  reply.2.size = table.size ∨
    reply.2.size = table.size + 1 ∧ ∃ id, reply.1 = .ok (.id id) ∧ id.toNat = table.size

section Steps

variable {table next : TypeTable} {request : Request} {reply : Except Failure Answer}
  {id : TypeId} {record : TypeRecord}

theorem Effect.growsAtEnd (heffect : Effect table request reply next)
    (hroom : next.size ≤ UInt32.size) : GrowsAtEnd table (reply, next) := by
  cases heffect with
  | failed | read | found => exact Or.inl rfl
  | interned =>
      rw [size_intern] at hroom
      exact Or.inr ⟨size_intern _ _ _, _, rfl, table.toNat_add _ hroom⟩
  | added =>
      rw [size_add] at hroom
      exact Or.inr ⟨size_add _ _, _, rfl, table.toNat_add _ hroom⟩
  | published => exact Or.inl (by simp [withFields, TypeTable.size])

/-- Only publishing for its id changes a record, and only that of an aggregate. -/
theorem Effect.record_keeps (heffect : Effect table request reply next)
    (hrecord : table.record id = .ok record)
    (hrequest : ∀ fields, request = .publish id fields → record.kind.isAggregate = false) :
    next.record id = .ok record := by
  cases heffect with
  | failed | read | found => exact hrecord
  | interned | added => exact (record_push_iff rfl).mpr (Or.inl hrecord)
  | @published target old fields hold haggregate _ =>
      rw [record_withFields_iff hold, if_neg]
      · exact hrecord
      · rintro rfl
        rw [hold] at hrecord
        cases hrecord
        rw [hrequest fields rfl] at haggregate
        cases haggregate

/-- A record keeps all but its fields, and these too unless the request publishes
others in their place. -/
theorem step_record_eq (table : TypeTable) (request : Request)
    (hrecord : table.record id = .ok record) :
    (table.step request).2.record id = .ok { record with
      fields := ((publishedFor id (request, table.step request)).map renumber).or
        record.fields } := by
  cases request with
  | publish target fields =>
      rcases table.step_publish_cases target fields with ⟨failure, hstep⟩ |
        ⟨old, hold, -, -, hstep⟩
      · simpa [hstep, publishedFor] using hrecord
      · rw [hstep, record_withFields_iff hold]
        by_cases htarget : id = target
        · subst htarget
          rw [hold] at hrecord
          cases hrecord
          simp [publishedFor]
        · rw [if_neg htarget]
          simpa [publishedFor, Ne.symm htarget] using hrecord
  | primitive | indirect | addEnum | addAggregate | addUnshaped | record | fullName
  | nativeInt | recordsFrom =>
      rw [publishedFor_eq_none (by simp)]
      exact (table.effect_step _).record_keeps hrecord (by simp)

end Steps

/-! Whole histories -/

theorem after_record_eq {table : TypeTable} {id : TypeId} {record : TypeRecord}
    (hrecord : table.record id = .ok record) (requests : List Request) :
    (after table requests).record id = .ok { record with
      fields := ((lastPublished table requests id).map renumber).or record.fields } := by
  induction requests generalizing table record with
  | nil => exact hrecord
  | cons request rest ih =>
      have hrest := ih (table.step_record_eq request hrecord)
      rw [lastPublished_cons]
      rw [after, History.after_cons]
      refine hrest.trans ?_
      cases lastPublished (table.step request).2 rest id <;> rfl

theorem after_record_of_plain {table : TypeTable} {id : TypeId} {record : TypeRecord}
    (hrecord : table.record id = .ok record) (hplain : record.kind.isAggregate = false)
    (requests : List Request) : (after table requests).record id = .ok record := by
  induction requests generalizing table with
  | nil => exact hrecord
  | cons request rest ih =>
      exact ih ((table.effect_step request).record_keeps hrecord fun _ _ => hplain)

/-- What a history of requests leaves alone in the table it starts from. -/
structure AppendOnly (table : TypeTable) (requests : List Request) : Prop where
  size_le : table.size ≤ (after table requests).size
  /-- Each request enters at most one type, at the end. -/
  grows : ∀ earlier request later, requests = earlier ++ request :: later →
    GrowsAtEnd (after table earlier) ((after table earlier).step request)
  /-- A record keeps all but its fields, and these too unless others were published
  for this id. -/
  keeps : ∀ id record, table.record id = .ok record →
    (after table requests).record id = .ok { record with
      fields := ((lastPublished table requests id).map renumber).or record.fields }
  /-- Published fields are those given, numbered by position. -/
  layout : ∀ id fields, table.knows id = true →
    lastPublished table requests id = some fields →
    ∃ record published, (after table requests).record id = .ok record ∧
      record.fields = some published ∧ published.length = fields.length ∧
      ∀ (position : Nat) (field : Field), fields[position]? = some field →
        published[position]? = some { field with index := UInt32.ofNat position }
  /-- Fields are never withdrawn. -/
  stays : ∀ id record, table.record id = .ok record → record.fields.isSome = true →
    ∃ kept, (after table requests).record id = .ok kept ∧ kept.fields.isSome = true

theorem growsAtEnd_of_append {table : TypeTable} {earlier : List Request} {request : Request}
    {later : List Request}
    (hroom : (after table (earlier ++ request :: later)).size ≤ UInt32.size) :
    GrowsAtEnd (after table earlier) ((after table earlier).step request) := by
  rw [after, History.after_append, History.after_cons] at hroom
  have hnext := size_le_after ((after table earlier).step request).2 later
  exact ((after table earlier).effect_step request).growsAtEnd (Nat.le_trans hnext hroom)

theorem appendOnly_of_room {table : TypeTable} {requests : List Request}
    (hroom : (after table requests).size ≤ UInt32.size) : AppendOnly table requests where
  size_le := size_le_after table requests
  grows := by
    rintro earlier request later rfl
    exact growsAtEnd_of_append hroom
  keeps := fun _ _ hrecord => after_record_eq hrecord requests
  layout := by
    intro id fields hid hpublished
    obtain ⟨record, hrecord⟩ := record_of_knows hid
    refine ⟨_, renumber fields, after_record_eq hrecord requests, ?_, length_renumber fields, ?_⟩
    · rw [hpublished]
      rfl
    · intro position field hfield
      rw [getElem?_renumber, hfield]
      rfl
  stays := by
    intro id record hrecord hfields
    refine ⟨_, after_record_eq hrecord requests, ?_⟩
    cases lastPublished table requests id with
    | none => exact hfields
    | some fields => rfl

theorem record_seed {position : Nat} {kind : Kind} (hkind : primitives[position]? = some kind) :
    seed.record (UInt32.ofNat position) = .ok (.ofPrimitive kind) := by
  have hlt : position < 15 := (List.getElem?_eq_some_iff.mp hkind).1
  have hid : (UInt32.ofNat position).toNat = position := by
    rw [UInt32.toNat_ofNat']
    exact Nat.mod_eq_of_lt (by omega)
  rw [record_eq_ok_iff, hid, ← Array.getElem?_toList, records_seed, List.getElem?_map, hkind]
  rfl

/-- The primitive types keep their ids and their records in every history. -/
theorem record_primitive_after (requests : List Request) {position : Nat} {kind : Kind}
    (hkind : primitives[position]? = some kind) :
    (after seed requests).record (UInt32.ofNat position) = .ok (.ofPrimitive kind) := by
  refine after_record_of_plain (record_seed hkind) ?_ requests
  rcases mem_primitives_iff.mp (List.mem_of_getElem? hkind) with hprimitive | rfl
  · exact Kind.not_isAggregate_of_isPrimitive hprimitive
  · rfl

/-- A type table is only ever appended to, up to the publication of layouts. This
holds of every history, whatever is asked and however it ends, from any table that
requests can lead to, as long as ids do not run out. -/
theorem history_appendOnly (earlier requests : List Request)
    (hroom : (after (after seed earlier) requests).size ≤ UInt32.size) :
    AppendOnly (after seed earlier) requests ∧
    ∀ position kind, primitives[position]? = some kind →
      (after seed earlier).record (UInt32.ofNat position) = .ok (.ofPrimitive kind) :=
  ⟨appendOnly_of_room hroom, fun _ _ => record_primitive_after earlier⟩

/-- A class with fields and one without. -/
def laidOut : List Request :=
  [.addAggregate { name := "Node" }, .addAggregate { name := "Leaf" },
    .publish 15 [{ name := "next", type := 15 }]]

/-- The fields of the first are published twice more. In between a type is entered, and
layouts of other types are published or refused. -/
def laidOutAgain : List Request :=
  [.publish 15 [{ name := "value", type := 7, index := 9 }],
    .addUnshaped .typeParameter "T", .publish 16 [], .publish 17 [],
    .publish 15 [{ name := "next", type := 17, index := 9 },
      { name := "value", type := 7, index := 9, offset := 8 }],
    .publish 15 [{ type := 99 }], .addEnum { underlying := 15 }]

theorem appendOnly_laidOutAgain :
    (after (after seed laidOut) laidOutAgain).size ≤ UInt32.size ∧
      (after (after seed laidOut) laidOutAgain).record 15 = .ok
        { TypeRecord.ofAggregate { name := "Node" } with
          fields := some [{ name := "next", type := 17, index := 0 },
            { name := "value", type := 7, index := 1, offset := 8 }] } := by
  have hroom : (after (after seed laidOut) laidOutAgain).size ≤ UInt32.size := by decide
  have hrecord : (after seed laidOut).record 15 = .ok
      { TypeRecord.ofAggregate { name := "Node" } with
        fields := some [{ name := "next", type := 15, index := 0 }] } := rfl
  have hkept := (history_appendOnly laidOut laidOutAgain hroom).1.keeps 15 _ hrecord
  exact ⟨hroom, hkept⟩

end DebugInfo.TypeTable
