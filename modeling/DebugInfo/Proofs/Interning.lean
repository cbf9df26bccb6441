import DebugInfo.Proofs.TableGrowth
import Mathlib.Data.List.Pairwise

/-!
Interned ids over whole histories of a table. An id that was handed out keeps its
meaning: if the request asked for an interned type, asking again gives the id
again and changes nothing, and if it entered a type of its own, no other request
ever gets the id. So two ids of a history are equal exactly when the requests ask
for the same interned type. This holds whatever types without a form claim to be.
-/

namespace DebugInfo

namespace Shape

/-- A record is what the shape asks for. -/
def Describes : Shape → TypeRecord → Prop
  | primitive kind, record => record.kind = kind
  | indirect via target, record => record.kind = via.kind ∧ record.element = target

/-- A shape that a table can intern. -/
def IsInternable : Shape → Prop
  | primitive kind => kind.isPrimitive = true ∨ kind = .void
  | indirect _ _ => True

theorem not_describes_primitive_of_indirect {via : Indirection} {target : TypeId}
    {kind : Kind} {record : TypeRecord} (hkind : (primitive kind).IsInternable)
    (hindirect : (indirect via target).Describes record) :
    ¬ (primitive kind).Describes record := by
  rintro (rfl : record.kind = kind)
  have hvia : record.kind = via.kind := hindirect.1
  rw [IsInternable, hvia] at hkind
  cases via <;> simp [Indirection.kind, Kind.isPrimitive] at hkind

/-- A record is what at most one shape asks for. -/
theorem eq_of_describes {first second : Shape} {record : TypeRecord}
    (hfirst : first.IsInternable) (hsecond : second.IsInternable)
    (hdescribes : first.Describes record) (hother : second.Describes record) :
    first = second := by
  cases first with
  | primitive kind =>
      cases second with
      | primitive other =>
          obtain rfl : record.kind = kind := hdescribes
          obtain rfl : record.kind = other := hother
          rfl
      | indirect via target =>
          exact absurd hdescribes (not_describes_primitive_of_indirect hfirst hother)
  | indirect via target =>
      cases second with
      | primitive kind =>
          exact absurd hother (not_describes_primitive_of_indirect hsecond hdescribes)
      | indirect other element =>
          obtain ⟨hkind, rfl⟩ := hdescribes
          obtain ⟨hsame, rfl⟩ := hother
          have hvia : via.kind = other.kind := hkind.symm.trans hsame
          cases via <;> cases other <;> first | rfl | cases hvia

/-- A field layout does not matter to what a record is. -/
theorem Describes.withFields {shape : Shape} {record : TypeRecord}
    (hdescribes : shape.Describes record) (fields : Option (List Field)) :
    shape.Describes { record with fields } := by
  cases shape with
  | primitive kind => exact hdescribes
  | indirect via target => exact hdescribes

end Shape

namespace TypeTable

/-- What is interned is there and is what was asked for. -/
def Consistent (table : TypeTable) : Prop :=
  ∀ (shape : Shape) (id : TypeId), table.interned[shape]? = some id → shape.IsInternable ∧
    ∃ record, table.record id = .ok record ∧ shape.Describes record

/-- An id is known and interned for the given shape only, or for none. -/
structure Stands (table : TypeTable) (id : TypeId) (shape? : Option Shape) : Prop where
  known : table.knows id = true
  interned : ∀ shape, table.interned[shape]? = some id ↔ shape? = some shape

theorem Enters.describes {table : TypeTable} {request : Request} {record : TypeRecord}
    (henters : table.Enters request record) {shape : Shape}
    (hshape : request.shape? = some shape) :
    shape.IsInternable ∧ shape.Describes record := by
  cases henters with
  | primitive hkind =>
      cases hshape
      exact ⟨hkind, rfl⟩
  | indirect htarget =>
      cases hshape
      exact ⟨trivial, rfl, rfl⟩
  | enumeration => cases hshape
  | aggregate => cases hshape
  | unshaped => cases hshape

/-- Asking for what is interned gives its id and changes nothing. -/
theorem Consistent.step_eq {table : TypeTable} (hconsistent : table.Consistent)
    {request : Request} {shape : Shape} (hshape : request.shape? = some shape) {id : TypeId}
    (hid : table.interned[shape]? = some id) : table.step request = (.ok (.id id), table) := by
  cases request with
  | primitive kind =>
      cases hshape
      have hinternable : kind.isPrimitive = true ∨ kind = .void := (hconsistent _ id hid).1
      simp only [step, TypeTable.primitive, if_pos hinternable, hid, answerId]
  | indirect via target =>
      cases hshape
      simp only [step, TypeTable.indirect, hid, answerId]
  | nativeInt =>
      cases hshape
      simp only [step, TypeTable.nativeInt, hid, Failure.ofNone_some, Except.map]
  | addEnum | addAggregate | addUnshaped | publish | record | fullName | recordsFrom =>
      cases hshape

/-- An interned id stands for its shape. -/
theorem Consistent.stands {table : TypeTable} (hconsistent : table.Consistent)
    {shape : Shape} {id : TypeId} (hid : table.interned[shape]? = some id) :
    table.Stands id (some shape) := by
  obtain ⟨hinternable, record, hrecord, hdescribes⟩ := hconsistent shape id hid
  refine ⟨knows_of_record hrecord, fun other => ⟨fun hother => ?_, ?_⟩⟩
  · obtain ⟨hvalid, found, hfound, hshows⟩ := hconsistent other id hother
    rw [hrecord] at hfound
    cases hfound
    rw [Shape.eq_of_describes hinternable hvalid hdescribes hshows]
  · rintro ⟨⟩
    exact hid

section Steps

variable {table next : TypeTable} {request : Request} {reply : Except Failure Answer}

theorem interned_intern (table : TypeTable) (shape other : Shape) (record : TypeRecord) :
    (table.intern shape record).2.interned[other]? =
      if shape = other then some (table.add record).1 else table.interned[other]? := by
  simp only [intern, Std.HashMap.getElem?_insert, beq_iff_eq]
  rfl

/-- A new id is not one that is known. -/
theorem add_ne_of_knows (hroom : table.size < UInt32.size) (record : TypeRecord)
    {id : TypeId} (hid : table.knows id = true) : (table.add record).1 ≠ id := by
  rintro rfl
  rw [knows_iff, toNat_add table record hroom] at hid
  exact Nat.lt_irrefl _ hid

theorem Effect.interned_cases (heffect : Effect table request reply next) {shape : Shape}
    {id : TypeId} (hid : next.interned[shape]? = some id) :
    table.interned[shape]? = some id ∨
    (request.shape? = some shape ∧ table.interned[shape]? = none ∧
      ∃ record, table.Enters request record ∧ id = (table.add record).1 ∧
        next = (table.intern shape record).2) := by
  cases heffect with
  | failed | read | found | added | published => exact Or.inl hid
  | @interned _ entered record hshape hnew henters =>
      rw [interned_intern] at hid
      split at hid
      · rename_i hsame
        subst hsame
        exact Or.inr ⟨hshape, hnew, record, henters, (Option.some.inj hid).symm, rfl⟩
      · exact Or.inl hid

theorem Effect.interned_keeps (heffect : Effect table request reply next) {shape : Shape}
    {id : TypeId} (hid : table.interned[shape]? = some id) :
    next.interned[shape]? = some id := by
  cases heffect with
  | failed | read | found | added | published => exact hid
  | @interned _ entered record _ hnew _ =>
      rw [interned_intern, if_neg]
      · exact hid
      · rintro rfl
        rw [hnew] at hid
        cases hid

theorem Effect.consistent (heffect : Effect table request reply next)
    (hconsistent : table.Consistent) (hroom : next.size ≤ UInt32.size) :
    next.Consistent := by
  intro shape id hid
  rcases heffect.interned_cases hid with hold | ⟨hshape, -, record, henters, rfl, rfl⟩
  · obtain ⟨hinternable, record, hrecord, hdescribes⟩ := hconsistent shape id hold
    obtain ⟨fields, hkept⟩ := heffect.keeps hrecord
    exact ⟨hinternable, _, hkept, hdescribes.withFields fields⟩
  · obtain ⟨hinternable, hdescribes⟩ := henters.describes hshape
    rw [size_intern] at hroom
    have hid := table.toNat_add record hroom
    exact ⟨hinternable, record, (record_push_iff rfl).mpr (Or.inr ⟨hid, rfl⟩), hdescribes⟩

/-- What an id stands for, it stands for ever. -/
theorem Effect.stands (heffect : Effect table request reply next)
    (hroom : next.size ≤ UInt32.size) {id : TypeId} {shape? : Option Shape}
    (hstands : table.Stands id shape?) : next.Stands id shape? where
  known := heffect.knows hstands.known
  interned := by
    intro shape
    constructor
    · intro hid
      rcases heffect.interned_cases hid with hold | ⟨-, -, record, -, rfl, rfl⟩
      · exact (hstands.interned shape).mp hold
      · rw [size_intern] at hroom
        exact absurd rfl (add_ne_of_knows hroom record hstands.known)
    · intro hshape
      exact heffect.interned_keeps ((hstands.interned shape).mpr hshape)

/-- The id in a reply stands for what was asked. -/
theorem Effect.stands_reply {id : TypeId} (heffect : Effect table request (.ok (.id id)) next)
    (hconsistent : table.Consistent) (hroom : next.size ≤ UInt32.size) :
    next.Stands id request.shape? := by
  have hafter := heffect.consistent hconsistent hroom
  cases heffect with
  | read hanswer => cases hanswer
  | found hshape hid =>
      rw [hshape]
      exact hconsistent.stands hid
  | @interned _ shape record hshape _ _ =>
      rw [hshape]
      apply hafter.stands
      rw [interned_intern, if_pos rfl]
  | @added _ record hshape henters =>
      rw [size_add] at hroom
      refine ⟨?_, ?_⟩
      · rw [knows_iff, toNat_add table record hroom, size_add]
        exact Nat.lt_succ_self _
      · intro shape
        rw [hshape, interned_add]
        refine ⟨fun hid => ?_, nofun⟩
        exact absurd rfl (add_ne_of_knows hroom record (hconsistent.stands hid).known)

/-- What enters a type of its own gets an id that nothing else has. -/
theorem Effect.fresh {id : TypeId} (heffect : Effect table request (.ok (.id id)) next)
    (hshape : request.shape? = none) (hroom : next.size ≤ UInt32.size) {other : TypeId}
    (hother : table.knows other = true) : other ≠ id := by
  cases heffect with
  | read hanswer => cases hanswer
  | found hsome | interned hsome =>
      rw [hshape] at hsome
      cases hsome
  | added =>
      rw [size_add] at hroom
      exact (add_ne_of_knows hroom _ hother).symm

end Steps

/-! Whole histories -/

/-- The id in a reply. -/
def issuedId? : Except Failure Answer → Option TypeId
  | .ok answer => answer.id?
  | .error _ => none

/-- The ids that a run hands out, each with the request that it answers. -/
def issued (table : TypeTable) (requests : List Request) : List (Request × TypeId) :=
  (requests.zip (run table requests)).flatMap fun (request, reply) =>
    (issuedId? reply.1).toList.map (request, ·)

/-- The ids of the seeded table, each with the request for it. -/
def seeded : List (Request × TypeId) :=
  primitives.mapIdx fun position kind => (.primitive kind, UInt32.ofNat position)

theorem issued_cons (table : TypeTable) (request : Request) (rest : List Request) :
    issued table (request :: rest) =
      (issuedId? (table.step request).1).toList.map (request, ·) ++
        issued (table.step request).2 rest := rfl

theorem issued_append (table : TypeTable) (first second : List Request) :
    issued table (first ++ second) = issued table first ++ issued (after table first) second := by
  induction first generalizing table with
  | nil => rfl
  | cons request rest ih =>
      rw [List.cons_append, issued_cons, ih, issued_cons, List.append_assoc]
      rfl

/-- Both requests ask for one interned type. -/
def Request.AsksSame (first second : Request) : Prop :=
  ∃ shape, first.shape? = some shape ∧ second.shape? = some shape

/-- Where a history of a table stands: the ids that were handed out so far stand
for what they were asked for, and are told apart by it. -/
structure Accounted (table : TypeTable) (issued : List (Request × TypeId)) : Prop where
  consistent : table.Consistent
  stands : ∀ entry ∈ issued, table.Stands entry.2 entry.1.shape?
  distinct : issued.Pairwise fun earlier later =>
    earlier.2 = later.2 ↔ earlier.1.AsksSame later.1

/-- An id given now is one given before exactly if the same was asked for. -/
theorem Accounted.eq_iff_asksSame {table next : TypeTable} {ids : List (Request × TypeId)}
    (haccounted : table.Accounted ids) {request : Request} {id : TypeId}
    (heffect : Effect table request (.ok (.id id)) next) (hroom : next.size ≤ UInt32.size)
    {earlier : Request × TypeId} (hearlier : earlier ∈ ids) :
    earlier.2 = id ↔ earlier.1.AsksSame request := by
  have hnew := heffect.stands_reply haccounted.consistent hroom
  have hold := heffect.stands hroom (haccounted.stands earlier hearlier)
  constructor
  · rintro rfl
    cases hshape : request.shape? with
    | none =>
        have hknown := (haccounted.stands earlier hearlier).known
        exact absurd rfl (heffect.fresh hshape hroom hknown)
    | some shape =>
        have hinterned := (hnew.interned shape).mpr hshape
        exact ⟨shape, (hold.interned shape).mp hinterned, hshape⟩
  · rintro ⟨shape, hfirst, hsecond⟩
    have hinterned := (hold.interned shape).mpr hfirst
    rw [(hnew.interned shape).mpr hsecond] at hinterned
    exact (Option.some.inj hinterned).symm

theorem Accounted.step {table : TypeTable} {ids : List (Request × TypeId)}
    (haccounted : table.Accounted ids) (request : Request)
    (hroom : (table.step request).2.size ≤ UInt32.size) :
    (table.step request).2.Accounted
      (ids ++ (issuedId? (table.step request).1).toList.map (request, ·)) := by
  have heffect := table.effect_step request
  have hconsistent := heffect.consistent haccounted.consistent hroom
  have hold : ∀ entry ∈ ids, (table.step request).2.Stands entry.2 entry.1.shape? :=
    fun entry hentry => heffect.stands hroom (haccounted.stands entry hentry)
  cases hreply : (table.step request).1 with
  | error failure =>
      simp only [issuedId?, Option.toList_none, List.map_nil, List.append_nil]
      exact ⟨hconsistent, hold, haccounted.distinct⟩
  | ok answer =>
      rw [hreply] at heffect
      cases answer with
      | id id =>
          refine ⟨hconsistent, ?_, ?_⟩
          · intro entry hentry
            rcases List.mem_append.mp hentry with hearlier | hlast
            · exact hold entry hearlier
            · obtain rfl := List.mem_singleton.mp hlast
              exact heffect.stands_reply haccounted.consistent hroom
          · refine List.pairwise_append.mpr
              ⟨haccounted.distinct, List.pairwise_singleton _ _, ?_⟩
            intro earlier hearlier later hlater
            obtain rfl := List.mem_singleton.mp hlater
            exact haccounted.eq_iff_asksSame heffect hroom hearlier
      | published | record | text | records =>
          simp only [issuedId?, Answer.id?, Option.toList_none, List.map_nil, List.append_nil]
          exact ⟨hconsistent, hold, haccounted.distinct⟩

theorem Accounted.after {table : TypeTable} {ids : List (Request × TypeId)}
    (haccounted : table.Accounted ids) (requests : List Request)
    (hroom : (after table requests).size ≤ UInt32.size) :
    (after table requests).Accounted (ids ++ issued table requests) := by
  induction requests generalizing table ids with
  | nil =>
      have hnone : issued table [] = [] := rfl
      rw [hnone, List.append_nil]
      exact haccounted
  | cons request rest ih =>
      have hfirst := haccounted.step request
        (Nat.le_trans (size_le_after (table.step request).2 rest) hroom)
      rw [issued_cons, ← List.append_assoc]
      exact ih hfirst hroom

theorem accounted_empty : empty.Accounted [] where
  consistent := by
    intro shape id hid
    simp [empty] at hid
  stands := fun _ hentry => absurd hentry List.not_mem_nil
  distinct := List.Pairwise.nil

theorem step_primitive_of_new {table : TypeTable} {kind : Kind} (hkind : kind ∈ primitives)
    (hnew : table.interned[Shape.primitive kind]? = none) :
    table.step (.primitive kind) = (.ok (.id (UInt32.ofNat table.size)),
      (table.intern (.primitive kind) (.ofPrimitive kind)).2) := by
  simp only [step, TypeTable.primitive, if_pos (mem_primitives_iff.mp hkind), hnew]
  rfl

/-- Asking for kinds that are not there yet enters them in order. -/
theorem after_primitives {kinds : List Kind} (hkinds : ∀ kind ∈ kinds, kind ∈ primitives)
    (hnodup : kinds.Nodup) {table : TypeTable}
    (hnew : ∀ kind ∈ kinds, table.interned[Shape.primitive kind]? = none) :
    after table (kinds.map .primitive) =
        kinds.foldl (fun current kind =>
          (current.intern (.primitive kind) (.ofPrimitive kind)).2) table ∧
      issued table (kinds.map .primitive) =
        kinds.mapIdx fun position kind =>
          (.primitive kind, UInt32.ofNat (table.size + position)) := by
  induction kinds generalizing table with
  | nil => exact ⟨rfl, rfl⟩
  | cons kind rest ih =>
      obtain ⟨hfirst, hrest⟩ := List.nodup_cons.mp hnodup
      have hstep := step_primitive_of_new (hkinds kind List.mem_cons_self)
        (hnew kind List.mem_cons_self)
      have hleft : ∀ other ∈ rest, (table.intern (.primitive kind)
          (.ofPrimitive kind)).2.interned[Shape.primitive other]? = none := by
        intro other hother
        rw [interned_intern, if_neg]
        · exact hnew other (List.mem_cons_of_mem _ hother)
        · rintro ⟨⟩
          exact hfirst hother
      obtain ⟨hafter, hissued⟩ :=
        ih (fun other hother => hkinds other (List.mem_cons_of_mem _ hother)) hrest hleft
      constructor
      · rw [List.map_cons, after, History.after_cons, hstep]
        exact hafter
      · rw [List.map_cons, issued_cons, hstep, hissued, List.mapIdx_cons, size_intern]
        simp only [Nat.add_assoc, Nat.add_comm 1]
        rfl

/-- The seeded table is what an empty one becomes when it is asked for the primitive
types. -/
theorem after_empty_primitives :
    after empty (primitives.map .primitive) = seed ∧
      issued empty (primitives.map .primitive) = seeded := by
  have hnew : ∀ kind ∈ primitives, empty.interned[Shape.primitive kind]? = none :=
    fun _ _ => Std.HashMap.getElem?_empty
  obtain ⟨hafter, hissued⟩ :=
    after_primitives (fun _ hkind => hkind) (by decide : primitives.Nodup) hnew
  refine ⟨hafter, hissued.trans ?_⟩
  simp [seeded, empty, size]

theorem accounted_seed : seed.Accounted seeded := by
  obtain ⟨hseed, hseeded⟩ := after_empty_primitives
  have haccounted := accounted_empty.after (primitives.map .primitive) (by rw [hseed]; decide)
  rwa [hseed, hseeded] at haccounted

theorem mem_seeded {position : Nat} {kind : Kind}
    (hkind : primitives[position]? = some kind) :
    (Request.primitive kind, UInt32.ofNat position) ∈ seeded := by
  obtain ⟨hposition, rfl⟩ := List.getElem?_eq_some_iff.mp hkind
  exact List.mem_mapIdx.mpr ⟨position, hposition, rfl⟩

/-- No type of the seeded table is an address. -/
theorem interned_indirect_seed (via : Indirection) (target : TypeId) :
    seed.interned[Shape.indirect via target]? = none := by
  cases hid : seed.interned[Shape.indirect via target]? with
  | none => rfl
  | some id =>
      obtain ⟨-, record, hrecord, hkind, -⟩ := accounted_seed.consistent _ id hid
      have hmem := Array.mem_of_getElem? ((record_eq_ok_iff _ _ _).mp hrecord)
      rw [← Array.mem_toList_iff, records_seed] at hmem
      obtain ⟨kind, hprimitive, rfl⟩ := List.mem_map.mp hmem
      obtain rfl : kind = via.kind := hkind
      cases via <;> simp [Indirection.kind, primitives] at hprimitive

theorem Accounted.interned_of_mem {table : TypeTable} {ids : List (Request × TypeId)}
    (haccounted : table.Accounted ids) {entry : Request × TypeId} (hentry : entry ∈ ids)
    {shape : Shape} (hshape : entry.1.shape? = some shape) :
    table.interned[shape]? = some entry.2 :=
  ((haccounted.stands entry hentry).interned shape).mpr hshape

/-- The primitive types stay interned. -/
theorem Accounted.interned_primitive {table : TypeTable} {ids : List (Request × TypeId)}
    (haccounted : table.Accounted (seeded ++ ids)) {kind : Kind} (hkind : kind ∈ primitives) :
    ∃ id, table.interned[Shape.primitive kind]? = some id := by
  obtain ⟨position, hposition⟩ := List.mem_iff_getElem?.mp hkind
  have hentry := List.mem_append_left ids (mem_seeded hposition)
  exact ⟨_, haccounted.interned_of_mem hentry rfl⟩

theorem Accounted.step_eq {table : TypeTable} {ids : List (Request × TypeId)}
    (haccounted : table.Accounted ids) {entry : Request × TypeId} (hentry : entry ∈ ids)
    {request : Request} (hsame : entry.1.AsksSame request) :
    table.step request = (.ok (.id entry.2), table) := by
  obtain ⟨shape, hshape, hrequest⟩ := hsame
  exact haccounted.consistent.step_eq hrequest (haccounted.interned_of_mem hentry hshape)

/-- Interning is stable and injective in every history. An id that was given for an
interned type is the id of a type as asked for, and asking for the same again gives
it again and leaves the table as it is. This counts from the seeded primitive types
on, of which the integer as wide as an address is one. Two ids that were given are
equal exactly if the same interned type was asked for both times, so what is entered
anew each time gets an id that nothing else got before or gets later. -/
theorem interning_stable_and_injective (requests : List Request)
    (hroom : (after seed requests).size ≤ UInt32.size) :
    (∀ entry ∈ seeded ++ issued seed requests, ∀ shape, entry.1.shape? = some shape →
      ∃ record, (after seed requests).record entry.2 = .ok record ∧ shape.Describes record) ∧
    (∀ entry ∈ seeded ++ issued seed requests, ∀ request, entry.1.AsksSame request →
      (after seed requests).step request = (.ok (.id entry.2), after seed requests)) ∧
    (∀ position kind, primitives[position]? = some kind →
      ∀ request : Request, request.shape? = some (.primitive kind) →
        (after seed requests).step request =
          (.ok (.id (UInt32.ofNat position)), after seed requests)) ∧
    (seeded ++ issued seed requests).Pairwise fun earlier later =>
      earlier.2 = later.2 ↔ earlier.1.AsksSame later.1 := by
  have haccounted := accounted_seed.after requests hroom
  refine ⟨?_, fun _ hentry _ => haccounted.step_eq hentry, ?_, haccounted.distinct⟩
  · intro entry hentry shape hshape
    have hinterned := ((haccounted.stands entry hentry).interned shape).mpr hshape
    exact (haccounted.consistent shape entry.2 hinterned).2
  · intro position kind hkind request hshape
    have hentry := List.mem_append_left (issued seed requests) (mem_seeded hkind)
    exact haccounted.step_eq hentry ⟨.primitive kind, rfl, hshape⟩

/-- A by-reference of a pointer, a type that claims to be a pointer, look-ups that
fail and a pointer that is asked for twice. -/
def towers : List Request :=
  [.indirect .pointer 7, .addUnshaped .pointer "T", .indirect .byReference 15,
    .indirect .pointer 99, .indirect .pointer 7, .addEnum { underlying := 4 },
    .indirect .pointer 16, .primitive .classType]

theorem interning_towers :
    (after seed towers).size ≤ UInt32.size ∧
      (after seed towers).step .nativeInt = (.ok (.id 13), after seed towers) ∧
      (seeded ++ issued seed towers).Pairwise fun earlier later =>
        earlier.2 = later.2 ↔ earlier.1.AsksSame later.1 := by
  have hroom : (after seed towers).size ≤ UInt32.size :=
    Nat.le_trans (size_after_le seed towers) (by decide)
  obtain ⟨-, -, hprimitive, hdistinct⟩ := interning_stable_and_injective towers hroom
  have hnative := hprimitive 13 .intPtr rfl .nativeInt rfl
  exact ⟨hroom, hnative, hdistinct⟩

end TypeTable

end DebugInfo
