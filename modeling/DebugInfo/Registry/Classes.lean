import DebugInfo.Registry.Basic

/-!
Descriptions of types and classes. A type is described once, after the types it
is made of: addresses after their targets, enumerations as the type they count
in, objects on the heap as addresses of their class. A class is declared after
its base and gets its members when the queue is drained, so that a class can be
reached from its own members. A class without a field layout waits for the next
drain, and when the unit is finished it is sealed without members.

Types are made of types with smaller ids. Where an id says otherwise the
description stops with a failure, so every description ends.
-/

namespace DebugInfo.Registry

variable {δ : Type}

/-- The descriptor of a class, which is declared now if it was not before. A
class of the unit is also queued. -/
def declareClass (writer : Writer δ) (table : TypeTable) (id : TypeId) :
    Action (Registry δ) δ := do
  match (← get).classes[id]? with
  | some entry => descriptorAt entry.slot
  | none =>
      let record ← Action.ofExcept (table.record id)
      let enclosing ← namespaceAt writer record.ns
      let layout := writer.layout .whole table id
      let declaration := Description.declaration enclosing record.name record.fullName
        (sizeInBits layout) (alignInBits layout) record.isLocal
      if record.isLocal then
        match record.base with
        | none => pure ()
        | some base =>
            if _hbase : base < id then
              let _ ← declareClass writer table base
            else throw .cyclicLinks
        let descriptor ← Action.ofExcept (writer.write declaration)
        let slot ← addDescriptor descriptor
        rememberClass id ⟨.pending, slot⟩
        modify fun registry => { registry with queue := registry.queue ++ [id] }
        return descriptor
      else
        let descriptor ← Action.ofExcept (writer.write declaration)
        let slot ← addDescriptor descriptor
        rememberClass id ⟨.foreign, slot⟩
        return descriptor
termination_by id.toNat
decreasing_by exact _hbase

/-- Describe a type now and remember it. -/
def describeAs (writer : Writer δ) (id : TypeId) (description : Description δ) :
    Action (Registry δ) δ := do
  let descriptor ← Action.ofExcept (writer.write description)
  let slot ← addDescriptor descriptor
  rememberType id slot
  return descriptor

/-- The descriptor of a primitive type. -/
def describePrimitive (writer : Writer δ) (table : TypeTable) (id : TypeId) (kind : Kind) :
    Action (Registry δ) δ := do
  match ← described? id with
  | some descriptor => return descriptor
  | none =>
      let layout := writer.layout .storage table id
      describeAs writer id (.primitive kind (sizeInBits layout))

/-- The descriptor of an aggregate that is not an enumeration. -/
def describeAggregate (writer : Writer δ) (table : TypeTable) (id : TypeId)
    (record : TypeRecord) : Action (Registry δ) δ := do
  let declared ← declareClass writer table id
  match record.stack with
  | .value =>
      let entry ← Action.ofExcept (Failure.noClass.ofNone (← get).classes[id]?)
      rememberType id entry.slot
      return declared
  | .object => describeAs writer id (.address declared "")

/-- The descriptor of a type. A kind without a description of its own is
described as the integer as wide as an address. -/
def describeType (writer : Writer δ) (table : TypeTable) (id : TypeId) :
    Action (Registry δ) δ := do
  match ← described? id with
  | some descriptor => return descriptor
  | none =>
      let record ← Action.ofExcept (table.record id)
      if record.kind.isPrimitive then describePrimitive writer table id record.kind
      else if record.kind = .pointer ∨ record.kind = .byReference then
        if _helement : record.element < id then
          let target ← describeType writer table record.element
          describeAs writer id (.address target record.name)
        else throw .cyclicLinks
      else if record.kind.isAggregate then
        if record.isEnum then
          if _hunderlying : record.underlying < id then
            let descriptor ← describeType writer table record.underlying
            shareType id record.underlying
            return descriptor
          else throw .cyclicLinks
        else describeAggregate writer table id record
      else
        let native ← Action.ofExcept table.nativeInt
        let descriptor ← describePrimitive writer table native .intPtr
        shareType id native
        return descriptor
termination_by id.toNat
decreasing_by
  · exact _helement
  · exact _hunderlying

/-- The description of a field, seen from its owner. -/
def describeField (writer : Writer δ) (table : TypeTable) (id : TypeId) (record : TypeRecord)
    (owner : δ) (field : Field) : Action (Registry δ) δ := do
  let type ← describeType writer table field.type
  let stored := writer.layout .storage table field.type
  let start :=
    if record.explicitLayout then field.offset.toNat * 8
    else fieldOffsetInBits (writer.layout .fields table id) field.index.toNat
  let header := if record.stack = .object then writer.headerInBits table id else 0
  Action.ofExcept (writer.write
    (.member owner field.name type (sizeInBits stored) (alignInBits stored) (header + start)))

/-- Write a class with its members in place of its declaration. -/
def define (writer : Writer δ) (table : TypeTable) (id : TypeId) (record : TypeRecord)
    (slot : Nat) (members : List δ) : Action (Registry δ) Unit := do
  let declared ← descriptorAt slot
  let base ← match record.base with
    | some base => some <$> declareClass writer table base
    | none => pure none
  let enclosing ← namespaceAt writer record.ns
  let layout := writer.layout .whole table id
  let descriptor ← Action.ofExcept (writer.write
    (.definition declared enclosing record.name record.fullName (sizeInBits layout)
      (alignInBits layout) base members))
  let slots ← Action.ofExcept ((← get).slots.replace slot descriptor)
  modify fun registry => { registry with slots }
  rememberClass id ⟨.complete, slot⟩

/-- Give a class that is due its members, if its layout is known. -/
def complete (writer : Writer δ) (table : TypeTable) (id : TypeId) :
    Action (Registry δ) Unit := do
  let entry ← Action.ofExcept (Failure.noClass.ofNone (← get).classes[id]?)
  if entry.state = .pending then
    let record ← Action.ofExcept (table.record id)
    match record.fields with
    | none => modify fun registry => { registry with deferred := registry.deferred ++ [id] }
    | some fields =>
        let owner ← descriptorAt entry.slot
        let members ← fields.mapM (describeField writer table id record owner)
        define writer table id record entry.slot members

/-- Complete queued classes, at most `steps` of them. -/
def completeQueued (writer : Writer δ) (table : TypeTable) : Nat → Action (Registry δ) Unit
  | 0 => pure ()
  | steps + 1 => do
      match (← get).queue with
      | [] => pure ()
      | id :: rest =>
          modify fun registry => { registry with queue := rest }
          complete writer table id
          completeQueued writer table steps

/-- Complete the classes of the queue, those that were set aside included, until it
is empty. Besides these only classes that are declared meanwhile get into the queue,
so it is enough to have a step for each that is waiting and one for each type of the
table. -/
def drain (table : TypeTable) : Action (Registry δ) Unit := do
  match (← get).activeWriter? with
  | none => pure ()
  | some writer =>
      modify fun registry =>
        { registry with queue := registry.queue ++ registry.deferred, deferred := [] }
      completeQueued writer table ((← get).queue.length + table.size)

/-- Write every class that is not complete without members. -/
def sealClasses (table : TypeTable) : Action (Registry δ) Unit := do
  match (← get).activeWriter? with
  | none => pure ()
  | some writer =>
      (← get).incomplete.forM fun id => do
        let entry ← Action.ofExcept (Failure.noClass.ofNone (← get).classes[id]?)
        let record ← Action.ofExcept (table.record id)
        define writer table id record entry.slot []
      modify fun registry => { registry with queue := [], deferred := [] }

/-- The descriptor of a type, if the registry is active. -/
def typeOf (table : TypeTable) (id : TypeId) : Action (Registry δ) (Option δ) := do
  match (← get).activeWriter? with
  | none => return none
  | some writer => some <$> describeType writer table id

/-- The descriptor of a class, if the registry is active. -/
def classOf (table : TypeTable) (id : TypeId) : Action (Registry δ) (Option δ) := do
  match (← get).activeWriter? with
  | none => return none
  | some writer => some <$> declareClass writer table id

/-- The descriptor of a namespace, if the registry is active. -/
def namespaceOf (path : String) : Action (Registry δ) (Option δ) := do
  match (← get).activeWriter? with
  | none => return none
  | some writer => namespaceAt writer path

/-- Describe a variable of a scope, after all classes that are due. A variable
without a scope is not described. -/
def describeVariable (table : TypeTable) (scope : Option δ) (type : TypeId)
    (note : VariableNote δ) : Action (Registry δ) (Option δ) := do
  match (← get).activeWriter?, scope with
  | some writer, some scope => do
      let _ ← describeType writer table type
      drain table
      let descriptor ← describeType writer table type
      some <$> Action.ofExcept (writer.write (.variable scope note descriptor))
  | _, _ => return none

/-- Complete what can be completed, seal the rest and finish the output. -/
def finish (table : TypeTable) : Action (Registry δ) Unit := do
  match (← get).activeWriter? with
  | none => pure ()
  | some writer =>
      drain table
      sealClasses table
      Action.ofExcept writer.finish

end DebugInfo.Registry
