import Std.Data.HashMap
import DebugInfo.Failure
import DebugInfo.TypeTable.Record

/-!
The table of managed types. Types are entered at the end and never leave, so an
id stays what it was. Primitive types, pointers and by-references are *interned*:
asking for one again gives the id of the first time. Enumerations, aggregates
and types without a form are entered anew each time. A request that fails
returns no table, so nothing of it can remain.

The table does not check what a type without a form claims to be: its kind may
be any, also one that other requests intern.
-/

namespace DebugInfo

/-- The requests that are answered by the same type each time. -/
inductive Shape where
  | primitive (kind : Kind)
  | indirect (via : Indirection) (target : TypeId)
  deriving DecidableEq, Hashable, Repr

structure TypeTable where
  /-- The types by their ids. -/
  records : Array TypeRecord
  /-- The ids of the interned types. -/
  interned : Std.HashMap Shape TypeId

structure EnumDecl where
  ns : String := ""
  name : String := ""
  underlying : TypeId
  isLocal : Bool := true
  deriving DecidableEq, Repr

structure AggregateDecl where
  kind : Kind := .classType
  ns : String := ""
  name : String := ""
  stack : StackKind := .object
  isLocal : Bool := true
  base : Option TypeId := none
  explicitLayout : Bool := false
  deriving DecidableEq, Repr

namespace TypeRecord

/-- A primitive type belongs to the system namespace, under the name of its
kind. -/
def ofPrimitive (kind : Kind) : TypeRecord where
  kind := kind
  ns := "System"
  name := kind.name

/-- An address of a type stands in its namespace, with its name and a mark. -/
def ofIndirection (via : Indirection) (target : TypeId) (record : TypeRecord) :
    TypeRecord where
  kind := via.kind
  ns := record.ns
  name := record.name ++ via.mark
  form := .indirection target

def ofEnum (decl : EnumDecl) : TypeRecord where
  kind := .valueType
  ns := decl.ns
  name := decl.name
  form := .enumeration decl.underlying decl.isLocal

def ofAggregate (decl : AggregateDecl) : TypeRecord where
  kind := decl.kind
  ns := decl.ns
  name := decl.name
  form := .aggregate decl.stack decl.isLocal decl.base decl.explicitLayout

end TypeRecord

namespace TypeTable

/-- The kinds that every table knows from the start, in the order of their
ids. -/
def primitives : List Kind :=
  [.void, .boolean, .char, .sbyte, .byte, .int16, .uint16, .int32, .uint32,
    .int64, .uint64, .single, .double, .intPtr, .uintPtr]

def size (table : TypeTable) : Nat := table.records.size

/-- Whether an id names a type of the table. -/
def knows (table : TypeTable) (id : TypeId) : Bool :=
  id.toNat < table.size

/-- The record of a known type. -/
def record (table : TypeTable) (id : TypeId) : Except Failure TypeRecord :=
  Failure.unknownType.ofNone table.records[id.toNat]?

/-- Enter a type at the end. -/
def add (table : TypeTable) (record : TypeRecord) : TypeId × TypeTable :=
  (UInt32.ofNat table.size, { table with records := table.records.push record })

/-- Enter a type and remember which request it answers. -/
def intern (table : TypeTable) (shape : Shape) (record : TypeRecord) :
    TypeId × TypeTable :=
  let (id, extended) := table.add record
  (id, { extended with interned := extended.interned.insert shape id })

def empty : TypeTable := ⟨#[], ∅⟩

/-- The table from which all others grow. -/
def seed : TypeTable :=
  primitives.foldl
    (fun table kind => (table.intern (.primitive kind) (.ofPrimitive kind)).2) empty

/-- The type of a primitive kind, or of no value at all. -/
def primitive (table : TypeTable) (kind : Kind) : Except Failure (TypeId × TypeTable) :=
  if kind.isPrimitive ∨ kind = .void then
    match table.interned[Shape.primitive kind]? with
    | some id => .ok (id, table)
    | none => .ok (table.intern (.primitive kind) (.ofPrimitive kind))
  else .error .notPrimitive

/-- The type of the addresses of a type. -/
def indirect (table : TypeTable) (via : Indirection) (target : TypeId) :
    Except Failure (TypeId × TypeTable) :=
  match table.interned[Shape.indirect via target]? with
  | some id => .ok (id, table)
  | none =>
      (table.record target).map fun record =>
        table.intern (.indirect via target) (.ofIndirection via target record)

/-- Enter an enumeration, which has to count in a primitive type. -/
def addEnum (table : TypeTable) (decl : EnumDecl) : Except Failure (TypeId × TypeTable) := do
  let underlying ← table.record decl.underlying
  if underlying.kind.isPrimitive then .ok (table.add (.ofEnum decl))
  else .error (.underlyingNotPrimitive decl.name)

/-- Enter an aggregate, whose base, if it has one, has to be known. -/
def addAggregate (table : TypeTable) (decl : AggregateDecl) :
    Except Failure (TypeId × TypeTable) :=
  if !decl.kind.isAggregate then .error (.notAggregate decl.name)
  else if !decl.base.all table.knows then .error .unknownType
  else .ok (table.add (.ofAggregate decl))

/-- Enter a type that is not made from others in a way the table knows, such as
a generic parameter or a function pointer. -/
def addUnshaped (table : TypeTable) (kind : Kind) (name : String) : TypeId × TypeTable :=
  table.add { kind, name }

/-- Publish the field layout of an aggregate, in place of an earlier one. -/
def publish (table : TypeTable) (id : TypeId) (fields : List Field) :
    Except Failure TypeTable := do
  let record ← table.record id
  if !record.kind.isAggregate then .error (.fieldsNotAllowed record.name)
  else if !fields.all (fun field => table.knows field.type) then .error .unknownType
  else
    let published := { record with fields := some (renumber fields) }
    .ok { table with records := table.records.setIfInBounds id.toNat published }

/-- The name of a type with its namespace. -/
def fullName (table : TypeTable) (id : TypeId) : Except Failure String :=
  (table.record id).map TypeRecord.fullName

/-- The integer as wide as an address. -/
def nativeInt (table : TypeTable) : Except Failure TypeId :=
  Failure.unknownType.ofNone table.interned[Shape.primitive .intPtr]?

/-- The records from an id to the last. -/
def recordsFrom (table : TypeTable) (id : TypeId) : List TypeRecord :=
  table.records.toList.drop id.toNat

end TypeTable

end DebugInfo
