import DebugInfo.Kind

/-!
What the type table keeps about one type. Ids are 32-bit words, positions in
the table. A record has a kind, a name and a *form*, which says how the type is
made from other types; the form is independent of the kind, because a type of
any kind can be entered without a form. The field layout is a part of its own,
since it may be published long after the type was entered.
-/

namespace DebugInfo

abbrev TypeId := UInt32

/-- How a value lives on the evaluation stack: in place, or as a reference to
an object on the heap. -/
inductive StackKind where
  | value
  | object
  deriving DecidableEq, Repr

structure Field where
  name : String := ""
  type : TypeId := 0
  /-- Position in the lowered structure. -/
  index : UInt32 := 0
  /-- Byte offset, of use only in an aggregate that lays its fields out
  itself. -/
  offset : UInt64 := 0
  deriving DecidableEq, Repr

/-- The two ways to reach a type through an address. -/
inductive Indirection where
  | pointer
  | byReference
  deriving DecidableEq, Hashable, Repr

namespace Indirection

def kind : Indirection → Kind
  | pointer => .pointer
  | byReference => .byReference

/-- What stands behind the name of the type that is reached. -/
def mark : Indirection → String
  | pointer => "*"
  | byReference => "&"

end Indirection

/-- How a type is made from other types. -/
inductive Form where
  /-- Not made from other types, or in a way that nobody asks about. -/
  | plain
  /-- An address of `element`. -/
  | indirection (element : TypeId)
  /-- Named values of the primitive type `underlying`. -/
  | enumeration (underlying : TypeId) (isLocal : Bool)
  | aggregate (stack : StackKind) (isLocal : Bool) (base : Option TypeId)
      (explicitLayout : Bool)
  deriving DecidableEq, Repr

structure TypeRecord where
  kind : Kind
  /-- Dotted path of the enclosing namespace, empty for none. -/
  ns : String := ""
  name : String
  form : Form := .plain
  /-- Absent until the layout is published. -/
  fields : Option (List Field) := none
  deriving DecidableEq, Repr

namespace TypeRecord

/-- The type behind an address, 0 in any other form. -/
def element (record : TypeRecord) : TypeId :=
  match record.form with
  | .indirection element => element
  | _ => 0

/-- The type in which an enumeration counts, 0 in any other form. -/
def underlying (record : TypeRecord) : TypeId :=
  match record.form with
  | .enumeration underlying _ => underlying
  | _ => 0

def isEnum (record : TypeRecord) : Bool :=
  match record.form with
  | .enumeration .. => true
  | _ => false

/-- Whether the type is defined in the unit being compiled. -/
def isLocal (record : TypeRecord) : Bool :=
  match record.form with
  | .enumeration _ isLocal => isLocal
  | .aggregate _ isLocal _ _ => isLocal
  | _ => false

/-- Only aggregates can live on the heap. -/
def stack (record : TypeRecord) : StackKind :=
  match record.form with
  | .aggregate stack _ _ _ => stack
  | _ => .value

def base (record : TypeRecord) : Option TypeId :=
  match record.form with
  | .aggregate _ _ base _ => base
  | _ => none

/-- Whether an aggregate gives the offsets of its fields itself. -/
def explicitLayout (record : TypeRecord) : Bool :=
  match record.form with
  | .aggregate _ _ _ explicitLayout => explicitLayout
  | _ => false

/-- The name with its namespace in front, if it has one. -/
def fullName (record : TypeRecord) : String :=
  if record.ns.isEmpty then record.name else record.ns ++ "." ++ record.name

end TypeRecord

/-- Number fields by their position, whatever numbers they carried. -/
def renumber (fields : List Field) : List Field :=
  fields.mapIdx fun position field => { field with index := UInt32.ofNat position }

@[simp] theorem length_renumber (fields : List Field) :
    (renumber fields).length = fields.length := by
  simp [renumber]

theorem getElem?_renumber (fields : List Field) (position : Nat) :
    (renumber fields)[position]? =
      fields[position]?.map fun field => { field with index := UInt32.ofNat position } := by
  simp [renumber]

end DebugInfo
