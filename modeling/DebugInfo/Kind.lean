/-!
The kinds of managed types, as metadata signatures tag them. A kind alone
decides two things: whether a type is primitive, so that it can underlie an
enumeration, and whether it is an aggregate, so that it can have a base and a
field layout. No kind is both, and some (pointers, generic parameters) are
neither.
-/

namespace DebugInfo

/-- A tag of the metadata signature encoding. -/
inductive Kind where
  | void
  | boolean
  | char
  | sbyte
  | byte
  | int16
  | uint16
  | int32
  | uint32
  | int64
  | uint64
  | single
  | double
  | string
  | pointer
  | byReference
  | valueType
  | classType
  | typeParameter
  | array
  | genericInstance
  | typedByReference
  | intPtr
  | uintPtr
  | functionPointer
  | object
  | methodParameter
  deriving DecidableEq, Hashable, Repr

namespace Kind

/-- The word by which metadata refers to a kind. -/
def name : Kind → String
  | void => "Void"
  | boolean => "Boolean"
  | char => "Char"
  | sbyte => "SByte"
  | byte => "Byte"
  | int16 => "Int16"
  | uint16 => "UInt16"
  | int32 => "Int32"
  | uint32 => "UInt32"
  | int64 => "Int64"
  | uint64 => "UInt64"
  | single => "Single"
  | double => "Double"
  | string => "String"
  | pointer => "Pointer"
  | byReference => "ByReference"
  | valueType => "ValueType"
  | classType => "Class"
  | typeParameter => "Var"
  | array => "Array"
  | genericInstance => "GenericInstance"
  | typedByReference => "TypedByReference"
  | intPtr => "IntPtr"
  | uintPtr => "UIntPtr"
  | functionPointer => "FunctionPointer"
  | object => "Object"
  | methodParameter => "MVar"

/-- Every kind, in the order of the signature tags. -/
def all : List Kind :=
  [void, boolean, char, sbyte, byte, int16, uint16, int32, uint32, int64,
    uint64, single, double, string, pointer, byReference, valueType, classType,
    typeParameter, array, genericInstance, typedByReference, intPtr, uintPtr,
    functionPointer, object, methodParameter]

/-- The kind with a given name. -/
def ofName? (text : String) : Option Kind :=
  all.find? fun kind => kind.name == text

/-- Numbers, characters and truth values. `void` has no values and is not
among them, and neither is `string`, which is a heap object. -/
def isPrimitive : Kind → Bool
  | boolean | char | sbyte | byte | int16 | uint16 | int32 | uint32 | int64
  | uint64 | single | double | intPtr | uintPtr => true
  | _ => false

/-- Types made of fields. -/
def isAggregate : Kind → Bool
  | array | string | typedByReference | genericInstance | valueType | classType
  | object => true
  | _ => false

theorem mem_all (kind : Kind) : kind ∈ all := by
  cases kind <;> decide

/-- Names tell kinds apart, so reading a name back gives the kind. -/
theorem ofName?_name (kind : Kind) : ofName? kind.name = some kind := by
  cases kind <;> decide

theorem not_isAggregate_of_isPrimitive {kind : Kind}
    (hprimitive : kind.isPrimitive = true) : kind.isAggregate = false := by
  cases kind <;> simp_all [isPrimitive, isAggregate]

end Kind

end DebugInfo
