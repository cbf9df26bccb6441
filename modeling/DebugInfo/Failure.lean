/-!
Why a request can fail. A request is either *rejected*, because what it asks
for breaks a rule of the type table, or one of its *look-ups* comes back empty,
because an id or an index names nothing. Only rejections carry a text of their
own. The last two causes are neither: one stops a walk along links that lead
back to themselves, the other marks the point where a descriptor would have to
be written and nothing is there to write it.
-/

namespace DebugInfo

inductive Failure where
  /-- A primitive type was asked for by a kind that is not primitive. -/
  | notPrimitive
  /-- The enumeration `name` is to count in a type that is not primitive. -/
  | underlyingNotPrimitive (name : String)
  /-- The aggregate `name` is declared with a kind that has no fields. -/
  | notAggregate (name : String)
  /-- A field layout was published for `name`, whose kind has no fields. -/
  | fieldsNotAllowed (name : String)
  /-- An id that no type of the table has. -/
  | unknownType
  /-- A position behind the last instruction of the body. -/
  | noInstruction
  /-- An index or a link that leads to no scope. -/
  | noScope
  /-- A variable that names a local the function does not have. -/
  | noLocal
  /-- A way through the scope tree that leaves it. -/
  | noNode
  /-- Work on the innermost scope while none is open. -/
  | noRoot
  | noSlot
  /-- A queued class that was never declared. -/
  | noClass
  /-- Links that lead back to where they came from. -/
  | cyclicLinks
  /-- A descriptor has to be written and there is no writer that would. -/
  | writerRequired
  deriving DecidableEq, Repr

/-- The text of a rejection. Nothing else has one. -/
def Failure.message? : Failure → Option String
  | notPrimitive => some "not a primitive metadata kind"
  | underlyingNotPrimitive name =>
      some ("enum underlying type must be primitive: " ++ name)
  | notAggregate name => some ("not an aggregate metadata kind: " ++ name)
  | fieldsNotAllowed name => some ("fields on non-aggregate type: " ++ name)
  | _ => none

/-- Whether a failure is an id or an index that names nothing. -/
def Failure.isLookup : Failure → Bool
  | unknownType | noInstruction | noScope | noLocal | noNode | noRoot | noSlot
  | noClass => true
  | _ => false

/-- What stands behind a look-up, or the given cause of failure. -/
def Failure.ofNone {α : Type} (failure : Failure) : Option α → Except Failure α
  | some value => .ok value
  | none => .error failure

@[simp] theorem Failure.ofNone_some {α : Type} (failure : Failure) (value : α) :
    failure.ofNone (some value) = .ok value := rfl

@[simp] theorem Failure.ofNone_none {α : Type} (failure : Failure) :
    failure.ofNone (none : Option α) = .error failure := rfl

end DebugInfo
