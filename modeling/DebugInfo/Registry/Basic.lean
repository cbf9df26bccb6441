import Std.Data.HashMap
import DebugInfo.Action
import DebugInfo.DottedPath
import DebugInfo.Registry.Slots
import DebugInfo.Registry.Writer
import DebugInfo.Settings

/-!
The registry of descriptors of a compilation unit. It remembers what was
described: types and classes by their ids, namespaces by their paths. Classes of
the unit are first declared and put into a queue, to be written with their
members later.

A registry is *active* while it is switched on and has a writer. One that is not
answers every question with nothing and stays as it is.
-/

namespace DebugInfo

inductive ClassState where
  /-- Defined in another unit, so its members are never written. -/
  | foreign
  /-- Declared, to be written with its members. -/
  | pending
  | complete
  deriving DecidableEq, Repr

structure ClassEntry where
  state : ClassState
  slot : Nat
  deriving DecidableEq, Repr

/-- Paths of namespaces are hashed by their segments as texts. -/
instance hashablePath : Hashable (List (List Char)) where
  hash path := hash (path.map String.ofList)

structure Registry (δ : Type) where
  switchedOn : Bool
  trace : Bool
  writer : Option (Writer δ)
  /-- The descriptors of types and classes. -/
  slots : Slots δ
  /-- The slots of described types. -/
  types : Std.HashMap TypeId Nat
  classes : Std.HashMap TypeId ClassEntry
  /-- Classes to be completed, the oldest first. -/
  queue : List TypeId
  /-- Classes that had no field layout when their turn came. -/
  deferred : List TypeId
  /-- The namespaces by the segments of their paths. -/
  namespaces : Std.HashMap (List (List Char)) δ

namespace Registry

variable {δ : Type}

/-- A registry before the settings are read: switched on, with whatever writer
it is given. -/
def initial (writer : Option (Writer δ)) : Registry δ where
  switchedOn := true
  trace := false
  writer := writer
  slots := .empty
  types := ∅
  classes := ∅
  queue := []
  deferred := []
  namespaces := ∅

/-- The writer that is in use. -/
def activeWriter? (registry : Registry δ) : Option (Writer δ) :=
  if registry.switchedOn then registry.writer else none

def isActive (registry : Registry δ) : Bool := registry.activeWriter?.isSome

/-- Read the settings. The writer from before is given up; a new one is asked for
only if the settings say so. -/
def configure (settings : Settings) (newWriter : Except Failure (Writer δ)) :
    Action (Registry δ) Unit := do
  modify fun registry =>
    { registry with switchedOn := settings.enabled, trace := settings.trace, writer := none }
  if settings.enabled then
    let writer ← Action.ofExcept newWriter
    modify fun registry => { registry with writer := some writer }

/-- Put a descriptor into a new slot. -/
def addDescriptor (descriptor : δ) : Action (Registry δ) Nat := do
  let registry ← get
  let (slot, slots) := registry.slots.add descriptor
  set { registry with slots }
  return slot

def descriptorAt (slot : Nat) : Action (Registry δ) δ := do
  Action.ofExcept ((← get).slots.get slot)

/-- The descriptor of a type that was described before. -/
def described? (id : TypeId) : Action (Registry δ) (Option δ) := do
  match (← get).types[id]? with
  | some slot => return some (← descriptorAt slot)
  | none => return none

/-- Remember in which slot a type is described. -/
def rememberType (id : TypeId) (slot : Nat) : Action (Registry δ) Unit :=
  modify fun registry => { registry with types := registry.types.insert id slot }

/-- Describe a type by the same slot as another one. -/
def shareType (id other : TypeId) : Action (Registry δ) Unit := do
  let slot ← Action.ofExcept (Failure.noSlot.ofNone (← get).types[other]?)
  rememberType id slot

def rememberClass (id : TypeId) (entry : ClassEntry) : Action (Registry δ) Unit :=
  modify fun registry => { registry with classes := registry.classes.insert id entry }

/-- The namespace at the end of a path, each part inside the one before. Parts
that were not described yet are described now. -/
def openNamespace (writer : Writer δ) (path : List (List Char)) (enclosing : Option δ) :
    List (List Char) → Action (Registry δ) (Option δ)
  | [] => return enclosing
  | segment :: rest => do
      let inner := path ++ [segment]
      match (← get).namespaces[inner]? with
      | some descriptor => openNamespace writer inner (some descriptor) rest
      | none =>
          let descriptor ← Action.ofExcept
            (writer.write (.nameSpace enclosing (String.ofList segment)))
          modify fun registry =>
            { registry with namespaces := registry.namespaces.insert inner descriptor }
          openNamespace writer inner (some descriptor) rest

/-- The namespace with a dotted path. The empty path is the unit itself, which
has no descriptor. -/
def namespaceAt (writer : Writer δ) (path : String) : Action (Registry δ) (Option δ) :=
  openNamespace writer [] none (DottedPath.segments path.toList)

/-- The namespace with a dotted path, if it was described before. -/
def lookupNamespace (registry : Registry δ) (path : String) : Option δ :=
  match DottedPath.segments path.toList with
  | [] => none
  | segments => registry.namespaces[segments]?

def classAt? (registry : Registry δ) (id : TypeId) : Option ClassEntry :=
  registry.classes[id]?

def isQueued (registry : Registry δ) (id : TypeId) : Bool :=
  registry.queue.contains id || registry.deferred.contains id

/-- The classes that still have to be completed, in the order of their ids. -/
def incomplete (registry : Registry δ) : List TypeId :=
  let pending := registry.classes.toList.filter fun entry => entry.2.state = .pending
  (pending.map Prod.fst).mergeSort

end Registry

end DebugInfo
