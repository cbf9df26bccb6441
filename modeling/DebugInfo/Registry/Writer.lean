import DebugInfo.Failure
import DebugInfo.Layout
import DebugInfo.TypeTable.Basic

/-!
What writes descriptors. The registry decides what is to be described, once
each and in which order; a writer turns a description into a descriptor of
whatever type `δ` the output format has, and knows how types are laid out on the
target. Nothing is assumed about a writer, and it may decline any description.
-/

namespace DebugInfo

/-- What is said of a variable besides its scope and its type. -/
structure VariableNote (δ : Type) where
  name : String
  /-- The source file, where there is one. -/
  file : Option δ := none
  /-- 0 for no line. -/
  line : Nat := 0
  /-- Which parameter it is, counted from 1. Absent for a local. -/
  parameter : Option Nat := none

/-- What a descriptor is to say. It names others by their descriptors. -/
inductive Description (δ : Type) where
  /-- One namespace inside another, or at the level of the unit. -/
  | nameSpace (enclosing : Option δ) (segment : String)
  | primitive (kind : Kind) (size : Nat)
  | address (target : δ) (name : String)
  /-- A class without its members. A local one is written again later. -/
  | declaration (enclosing : Option δ) (name fullName : String) (size align : Nat)
      (isLocal : Bool)
  | member (owner : δ) (name : String) (type : δ) (size align offset : Nat)
  /-- A class with its members, in place of its declaration. -/
  | definition (declaration : δ) (enclosing : Option δ) (name fullName : String)
      (size align : Nat) (base : Option δ) (members : List δ)
  /-- A source file, or the file of the unit itself. -/
  | file (url : Option String)
  /-- A method of a class. -/
  | subprogram (owner : δ) (name linkageName : String) (file : δ) (line : Nat)
  | variable (scope : δ) (note : VariableNote δ) (type : δ)

/-- The three structures that belong to a type. -/
inductive Aspect where
  /-- What a local of the type occupies: an address, if it lives on the heap. -/
  | storage
  /-- A whole value, with the header of a heap object. -/
  | whole
  /-- The fields alone. -/
  | fields
  deriving DecidableEq, Repr

structure Writer (δ : Type) where
  write : Description δ → Except Failure δ
  layout : Aspect → TypeTable → TypeId → Option Layout
  /-- Where the data of a heap object starts. -/
  headerInBits : TypeTable → TypeId → Nat
  finish : Except Failure Unit

/-- A writer that declines everything. -/
def Writer.declining (δ : Type) : Writer δ where
  write _ := .error .writerRequired
  layout _ _ _ := none
  headerInBits _ _ := 0
  finish := .error .writerRequired

end DebugInfo
