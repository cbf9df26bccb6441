import DebugInfo.Failure

/-!
Method bodies as debug information sees them: instructions, some of which carry
a sequence point, and a tree of lexical scopes, each of which covers the
instructions from its start to its stop, both included. Nothing is demanded of
the tree. Its positions may lie outside the body, a stop may come before its
start, and siblings may overlap.

A *place* is a node of the tree together with the way to it from the root, so
two nodes with the same contents are still told apart. `Place.descent` is the
chain of places that begin at one instruction, each inside the one before.
-/

namespace DebugInfo

/-- A position in a source document. -/
structure SequencePoint where
  url : String := ""
  line : Nat
  column : Nat
  deriving DecidableEq, Repr

structure Instruction where
  /-- Where the instruction stands in the method's code. -/
  offset : Nat
  point : Option SequencePoint := none
  deriving DecidableEq, Repr

structure LocalVariable where
  /-- Which local of the method the variable names. -/
  index : Nat
  name : String := ""
  deriving DecidableEq, Repr

/-- A lexical scope with the scopes inside it, in any order. -/
structure ScopeNode where
  start : Nat
  stop : Nat
  declared : List LocalVariable
  scopes : List ScopeNode
  deriving Repr

structure Body where
  instructions : Array Instruction
  /-- Absent when no scopes were recorded. -/
  root : Option ScopeNode
  deriving Repr

/-- A node of a scope tree and the way to it: which child to take at each step
from the root. -/
structure Place where
  path : List Nat
  node : ScopeNode
  deriving Repr

namespace Place

/-- The places directly inside a place, in the order of the tree. -/
def children (place : Place) : List Place :=
  place.node.scopes.mapIdx fun position node => ⟨place.path ++ [position], node⟩

/-- The place reached by following a way down. -/
def descend (place : Place) : List Nat → Option Place
  | [] => some place
  | position :: rest => do
      let child ← place.children[position]?
      child.descend rest

/-- The first-listed place directly inside that starts at an instruction. -/
def childAt? (place : Place) (index : Nat) : Option Place :=
  place.children.find? fun child => child.node.start == index

theorem sizeOf_node_lt_of_mem_children {place child : Place}
    (hchild : child ∈ place.children) : sizeOf child.node < sizeOf place.node := by
  obtain ⟨path, start, stop, declared, scopes⟩ := place
  obtain ⟨position, hposition, rfl⟩ := List.mem_mapIdx.mp hchild
  have hmem := List.sizeOf_lt_of_mem (List.getElem_mem hposition)
  simp at hmem ⊢
  omega

/-- The places that open at an instruction, the outermost first: the child that
starts there, then the child of that child that starts there, and so on. -/
def descent (place : Place) (index : Nat) : List Place :=
  match _hchild : place.childAt? index with
  | none => []
  | some child => child :: child.descent index
termination_by sizeOf place.node
decreasing_by exact sizeOf_node_lt_of_mem_children (List.mem_of_find?_eq_some _hchild)

end Place

namespace Body

def instruction (body : Body) (index : Nat) : Except Failure Instruction :=
  Failure.noInstruction.ofNone body.instructions[index]?

/-- The root of the scope tree as a place. -/
def rootPlace (body : Body) : Option Place :=
  body.root.map (⟨[], ·⟩)

/-- The place reached by a way down from the root. -/
def place (body : Body) (path : List Nat) : Except Failure Place :=
  Failure.noNode.ofNone (body.rootPlace.bind (·.descend path))

/-- The sequence point at which a scope starts, if that instruction has one. -/
def startPoint (body : Body) (node : ScopeNode) : Except Failure (Option SequencePoint) :=
  (body.instruction node.start).map Instruction.point

end Body

end DebugInfo
