import DebugInfo.Action
import DebugInfo.Tracker.Arena
import DebugInfo.TypeTable.Record

/-!
The tracker walks the scope tree of a body in step with the instructions. It
keeps every scope it made, the stack of the scopes that are open, and the source
position that the next instructions belong to. `advance` closes the scopes that
an instruction has left behind and opens those that start there.

Scopes are closed by the byte offsets of their last instructions and opened by
the index of their first. The root is never closed. While functions are
described the tracker also checks what a description would read; it stops with
`writerRequired` where a descriptor would have to be written, since it has
none of its own.
-/

namespace DebugInfo

/-- A place in the source text. Line 0 means that there is none. -/
structure Position where
  line : Nat
  column : Nat
  deriving DecidableEq, Repr

def Position.ofPoint : Option SequencePoint → Position
  | some point => ⟨point.line, point.column⟩
  | none => ⟨0, 0⟩

/-- Whether functions are described, and then what came of looking up the class
that declares the function. -/
inductive Mode where
  | silent
  | describing (declaringClass : Except Failure Unit)
  deriving Repr

def Mode.isDescribing : Mode → Bool
  | silent => false
  | describing _ => true

/-- What the tracker is told about a function. -/
structure FunctionContext where
  body : Body
  /-- The types of the function's locals. -/
  locals : Array TypeId
  mode : Mode
  deriving Repr

structure Tracker where
  arena : Arena
  /-- The open scopes, the innermost first. -/
  stack : List Nat
  position : Position
  deriving Repr

/-- Close scopes from the innermost outwards for as long as they are finished.
The last one stays open. A scope of which this cannot be told stops the work,
with those inside it closed. -/
def closeFinished (finished : Nat → Except Failure Bool) :
    List Nat → Except Failure Unit × List Nat
  | top :: next :: outer =>
      match finished top with
      | .ok true => closeFinished finished (next :: outer)
      | .ok false => (.ok (), top :: next :: outer)
      | .error failure => (.error failure, top :: next :: outer)
  | stack => (.ok (), stack)

namespace Tracker

/-- The tracker of a function on which no work was done. -/
def initial : Tracker := ⟨#[], [], ⟨0, 0⟩⟩

/-- Whether a scope ends before an offset. A scope without a source never
does. -/
def isFinished (tracker : Tracker) (body : Body) (offset : Nat) (index : Nat) :
    Except Failure Bool := do
  let scope ← tracker.arena.scope index
  match scope.source with
  | none => .ok false
  | some place =>
      let last ← body.instruction place.node.stop
      .ok (last.offset < offset)

/-- The places that open at an instruction, inside the innermost open scope. -/
def opening (tracker : Tracker) (index : Nat) : List Place :=
  match tracker.stack.head?.bind (tracker.arena[·]?) with
  | some ⟨some place, _⟩ => place.descent index
  | _ => []

/-- Forget all scopes and open a root. The position stays. -/
def pushRoot (source : Option Place) : Action Tracker Unit :=
  modify fun tracker => { tracker with arena := #[⟨source, Link.none⟩], stack := [0] }

/-- The innermost open scope. -/
def top : Action Tracker Nat := do
  let tracker ← get
  Action.ofExcept (Failure.noRoot.ofNone tracker.stack.head?)

/-- Follow the links outwards from a scope and fail where they break. No scope
has a descriptor here, so there is nothing else to find. -/
def checkLinks (index : Nat) : Action Tracker Unit := do
  let tracker ← get
  let _ ← Action.ofExcept (tracker.arena.nearest (fun _ => (none : Option Unit)) none index)

/-- Move the position to a sequence point seen from a scope. -/
def locate (point : Option SequencePoint) (index : Nat) : Action Tracker Unit := do
  checkLinks index
  modify fun tracker => { tracker with position := .ofPoint point }

/-- Make a scope without opening it. While functions are described, a scope that
starts at a sequence point needs a descriptor inside that of its parent, so the
parent is looked up first. Otherwise the parent is not checked. -/
def create (context : FunctionContext) (parent : Nat) (place : Place) :
    Action Tracker Nat := do
  if context.mode.isDescribing then
    let point ← Action.ofExcept (context.body.startPoint place.node)
    if point.isSome then
      checkLinks parent
      throw .writerRequired
  let tracker ← get
  set { tracker with arena := tracker.arena.push ⟨some place, Link.ofIndex parent⟩ }
  return tracker.arena.size

/-- Check that the variables of a scope name locals of the function. -/
def checkVariables (context : FunctionContext) (node : ScopeNode) : Except Failure Unit :=
  if node.declared.all fun named => named.index < context.locals.size then .ok ()
  else .error .noLocal

/-- Move the position to the start of a scope. A scope without a source has
none. While functions are described its variables are looked up after that. -/
def enter (context : FunctionContext) (index : Nat) : Action Tracker Unit := do
  let tracker ← get
  let scope ← Action.ofExcept (tracker.arena.scope index)
  match scope.source with
  | none => pure ()
  | some place =>
      let point ← Action.ofExcept (context.body.startPoint place.node)
      locate point index
      if context.mode.isDescribing then
        Action.ofExcept (checkVariables context place.node)

/-- Make a scope inside the innermost open one, open it and enter it. -/
def openPlace (context : FunctionContext) (place : Place) : Action Tracker Unit := do
  let parent ← top
  let index ← create context parent place
  modify fun tracker => { tracker with stack := index :: tracker.stack }
  enter context index

/-- Close the scopes that end before an offset. -/
def leave (body : Body) (offset : Nat) : Action Tracker Unit :=
  Action.ofStep fun tracker =>
    let (result, stack) := closeFinished (tracker.isFinished body offset) tracker.stack
    (result, { tracker with stack })

/-- Follow the instructions to one of them. -/
def advance (context : FunctionContext) (index : Nat) : Action Tracker Unit := do
  let instruction ← Action.ofExcept (context.body.instruction index)
  leave context.body instruction.offset
  let tracker ← get
  (tracker.opening index).forM (openPlace context)
  if instruction.point.isSome then
    let scope ← top
    locate instruction.point scope

/-- Begin a function. The position is not moved to its start. While functions
are described the declaring class has to be known, and then a descriptor is
needed. -/
def prepare (context : FunctionContext) : Action Tracker Unit := do
  pushRoot context.body.rootPlace
  match context.mode with
  | .silent => pure ()
  | .describing declaringClass =>
      Action.ofExcept declaringClass
      throw .writerRequired

end Tracker

end DebugInfo
