import DebugInfo.LinkageName
import DebugInfo.Registry.Classes
import DebugInfo.Tracker.Basic

/-!
The prologue of a function, the work that is done once before its instructions are
followed. Its scopes are begun anew. While the registry is active the function is then
described as a method of its class, the position moves to its first instruction, and its
locals and parameters are described. A body with a scope tree names its locals in the
tree, and those of the root are described here; without a tree all locals are described,
under the names that come with the body. What has no name is named by its position.

The prologue works on the registry and on the state of one function. Where it fails, what
was done before stays done. The storage of variables is not part of the model.
-/

namespace DebugInfo

/-- A parameter and the name of its storage. -/
structure Parameter where
  type : TypeId
  name : String := ""
  deriving DecidableEq, Repr

/-- A function as it is handed over to be compiled. -/
structure FunctionInput where
  declaring : TypeId
  name : String
  body : Body
  /-- The types of the locals. -/
  locals : Array TypeId
  /-- The names of the locals, for a body without a scope tree. -/
  localNames : Array String := #[]
  parameters : List Parameter := []
  deriving Repr

/-- What is kept while a function is compiled. -/
structure FunctionState (δ : Type) where
  input : FunctionInput
  tracker : Tracker
  /-- The descriptors of scopes, by their indices. -/
  described : Nat → Option δ
  file : Option δ
  subprogram : Option δ

/-- The sequence point of the first instruction. -/
def FunctionInput.startPoint (input : FunctionInput) : Option SequencePoint :=
  input.body.instructions[0]?.bind Instruction.point

/-- The name of a variable. One without a name is called by a stem and its position. -/
def variableName (stem : String) (index : Nat) (name : String) : String :=
  if name.isEmpty then stem ++ toString index else name

/-- The registry and the function that its prologue works on. -/
structure Prologue (δ : Type) where
  registry : Registry δ
  function : FunctionState δ

namespace Prologue

variable {δ α : Type}

def onRegistry (action : Action (Registry δ) α) : Action (Prologue δ) α :=
  Action.ofStep fun prologue =>
    let (result, registry) := action.answer prologue.registry
    (result, { prologue with registry })

def onTracker (action : Action Tracker α) : Action (Prologue δ) α :=
  Action.ofStep fun prologue =>
    let (result, tracker) := action.answer prologue.function.tracker
    (result, { prologue with function := { prologue.function with tracker } })

def modifyFunction (change : FunctionState δ → FunctionState δ) : Action (Prologue δ) Unit :=
  modify fun prologue => { prologue with function := change prologue.function }

@[simp] theorem answer_onRegistry (action : Action (Registry δ) α) (prologue : Prologue δ) :
    (onRegistry action).answer prologue = ((action.answer prologue.registry).1,
      { prologue with registry := (action.answer prologue.registry).2 }) :=
  Action.answer_ofStep _ prologue

@[simp] theorem answer_onTracker (action : Action Tracker α) (prologue : Prologue δ) :
    (onTracker action).answer prologue = ((action.answer prologue.function.tracker).1,
      { prologue with function :=
          { prologue.function with
            tracker := (action.answer prologue.function.tracker).2 } }) :=
  Action.answer_ofStep _ prologue

@[simp] theorem answer_modifyFunction (change : FunctionState δ → FunctionState δ)
    (prologue : Prologue δ) :
    (modifyFunction change).answer prologue =
      (.ok (), { prologue with function := change prologue.function }) := rfl

/-- Forget all scopes with their descriptors, and open the root. -/
def beginScopes : Action (Prologue δ) Unit := do
  let prologue ← get
  onTracker (Tracker.pushRoot prologue.function.input.body.rootPlace)
  modifyFunction fun function => { function with described := fun _ => none }

/-- Describe the function as a method of its class. The descriptor also stands for its
root scope. -/
def describeFunction (writer : Writer δ) (table : TypeTable) : Action (Prologue δ) δ := do
  let input := (← get).function.input
  let owner ← onRegistry (Registry.declareClass writer table input.declaring)
  let start := input.startPoint
  let file ← Action.ofExcept (writer.write (.file (start.map SequencePoint.url)))
  modifyFunction fun function => { function with file := some file }
  let typeName ← Action.ofExcept (table.fullName input.declaring)
  let subprogram ← Action.ofExcept (writer.write (.subprogram owner input.name
    (linkageName typeName input.name) file (Position.ofPoint start).line))
  modifyFunction fun function =>
    { function with
      subprogram := some subprogram
      described := fun index => if index = 0 then some subprogram else function.described index
      tracker := { function.tracker with position := .ofPoint start } }
  return subprogram

/-- Describe a variable that begins to exist at a sequence point. -/
def describeVariable (table : TypeTable) (scope : δ) (point : Option SequencePoint)
    (type : TypeId) (name : String) (parameter : Option Nat) : Action (Prologue δ) Unit := do
  let file := (← get).function.file
  let line := (Position.ofPoint point).line
  let _ ← onRegistry
    (Registry.describeVariable table (some scope) type { name, file, line, parameter })

/-- Enter the root of the scope tree and describe its variables. The descriptors are not
the tracker's work, so it only moves. -/
def enterRoot (table : TypeTable) (subprogram : δ) (root : ScopeNode) :
    Action (Prologue δ) Unit := do
  let input := (← get).function.input
  onTracker (Tracker.enter ⟨input.body, input.locals, .silent⟩ 0)
  let point ← Action.ofExcept (input.body.startPoint root)
  root.declared.forM fun named => do
    let type ← Action.ofExcept (Failure.noLocal.ofNone input.locals[named.index]?)
    describeVariable table subprogram point type (variableName "var" named.index named.name)
      none

/-- Describe all locals, in a body without a scope tree. -/
def describeLocals (table : TypeTable) (subprogram : δ) : Action (Prologue δ) Unit := do
  let input := (← get).function.input
  input.locals.toList.zipIdx.forM fun (type, index) =>
    describeVariable table subprogram input.startPoint type
      (variableName "var" index (input.localNames[index]?.getD "")) none

def describeParameters (table : TypeTable) (subprogram : δ) : Action (Prologue δ) Unit := do
  let input := (← get).function.input
  input.parameters.zipIdx.forM fun (parameter, index) =>
    describeVariable table subprogram input.startPoint parameter.type
      (variableName "arg" index parameter.name) (some (index + 1))

/-- Describe the variables with which the function starts. -/
def describeVariables (table : TypeTable) (subprogram : δ) : Action (Prologue δ) Unit := do
  match (← get).function.input.body.root with
  | some root => enterRoot table subprogram root
  | none => describeLocals table subprogram
  describeParameters table subprogram

/-- Begin a function and, while the registry is active, describe it. -/
def prepare (table : TypeTable) : Action (Prologue δ) (Option δ) := do
  beginScopes
  match (← get).registry.activeWriter? with
  | none => return none
  | some writer =>
      let subprogram ← describeFunction writer table
      describeVariables table subprogram
      return some subprogram

end Prologue

end DebugInfo
