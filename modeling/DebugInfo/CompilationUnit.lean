import DebugInfo.History
import DebugInfo.Registry.Request
import DebugInfo.Tracker.Basic
import DebugInfo.TypeTable.Request

/-!
A compilation unit: its settings, its type table and its registry of
descriptors. Types are entered while the registry describes others, so a history
of the unit mixes requests to both. A request to the registry never changes the
table, and a request to the table never changes the registry.
-/

namespace DebugInfo

structure CompilationUnit (δ : Type) where
  settings : Settings
  table : TypeTable
  registry : Registry δ

namespace CompilationUnit

variable {δ : Type}

/-- A unit in which nothing was done. Its registry may have a writer before the
settings are read. -/
def initial (settings : Settings) (writer : Option (Writer δ)) : CompilationUnit δ where
  settings := settings
  table := .seed
  registry := .initial writer

inductive Request (δ : Type) where
  | table (request : TypeTable.Request)
  | registry (request : Registry.Request δ)
  /-- Let the registry read the settings, with the writer that it gets if they
  call for one. -/
  | configure (newWriter : Except Failure (Writer δ))
  /-- Give the unit other settings. The registry goes on with those that it has
  read. -/
  | adopt (settings : Settings)
  | settings

inductive Answer (δ : Type) where
  | table (answer : TypeTable.Answer)
  | registry (answer : Registry.Answer δ)
  | configured
  | settings (settings : Settings)
  deriving DecidableEq, Repr

/-- Answer one request. -/
def step (unit : CompilationUnit δ) :
    Request δ → Except Failure (Answer δ) × CompilationUnit δ
  | .table request =>
      let (answer, table) := unit.table.step request
      (answer.map .table, { unit with table })
  | .registry request =>
      let (answer, registry) := unit.registry.step unit.table request
      (answer.map .registry, { unit with registry })
  | .configure newWriter =>
      let (answer, registry) :=
        (Registry.configure unit.settings newWriter).answer unit.registry
      (answer.map fun _ => .configured, { unit with registry })
  | .adopt settings => (.ok (.settings settings), { unit with settings })
  | .settings => (.ok (.settings unit.settings), unit)

/-- Answer requests in order, each on the unit that the one before left. -/
def run (unit : CompilationUnit δ) (requests : List (Request δ)) :
    List (Except Failure (Answer δ) × CompilationUnit δ) :=
  History.trail step unit requests

/-- The unit after a run. -/
def after (unit : CompilationUnit δ) (requests : List (Request δ)) : CompilationUnit δ :=
  History.after step unit requests

/-- What a tracker is told about a function of the unit: its body and locals,
and, while the registry is active, whether the declaring class can be had. -/
def functionContext (unit : CompilationUnit δ) (declaring : TypeId) (body : Body)
    (locals : Array TypeId) : FunctionContext where
  body := body
  locals := locals
  mode :=
    if unit.registry.isActive then
      .describing (((Registry.classOf unit.table declaring).answer unit.registry).1.map
        fun _ => ())
    else .silent

end CompilationUnit

end DebugInfo
