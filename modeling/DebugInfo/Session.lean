import Mathlib.Logic.Function.Basic
import DebugInfo.CompilationUnit
import DebugInfo.Prologue

/-!
A compilation unit together with the functions that are compiled in it. All of them share
the registry of the unit, and each has a tracker of its own. A history of the session mixes
requests to the unit with prologues of its functions.
-/

namespace DebugInfo

structure Session (δ : Type) where
  unit : CompilationUnit δ
  functions : Nat → FunctionState δ

namespace Session

variable {δ : Type}

inductive Request (δ : Type) where
  | unit (request : CompilationUnit.Request δ)
  | prepare (function : Nat)

inductive Answer (δ : Type) where
  | unit (answer : CompilationUnit.Answer δ)
  | subprogram (descriptor : Option δ)
  deriving DecidableEq, Repr

/-- Answer one request. -/
def step (session : Session δ) : Request δ → Except Failure (Answer δ) × Session δ
  | .unit request =>
      let (answer, unit) := session.unit.step request
      (answer.map .unit, { session with unit })
  | .prepare index =>
      let (answer, prologue) := (Prologue.prepare session.unit.table).answer
        ⟨session.unit.registry, session.functions index⟩
      (answer.map .subprogram,
        { unit := { session.unit with registry := prologue.registry }
          functions := Function.update session.functions index prologue.function })

/-- The session after a row of requests, each answered where the one before left it. -/
def after (session : Session δ) (requests : List (Request δ)) : Session δ :=
  History.after step session requests

end Session

end DebugInfo
