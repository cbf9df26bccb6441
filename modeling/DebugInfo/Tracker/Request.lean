import DebugInfo.History
import DebugInfo.Tracker.Basic

/-!
The requests to a tracker as data, so that a whole walk is a list. Answering a
request gives what came of it and the tracker that is left, which a failure can
have changed too. Places are named by the way to them from the root of the
body's tree.
-/

namespace DebugInfo.Tracker

inductive Request where
  /-- Begin with the root of the body's tree, or, when `bare`, with a root
  that has no source. -/
  | pushRoot (bare : Bool)
  | prepare
  | advance (index : Nat)
  | create (parent : Nat) (path : List Nat)
  | enter (index : Nat)
  | parent (index : Nat)
  /-- Ask what would describe a scope if exactly the scopes in `described` and,
  where told so, the subprogram had descriptors. -/
  | nearest (index : Nat) (described : List Nat) (subprogram : Bool)
  deriving DecidableEq, Repr

/-- Whose descriptor it is. -/
inductive Owner where
  | scope (index : Nat)
  | subprogram
  deriving DecidableEq, Repr

inductive Answer where
  | done
  | index (index : Nat)
  | link (link : Link)
  | owner (owner : Option Owner)
  deriving DecidableEq, Repr

def perform (context : FunctionContext) : Request → Action Tracker Answer
  | .pushRoot bare => do
      pushRoot (if bare then none else context.body.rootPlace)
      return .index 0
  | .prepare => do
      prepare context
      return .done
  | .advance index => do
      advance context index
      return .done
  | .create parent path => do
      let place ← Action.ofExcept (context.body.place path)
      return .index (← create context parent place)
  | .enter index => do
      enter context index
      return .done
  | .parent index => do
      let scope ← Action.ofExcept ((← get).arena.scope index)
      return .link scope.parent
  | .nearest index described subprogram => do
      let owner ← Action.ofExcept <| (← get).arena.nearest
        (fun scope => if described.contains scope then some (.scope scope) else none)
        (if subprogram then some .subprogram else none) index
      return .owner owner

/-- Answer one request. -/
def step (context : FunctionContext) (tracker : Tracker) (request : Request) :
    Except Failure Answer × Tracker :=
  (perform context request).answer tracker

/-- Answer requests in order, each on the tracker that the one before left. -/
def run (context : FunctionContext) (tracker : Tracker) (requests : List Request) :
    List (Except Failure Answer × Tracker) :=
  History.trail (step context) tracker requests

/-- The tracker after a walk. -/
def after (context : FunctionContext) (tracker : Tracker) (requests : List Request) :
    Tracker :=
  History.after (step context) tracker requests

end DebugInfo.Tracker
