import DebugInfo.Registry.Classes

/-!
The requests to a registry as data. Each is asked of a registry together with
the type table as it is at that moment; the table is only read.
-/

namespace DebugInfo.Registry

variable {δ : Type}

inductive Request (δ : Type) where
  | typeOf (id : TypeId)
  | classOf (id : TypeId)
  | namespaceOf (path : String)
  | lookupNamespace (path : String)
  | drain
  | sealClasses
  | finish
  | classEntry (id : TypeId)
  | isQueued (id : TypeId)
  | describeVariable (scope : Option δ) (type : TypeId) (name : String)
  deriving DecidableEq, Repr

inductive Answer (δ : Type) where
  | done
  | descriptor (descriptor : Option δ)
  | classEntry (entry : Option ClassEntry)
  | flag (flag : Bool)
  deriving DecidableEq, Repr

def perform (table : TypeTable) : Request δ → Action (Registry δ) (Answer δ)
  | .typeOf id => .descriptor <$> typeOf table id
  | .classOf id => .descriptor <$> classOf table id
  | .namespaceOf path => .descriptor <$> namespaceOf path
  | .lookupNamespace path => return .descriptor ((← get).lookupNamespace path)
  | .drain => do
      drain table
      return .done
  | .sealClasses => do
      sealClasses table
      return .done
  | .finish => do
      finish table
      return .done
  | .classEntry id => return .classEntry ((← get).classAt? id)
  | .isQueued id => return .flag ((← get).isQueued id)
  | .describeVariable scope type name =>
      .descriptor <$> describeVariable table scope type { name }

/-- Answer one request. -/
def step (table : TypeTable) (registry : Registry δ) (request : Request δ) :
    Except Failure (Answer δ) × Registry δ :=
  (perform table request).answer registry

end DebugInfo.Registry
