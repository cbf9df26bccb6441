import DebugInfo.History
import DebugInfo.TypeTable.Basic

/-!
The requests to the type table as data, so that a whole history of a table is a
list. Answering a request gives what it asked for, or why it failed, and the
table that the next request meets; after a failure this is the table from
before.
-/

namespace DebugInfo.TypeTable

inductive Request where
  | primitive (kind : Kind)
  | indirect (via : Indirection) (target : TypeId)
  | addEnum (decl : EnumDecl)
  | addAggregate (decl : AggregateDecl)
  | addUnshaped (kind : Kind) (name : String)
  | publish (id : TypeId) (fields : List Field)
  | record (id : TypeId)
  | fullName (id : TypeId)
  | nativeInt
  | recordsFrom (id : TypeId)
  deriving DecidableEq, Repr

inductive Answer where
  | id (id : TypeId)
  | published
  | record (record : TypeRecord)
  | text (text : String)
  | records (records : List TypeRecord)
  deriving DecidableEq, Repr

/-- Answer with the id of an entered or interned type. -/
def answerId (table : TypeTable) :
    Except Failure (TypeId × TypeTable) → Except Failure Answer × TypeTable
  | .ok (id, next) => (.ok (.id id), next)
  | .error failure => (.error failure, table)

/-- Answer one request. -/
def step (table : TypeTable) : Request → Except Failure Answer × TypeTable
  | .primitive kind => table.answerId (table.primitive kind)
  | .indirect via target => table.answerId (table.indirect via target)
  | .addEnum decl => table.answerId (table.addEnum decl)
  | .addAggregate decl => table.answerId (table.addAggregate decl)
  | .addUnshaped kind name => table.answerId (.ok (table.addUnshaped kind name))
  | .publish id fields =>
      match table.publish id fields with
      | .ok next => (.ok .published, next)
      | .error failure => (.error failure, table)
  | .record id => ((table.record id).map .record, table)
  | .fullName id => ((table.fullName id).map .text, table)
  | .nativeInt => (table.nativeInt.map .id, table)
  | .recordsFrom id => (.ok (.records (table.recordsFrom id)), table)

/-- Answer requests in order, each on the table that the one before left. -/
def run (table : TypeTable) (requests : List Request) :
    List (Except Failure Answer × TypeTable) :=
  History.trail step table requests

/-- The table after a run. -/
def after (table : TypeTable) (requests : List Request) : TypeTable :=
  History.after step table requests

end DebugInfo.TypeTable
