import DebugInfo.CompilationUnit
import DebugInfo.LinkageName
import DebugInfo.Prologue
import DebugInfo.Session
import DebugInfo.Tracker.Lemmas
import DebugInfo.Tracker.Request
import DebugInfo.TypeTable.Lemmas
import DebugInfo.Proofs.TreeCopy
import DebugInfo.Proofs.TableGrowth
import DebugInfo.Proofs.TypeLinks
import DebugInfo.Proofs.Interning
import DebugInfo.Proofs.TableSearch
import DebugInfo.Proofs.TableFailures
import DebugInfo.Proofs.Describing
import DebugInfo.Proofs.AppendOnly
import DebugInfo.Proofs.SourcePosition
import DebugInfo.Proofs.FreshStart
import DebugInfo.Proofs.StepLaw
import DebugInfo.Proofs.Idempotence
import DebugInfo.Proofs.SwitchedOff
import DebugInfo.Proofs.ClassQueue
import DebugInfo.Proofs.Prologues
import DebugInfo.Proofs.UnknownIds
import DebugInfo.Proofs.AdvanceFailures
import DebugInfo.Proofs.ForwardCursor
import DebugInfo.Proofs.ParentLinks
import DebugInfo.Proofs.StrayIndices
import DebugInfo.Proofs.Numerals
import DebugInfo.Proofs.DwarfVersion
import DebugInfo.Proofs.LinkageNames
import DebugInfo.Proofs.LateLayouts
import DebugInfo.Proofs.AddressTowers
