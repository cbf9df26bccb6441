import DebugInfo.Numeral

/-!
What the environment says about debug information. Every setting has a default
that holds while its variable is unset or empty. A flag is decided by one exact
text and takes any other text for its opposite; the version of the format is a
word from 2 to 5 that is read off the whole text, and any other text leaves the
default.
-/

namespace DebugInfo

/-- The values of environment variables. -/
abbrev Environment := String → Option String

structure Settings where
  /-- Whether debug information is written at all. -/
  enabled : Bool := true
  /-- Whether the work is reported line by line. -/
  trace : Bool := false
  dwarfVersion : Nat := 4
  /-- Whether the output is marked for CodeView instead of DWARF. -/
  codeView : Bool := false
  producer : String := "clrdi"
  /-- Empty for the default target. -/
  targetTriple : String := ""
  deriving DecidableEq, Repr

/-- The value of a variable, where an empty one counts as unset. -/
def Environment.nonempty? (env : Environment) (key : String) : Option String :=
  (env key).filter fun value => !value.isEmpty

/-- The versions of the DWARF format that can be asked for. -/
def isDwarfVersion (version : UInt64) : Bool :=
  2 ≤ version && version ≤ 5

/-- The version that a text asks for, if it is a numeral to its end and there is
such a version. -/
def dwarfVersion? (text : String) : Option Nat :=
  let (version, rest) := Numeral.read text.toList
  if rest.isEmpty && isDwarfVersion version then some version.toNat else none

namespace Settings

def default : Settings := {}

def ofEnvironment (env : Environment) : Settings where
  enabled := ((env.nonempty? "CLRDI_ENABLE_DEBUG").map (· != "0")).getD default.enabled
  trace := ((env.nonempty? "CLRDI_DI_TRACE").map (· == "1")).getD default.trace
  dwarfVersion :=
    ((env.nonempty? "CLRDI_DWARF_VERSION").bind dwarfVersion?).getD default.dwarfVersion
  codeView := ((env.nonempty? "CLRDI_CODEVIEW").map (· == "1")).getD default.codeView
  producer := (env.nonempty? "CLRDI_PRODUCER").getD default.producer
  targetTriple := (env.nonempty? "CLRDI_TARGET_TRIPLE").getD default.targetTriple

/-- An environment that says nothing leaves every default. -/
theorem ofEnvironment_unset : ofEnvironment (fun _ => none) = default := rfl

end Settings

theorem dwarfVersion?_eq_some_iff {text : String} {version : Nat} :
    dwarfVersion? text = some version ↔
      (Numeral.read text.toList).2 = [] ∧
        (Numeral.read text.toList).1.toNat = version ∧ 2 ≤ version ∧ version ≤ 5 := by
  simp only [dwarfVersion?, isDwarfVersion, UInt64.le_iff_toNat_le, Bool.and_eq_true,
    decide_eq_true_eq, List.isEmpty_iff, Option.ite_none_right_eq_some, Option.some.injEq]
  constructor
  · rintro ⟨⟨hrest, hrange⟩, rfl⟩
    exact ⟨hrest, rfl, hrange⟩
  · rintro ⟨hrest, rfl, hrange⟩
    exact ⟨⟨hrest, hrange⟩, rfl⟩

end DebugInfo
