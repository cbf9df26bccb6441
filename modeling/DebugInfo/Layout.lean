/-!
Sizes, alignments and field offsets in bits. A layout can still be unknown,
because the fields of an aggregate are published after the aggregate itself,
and every question about an unknown layout is answered by zero, as is the
offset of a field that a known layout does not have.
-/

namespace DebugInfo

structure Layout where
  size : Nat
  align : Nat
  /-- Where each field starts, by its position. -/
  offsets : Array Nat
  deriving DecidableEq, Repr

/-- The size of a type, zero while its layout is unknown. -/
def sizeInBits (layout : Option Layout) : Nat :=
  (layout.map Layout.size).getD 0

/-- The alignment of a type, zero while its layout is unknown. -/
def alignInBits (layout : Option Layout) : Nat :=
  (layout.map Layout.align).getD 0

/-- The start of a field, zero when the layout is unknown or has no such
field. -/
def fieldOffsetInBits (layout : Option Layout) (index : Nat) : Nat :=
  (layout.bind fun known => known.offsets[index]?).getD 0

@[simp] theorem sizeInBits_none : sizeInBits none = 0 := rfl

@[simp] theorem alignInBits_none : alignInBits none = 0 := rfl

@[simp] theorem fieldOffsetInBits_none (index : Nat) :
    fieldOffsetInBits none index = 0 := rfl

end DebugInfo
