import DebugInfo.Failure

/-!
The single home of type descriptors. Caches hold slot numbers rather than
descriptors, so completing a class writes one slot and everyone who refers to
the class sees its final descriptor. Slots are only ever added.
-/

namespace DebugInfo

structure Slots (δ : Type) where
  descriptors : Array δ
  deriving Repr

namespace Slots

variable {δ : Type}

def empty : Slots δ := ⟨#[]⟩

def size (slots : Slots δ) : Nat := slots.descriptors.size

/-- Put a descriptor into a new slot, whose number is the size so far. -/
def add (slots : Slots δ) (descriptor : δ) : Nat × Slots δ :=
  (slots.size, ⟨slots.descriptors.push descriptor⟩)

def get (slots : Slots δ) (slot : Nat) : Except Failure δ :=
  Failure.noSlot.ofNone slots.descriptors[slot]?

/-- Write over a slot that exists. -/
def replace (slots : Slots δ) (slot : Nat) (descriptor : δ) :
    Except Failure (Slots δ) :=
  if slot < slots.size then .ok ⟨slots.descriptors.setIfInBounds slot descriptor⟩
  else .error .noSlot

end Slots

end DebugInfo
