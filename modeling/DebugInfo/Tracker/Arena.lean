import DebugInfo.Body

/-!
The scopes of a function in the order in which they were made. Each has a link
to its parent. A link is an index cut to 32 bits and read as a signed number,
in which -1 stands for no parent; any other negative link leads nowhere.

Links are not checked when a scope is made, so they can lead anywhere, also
around in a circle. `nearest` follows them outwards to the first described
scope. It stops with a failure at a link that leads nowhere, and after as many
steps as there are scopes, which only a circle can outlast.
-/

namespace DebugInfo

/-- A link to a parent scope. -/
abbrev Link := Int

namespace Link

/-- The link of a scope that has no parent. -/
def none : Link := -1

/-- The link to an index: its low 32 bits, in two's complement. -/
def ofIndex (index : Nat) : Link :=
  let low : Nat := index % UInt32.size
  if low < UInt32.size / 2 then low else (low : Int) - UInt32.size

/-- Indices below half of the range are their own links. -/
theorem ofIndex_of_lt {index : Nat} (hindex : index < UInt32.size / 2) :
    ofIndex index = index := by
  have hlow : index % UInt32.size = index := Nat.mod_eq_of_lt (by omega)
  simp only [ofIndex, hlow, if_pos hindex]

/-- Only the low word of an index counts. -/
theorem ofIndex_mod (index : Nat) : ofIndex (index % UInt32.size) = ofIndex index := by
  simp only [ofIndex, Nat.mod_mod]

/-- A link that is not negative leads to the low word of its index. -/
theorem toNat_ofIndex {index : Nat} (hnonneg : 0 ≤ ofIndex index) :
    (ofIndex index).toNat = index % UInt32.size := by
  have hlow : index % UInt32.size < UInt32.size := Nat.mod_lt _ (by decide)
  simp only [ofIndex] at hnonneg ⊢
  split
  case isTrue => exact Int.toNat_natCast _
  case isFalse hhalf =>
    rw [if_neg hhalf] at hnonneg
    change 0 ≤ ((index % UInt32.size : Nat) : Int) - (UInt32.size : Int) at hnonneg
    omega

/-- An index is taken for no parent where its low word has all bits set. -/
theorem ofIndex_eq_none_iff {index : Nat} :
    ofIndex index = none ↔ index % UInt32.size = UInt32.size - 1 := by
  have hsize : UInt32.size = 4294967296 := rfl
  have hlow : index % UInt32.size < UInt32.size := Nat.mod_lt _ (by decide)
  simp only [ofIndex, none]
  generalize index % UInt32.size = low at hlow ⊢
  split
  · change (low : Int) = -1 ↔ _
    omega
  · change (low : Int) - (UInt32.size : Int) = -1 ↔ _
    omega

end Link

/-- A scope that was made while walking a body. -/
structure Scope where
  /-- Absent only for the root of a body without a scope tree. -/
  source : Option Place
  parent : Link
  deriving Repr

/-- All scopes made so far, by their indices. -/
abbrev Arena := Array Scope

namespace Arena

def scope (arena : Arena) (index : Nat) : Except Failure Scope :=
  Failure.noScope.ofNone arena[index]?

/-- The index that a link leads to, if there is a scope. -/
def target? (arena : Arena) (link : Link) : Option Nat :=
  if 0 ≤ link ∧ link.toNat < arena.size then some link.toNat else none

/-- The first described scope along the links, after at most `steps` more
links. At the end of the links it is the subprogram. -/
def nearestFrom {δ : Type} (arena : Arena) (described : Nat → Option δ)
    (subprogram : Option δ) (steps : Nat) (link : Link) : Except Failure (Option δ) :=
  if link = Link.none then .ok subprogram
  else match arena.target? link with
    | none => .error .noScope
    | some index =>
        match described index, steps with
        | some descriptor, _ => .ok (some descriptor)
        | none, 0 => .error .cyclicLinks
        | none, steps + 1 => do
            let scope ← arena.scope index
            arena.nearestFrom described subprogram steps scope.parent

/-- What describes a scope: the descriptor of the nearest described scope on
the way outwards, itself included, or else that of the subprogram. The index is
taken as a link. -/
def nearest {δ : Type} (arena : Arena) (described : Nat → Option δ)
    (subprogram : Option δ) (index : Nat) : Except Failure (Option δ) :=
  arena.nearestFrom described subprogram arena.size (Link.ofIndex index)

theorem target?_ofNat (arena : Arena) (index : Nat) :
    arena.target? (index : Int) = if index < arena.size then some index else none := by
  simp [target?]

/-- Only the index itself is a link to a scope. -/
theorem target?_eq_some {arena : Arena} {link : Link} {index : Nat}
    (htarget : arena.target? link = some index) : link = (index : Int) ∧ index < arena.size := by
  unfold target? at htarget
  split at htarget
  case isTrue hlink =>
    obtain ⟨hnonneg, hlt⟩ := hlink
    cases htarget
    exact ⟨(Int.toNat_of_nonneg hnonneg).symm, hlt⟩
  case isFalse => cases htarget

end Arena

end DebugInfo
