import DebugInfo.Proofs.Numerals
import DebugInfo.Settings

/-!
The version of the DWARF format in the settings. A text asks for a version when all of it
is a numeral and its word is one of the versions; any other text, and none, leave the
default. What is compared with the versions is the word and not the number. Numbers that a
word cannot hold are never versions, but a negative number is taken modulo the number of
words first, so the one that lies below a version by just as many asks for that version.
-/

namespace DebugInfo

open Numeral

/-- A text is a numeral whose word is one of the versions. -/
def AsksFor (text : String) (version : Nat) : Prop :=
  (∃ sign digits, IsNumeral text.toList sign digits ∧
    wordOf sign (magnitude digits) = version) ∧ 2 ≤ version ∧ version ≤ 5

theorem Numeral.IsNumeral.dwarfVersion?_iff {text : String} {sign : Sign}
    {digits : List Char} (hnumeral : IsNumeral text.toList sign digits) (version : Nat) :
    dwarfVersion? text = some version ↔
      wordOf sign (magnitude digits) = version ∧ 2 ≤ version ∧ version ≤ 5 := by
  rw [dwarfVersion?_eq_some_iff, hnumeral.toNat_read, hnumeral.read_eq]
  simp

theorem dwarfVersion?_iff_asksFor {text : String} {version : Nat} :
    dwarfVersion? text = some version ↔ AsksFor text version := by
  constructor
  · intro hasked
    obtain ⟨hend, hword, hrange⟩ := dwarfVersion?_eq_some_iff.mp hasked
    -- An empty text is read as 0, which is no version.
    have hne : text.toList ≠ [] := by
      intro hnil
      rw [hnil] at hword
      exact absurd (hword ▸ hrange.1) (by decide)
    obtain ⟨sign, digits, hnumeral⟩ := (read_to_end_iff hne).mp hend
    exact ⟨⟨sign, digits, hnumeral, hnumeral.toNat_read ▸ hword⟩, hrange⟩
  · rintro ⟨⟨sign, digits, hnumeral, hword⟩, hrange⟩
    exact (hnumeral.dwarfVersion?_iff version).mpr ⟨hword, hrange⟩

namespace Settings

/-- An empty text asks for nothing, so it does not matter that it counts as unset. -/
theorem dwarfVersion_ofEnvironment (env : Environment) :
    (ofEnvironment env).dwarfVersion =
      ((env "CLRDI_DWARF_VERSION").bind dwarfVersion?).getD 4 := by
  simp only [ofEnvironment, Environment.nonempty?, default]
  cases env "CLRDI_DWARF_VERSION" with
  | none => rfl
  | some text =>
      by_cases hempty : text = ""
      · subst hempty
        rfl
      · simp [Option.filter, hempty]

/-- The version of the settings is the one that the environment asks for, and the default
where it asks for none. -/
theorem dwarfVersion_eq_iff (env : Environment) (version : Nat) :
    (ofEnvironment env).dwarfVersion = version ↔
      (∃ text, env "CLRDI_DWARF_VERSION" = some text ∧ AsksFor text version) ∨
      (version = 4 ∧
        ¬ ∃ text asked, env "CLRDI_DWARF_VERSION" = some text ∧ AsksFor text asked) := by
  simp only [← dwarfVersion?_iff_asksFor, dwarfVersion_ofEnvironment]
  cases htext : env "CLRDI_DWARF_VERSION" with
  | none => simp [eq_comm]
  | some text =>
      cases hasked : dwarfVersion? text with
      | none => simp [hasked, eq_comm]
      | some asked => simp [hasked]

end Settings

example : dwarfVersion? "\t +0005" = some 5 ∧ dwarfVersion? "5 " = none := by decide

/-! Numbers that are no version -/

theorem Numeral.Denotes.dwarfVersion?_iff {text : String} {number : Int}
    (hnumber : Denotes text.toList number) (version : Nat) :
    dwarfVersion? text = some version ↔
      (number = version ∨ number = version - (UInt64.size : Int)) ∧
        2 ≤ version ∧ version ≤ 5 := by
  obtain ⟨sign, digits, hnumeral, rfl⟩ := hnumber
  rw [hnumeral.dwarfVersion?_iff, and_congr_left_iff]
  rintro ⟨hlow, hhigh⟩
  exact wordOf_eq_iff (by omega) (Nat.lt_of_le_of_lt (Nat.succ_le_succ hhigh) (by decide))

/-- A number that is no version leaves the default, whatever its size, unless it lies below
a version by as many as there are words. -/
theorem Settings.dwarfVersion_of_no_version {env : Environment} {text : String} {number : Int}
    (htext : env "CLRDI_DWARF_VERSION" = some text) (hnumber : Denotes text.toList number)
    (hnone : ¬ (2 ≤ number ∧ number ≤ 5)) :
    ((ofEnvironment env).dwarfVersion : Int) =
      if 2 ≤ number + UInt64.size ∧ number + UInt64.size ≤ 5 then number + UInt64.size
      else 4 := by
  rw [dwarfVersion_ofEnvironment, htext, Option.bind_some]
  by_cases hwraps : 2 ≤ number + UInt64.size ∧ number + UInt64.size ≤ 5
  · obtain ⟨version, hversion⟩ := Int.eq_ofNat_of_zero_le (show 0 ≤ number + UInt64.size by omega)
    have hasked : dwarfVersion? text = some version :=
      (hnumber.dwarfVersion?_iff version).mpr ⟨Or.inr (by omega), by omega, by omega⟩
    rw [hasked, if_pos hwraps, hversion]
    rfl
  · have hunasked : dwarfVersion? text = none := by
      refine Option.eq_none_iff_forall_ne_some.mpr fun version hasked => ?_
      obtain ⟨rfl | rfl, hlow, hhigh⟩ := (hnumber.dwarfVersion?_iff version).mp hasked
      · exact hnone ⟨by omega, by omega⟩
      · exact hwraps ⟨by omega, by omega⟩
    rw [hunasked, if_neg hwraps]
    rfl

/-- An environment that says nothing but which version it asks for. -/
def asking (text : String) : Environment := fun key =>
  if key = "CLRDI_DWARF_VERSION" then some text else none

theorem dwarfVersion_of_padded_negative :
    Denotes " -018446744073709551611".toList (-18446744073709551611) ∧
      (Settings.ofEnvironment (asking " -018446744073709551611")).dwarfVersion = 5 := by
  have hnumber : Denotes " -018446744073709551611".toList (-18446744073709551611) :=
    ⟨.minus, "018446744073709551611".toList,
      ⟨by decide, by decide, [' '], ['-'], by decide, .minus, by decide⟩, by decide⟩
  have htext : asking " -018446744073709551611" "CLRDI_DWARF_VERSION" =
      some " -018446744073709551611" := rfl
  have hversion := Settings.dwarfVersion_of_no_version htext hnumber (by decide)
  exact ⟨hnumber, Int.ofNat_inj.mp hversion⟩

/-- A negative number is taken for version 2. -/
theorem dwarfVersion_of_negative :
    Denotes "-18446744073709551614".toList (-18446744073709551614) ∧
      (Settings.ofEnvironment (asking "-18446744073709551614")).dwarfVersion = 2 :=
  ⟨⟨.minus, "18446744073709551614".toList,
    ⟨by decide, by decide, [], ['-'], by decide, .minus, by decide⟩, by decide⟩, by decide⟩

end DebugInfo
