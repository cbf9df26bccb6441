/-!
Names divided by dots, as lists of characters. A path is cut at every dot and
empty pieces are kept, so the pieces joined by dots give the path back; the
empty path is the one path without pieces.
-/

namespace DebugInfo.DottedPath

/-- The pieces between the dots of a text. There is always at least one. -/
def split : List Char → List (List Char)
  | [] => [[]]
  | c :: rest =>
      if c = '.' then [] :: split rest
      else match split rest with
        | [] => [[c]]
        | piece :: pieces => (c :: piece) :: pieces

/-- The segments of a path: none when it is empty, else its pieces. -/
def segments (path : List Char) : List (List Char) :=
  if path = [] then [] else split path

theorem split_ne_nil (text : List Char) : split text ≠ [] := by
  cases text with
  | nil => simp [split]
  | cons c rest =>
      simp only [split]
      split
      · simp
      · split <;> simp

@[simp] theorem split_dot (rest : List Char) :
    split ('.' :: rest) = [] :: split rest := by
  simp [split]

/-- A character that is no dot belongs to the first piece. -/
theorem split_cons {c : Char} {rest piece : List Char} {pieces : List (List Char)}
    (hc : c ≠ '.') (hrest : split rest = piece :: pieces) :
    split (c :: rest) = (c :: piece) :: pieces := by
  simp [split, hc, hrest]

theorem not_mem_of_mem_split {text piece : List Char} (hpiece : piece ∈ split text) :
    '.' ∉ piece := by
  induction text generalizing piece with
  | nil =>
      rw [List.mem_singleton.mp hpiece]
      exact List.not_mem_nil
  | cons c rest ih =>
      by_cases hdot : c = '.'
      · subst hdot
        rw [split_dot] at hpiece
        rcases List.mem_cons.mp hpiece with rfl | hlater
        · exact List.not_mem_nil
        · exact ih hlater
      · obtain ⟨first, others, hrest⟩ := List.exists_cons_of_ne_nil (split_ne_nil rest)
        rw [split_cons hdot hrest] at hpiece
        rw [hrest] at ih
        rcases List.mem_cons.mp hpiece with rfl | hlater
        · exact List.not_mem_cons_of_ne_of_not_mem (Ne.symm hdot) (ih List.mem_cons_self)
        · exact ih (List.mem_cons_of_mem _ hlater)

/-- Cutting loses nothing but the dots. -/
theorem intercalate_split (text : List Char) :
    ['.'].intercalate (split text) = text := by
  induction text with
  | nil => rfl
  | cons c rest ih =>
      obtain ⟨piece, pieces, hrest⟩ := List.exists_cons_of_ne_nil (split_ne_nil rest)
      by_cases hdot : c = '.'
      · subst hdot
        rw [split_dot, hrest, List.intercalate_cons_cons, ← hrest, ih]
        rfl
      · rw [split_cons hdot hrest]
        rw [hrest] at ih
        cases pieces with
        | nil => rw [List.intercalate_singleton] at ih ⊢; rw [ih]
        | cons next more =>
            rw [List.intercalate_cons_cons] at ih ⊢
            rw [List.cons_append, List.cons_append, ih]

end DebugInfo.DottedPath
