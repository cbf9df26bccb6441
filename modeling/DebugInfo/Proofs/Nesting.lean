import DebugInfo.Proofs.ScopeTree
import DebugInfo.Tracker.Lemmas
import Mathlib.Algebra.Group.Nat.Defs

/-!
Stacks of scopes that lie one inside the other. Only the scopes of the stack are
looked at: the arena may hold closed scopes and scopes with any links besides.
Along such a stack the links lead from each scope to the one that encloses it,
so following them from an open scope meets exactly the scopes around it.
-/

namespace DebugInfo.Arena

section Links

variable {δ : Type} {arena : Arena} {described : Nat → Option δ} {subprogram : Option δ}

theorem nearestFrom_none (steps : Nat) :
    arena.nearestFrom described subprogram steps Link.none = .ok subprogram := by
  rw [nearestFrom, if_pos rfl]

theorem ofNat_ne_none (index : Nat) : (index : Link) ≠ Link.none := by
  change (index : Int) ≠ -1
  omega

theorem nearestFrom_described {index steps : Nat} {descriptor : δ}
    (hindex : index < arena.size) (hdescribed : described index = some descriptor) :
    arena.nearestFrom described subprogram steps (index : Link) = .ok (some descriptor) := by
  rw [nearestFrom, if_neg (ofNat_ne_none index), target?_ofNat, if_pos hindex]
  simp only [hdescribed]

theorem nearestFrom_undescribed {index steps : Nat} {scope : Scope}
    (hscope : arena[index]? = some scope) (hdescribed : described index = none) :
    arena.nearestFrom described subprogram (steps + 1) (index : Link) =
      arena.nearestFrom described subprogram steps scope.parent := by
  have hindex : index < arena.size := (Array.getElem?_eq_some_iff.mp hscope).1
  rw [nearestFrom, if_neg (ofNat_ne_none index), target?_ofNat, if_pos hindex]
  simp only [hdescribed, Arena.scope, hscope]
  rfl

/-- The scopes met on the way outwards along the links, from a scope to one that has no
parent. -/
inductive Lineage (arena : Arena) : Nat → List Nat → Prop where
  | last {index : Nat} {source : Option Place}
      (hscope : arena[index]? = some ⟨source, Link.none⟩) : Lineage arena index [index]
  | inside {index parent : Nat} {chain : List Nat} {source : Option Place}
      (hscope : arena[index]? = some ⟨source, (parent : Int)⟩)
      (houter : Lineage arena parent chain) : Lineage arena index (index :: chain)

namespace Lineage

variable {index : Nat} {chain : List Nat}

theorem lt_size (hlineage : arena.Lineage index chain) : index < arena.size := by
  cases hlineage with
  | last hscope => exact (Array.getElem?_eq_some_iff.mp hscope).1
  | inside hscope _ => exact (Array.getElem?_eq_some_iff.mp hscope).1

/-- Following the links finds the first described scope on the way outwards, and behind
the last the subprogram. -/
theorem nearestFrom_eq (hlineage : arena.Lineage index chain) (described : Nat → Option δ)
    (subprogram : Option δ) {steps : Nat} (hsteps : chain.length ≤ steps) :
    arena.nearestFrom described subprogram steps (index : Int) =
      .ok ((chain.findSome? described).or subprogram) := by
  induction hlineage generalizing steps with
  | @last index source hscope =>
      obtain ⟨more, rfl⟩ := Nat.exists_eq_add_of_le' hsteps
      cases hfound : described index with
      | some descriptor =>
          rw [nearestFrom_described (Lineage.last hscope).lt_size hfound]
          simp [hfound]
      | none =>
          rw [List.length_singleton, nearestFrom_undescribed hscope hfound, nearestFrom_none]
          simp [hfound]
  | @inside index parent chain source hscope houter ih =>
      obtain ⟨more, rfl⟩ := Nat.exists_eq_add_of_le' hsteps
      cases hfound : described index with
      | some descriptor =>
          rw [nearestFrom_described (Lineage.inside hscope houter).lt_size hfound]
          simp [hfound]
      | none =>
          rw [List.length_cons, ← Nat.add_assoc, nearestFrom_undescribed hscope hfound,
            List.findSome?_cons, hfound]
          exact ih (Nat.le_add_left _ _)

/-- The search from a scope takes as many steps as there are scopes, which is enough for
every way outwards that is not longer. -/
theorem nearest_eq (hlineage : arena.Lineage index chain) (described : Nat → Option δ)
    (subprogram : Option δ) (hlength : chain.length ≤ arena.size)
    (hsmall : arena.size ≤ 2 ^ 31) :
    arena.nearest described subprogram index =
      .ok ((chain.findSome? described).or subprogram) := by
  rw [nearest, Link.ofIndex_of_lt (Nat.lt_of_lt_of_le hlineage.lt_size hsmall)]
  exact hlineage.nearestFrom_eq described subprogram hlength

end Lineage

end Links

def place? (arena : Arena) (index : Nat) : Option Place :=
  (arena[index]?).bind Scope.source

theorem lt_size_of_place? {arena : Arena} {index : Nat} {place : Place}
    (hplace : arena.place? index = some place) : index < arena.size := by
  obtain ⟨scope, hscope, -⟩ := Option.bind_eq_some_iff.mp hplace
  exact (Array.getElem?_eq_some_iff.mp hscope).1

theorem place?_push_of_lt {arena : Arena} (scope : Scope) {index : Nat}
    (hindex : index < arena.size) : place? (Array.push arena scope) index = arena.place? index := by
  rw [place?, place?, Array.getElem?_push, if_neg (Nat.ne_of_lt hindex)]

/-- The scopes of a stack, the innermost first, lie one inside the other. The
outermost is the first of the arena and has the given source. Every other is
linked to the scope around it and comes from a place directly inside that of the
scope around it. -/
inductive Nested (arena : Arena) (root : Option Place) : List Nat → Prop where
  | base (hroot : arena[0]? = some ⟨root, Link.none⟩) : Nested arena root [0]
  | inside {index parent : Nat} {outer : List Nat} {place child : Place} {link : Link}
      (houter : Nested arena root (parent :: outer)) (hlt : parent < index)
      (hparent : arena[parent]? = some ⟨some place, link⟩)
      (hscope : arena[index]? = some ⟨some child, (parent : Int)⟩)
      (hchild : place.HasChild child) : Nested arena root (index :: parent :: outer)

namespace Nested

variable {arena : Arena} {root : Option Place} {stack : List Nat}

theorem ne_nil (hnested : arena.Nested root stack) : stack ≠ [] := by
  cases hnested <;> simp

theorem mono {next : Arena} (hnested : arena.Nested root stack)
    (hkeep : ∀ (index : Nat) (scope : Scope),
      arena[index]? = some scope → next[index]? = some scope) :
    next.Nested root stack := by
  induction hnested with
  | base hroot => exact .base (hkeep _ _ hroot)
  | inside _ hlt hparent hscope hchild ih =>
      exact .inside ih hlt (hkeep _ _ hparent) (hkeep _ _ hscope) hchild

theorem push (hnested : arena.Nested root stack) (scope : Scope) :
    Nested (Array.push arena scope) root stack := by
  apply hnested.mono
  intro index old hold
  obtain ⟨hindex, rfl⟩ := Array.getElem?_eq_some_iff.mp hold
  rw [Array.getElem?_push_lt hindex]

theorem suffix {outer : List Nat} (hnested : arena.Nested root stack)
    (hsuffix : outer <:+ stack) (hne : outer ≠ []) : arena.Nested root outer := by
  induction hnested with
  | base hroot =>
      rcases List.suffix_cons_iff.mp hsuffix with rfl | hrest
      · exact .base hroot
      · exact absurd (List.suffix_nil.mp hrest) hne
  | inside houter hlt hparent hscope hchild ih =>
      rcases List.suffix_cons_iff.mp hsuffix with rfl | hrest
      · exact .inside houter hlt hparent hscope hchild
      · exact ih hrest

theorem lt_size (hnested : arena.Nested root stack) :
    ∀ index ∈ stack, index < arena.size := by
  have hbound {index : Nat} {scope : Scope} (hscope : arena[index]? = some scope) :
      index < arena.size := (Array.getElem?_eq_some_iff.mp hscope).1
  induction hnested with
  | base hroot =>
      intro index hindex
      rw [List.mem_singleton.mp hindex]
      exact hbound hroot
  | inside _ _ _ hscope _ ih =>
      intro index hindex
      rcases List.mem_cons.mp hindex with rfl | houter
      · exact hbound hscope
      · exact ih index houter

theorem pairwise_gt (hnested : arena.Nested root stack) : stack.Pairwise (· > ·) := by
  induction hnested with
  | base => exact List.pairwise_singleton _ _
  | inside _ hlt _ _ _ ih =>
      refine List.pairwise_cons.mpr ⟨?_, ih⟩
      intro other hother
      rcases List.mem_cons.mp hother with rfl | houter
      · exact hlt
      · exact Nat.lt_trans (List.rel_of_pairwise_cons ih houter) hlt

theorem getLast? (hnested : arena.Nested root stack) : stack.getLast? = some 0 := by
  induction hnested with
  | base => rfl
  | inside _ _ _ _ _ ih => rwa [List.getLast?_cons_cons]

theorem root_scope (hnested : arena.Nested root stack) :
    arena[0]? = some ⟨root, Link.none⟩ := by
  induction hnested with
  | base hroot => exact hroot
  | inside _ _ _ _ _ ih => exact ih

/-- There are not more scopes around a scope than indices before it. -/
theorem length_outer_le {index : Nat} {outer : List Nat}
    (hnested : arena.Nested root (index :: outer)) : outer.length ≤ index := by
  induction outer generalizing index with
  | nil => simp
  | cons parent rest ih =>
      cases hnested with
      | inside houter hlt _ _ _ =>
          have hrest := ih houter
          simp only [List.length_cons]
          omega

/-- The links lead from an open scope to the scopes around it. -/
theorem lineage {index : Nat} {outer : List Nat} (hnested : arena.Nested root (index :: outer)) :
    arena.Lineage index (index :: outer) := by
  induction outer generalizing index with
  | nil =>
      cases hnested with
      | base hroot => exact .last hroot
  | cons parent rest ih =>
      cases hnested with
      | inside houter _ _ hscope _ => exact .inside hscope (ih houter)

/-- What describes an open scope is found on the stack: the descriptor of the
innermost scope that has one, counted from that scope outwards. -/
theorem nearest_eq {δ : Type} (described : Nat → Option δ) (subprogram : Option δ)
    {index : Nat} {outer : List Nat} (hnested : arena.Nested root (index :: outer))
    (hsmall : arena.size ≤ 2 ^ 31) :
    arena.nearest described subprogram index =
      .ok (((index :: outer).findSome? described).or subprogram) := by
  have hindex := hnested.lt_size index (by simp)
  have houter := hnested.length_outer_le
  apply hnested.lineage.nearest_eq described subprogram _ hsmall
  rw [List.length_cons]
  omega

theorem way {place : Place} (hnested : arena.Nested (some place) stack) :
    ∃ chain : List Place, stack.reverse.map arena.place? = (place :: chain).map some ∧
      (place :: chain).IsChain Place.HasChild := by
  induction hnested with
  | base hroot => exact ⟨[], by simp [place?, hroot], List.isChain_singleton _⟩
  | @inside index parent outer top child link _ _ hparent hscope hchild ih =>
      obtain ⟨chain, hplaces, hchain⟩ := ih
      have htop : (place :: chain).getLast? = some top := by
        have hlast := congrArg List.getLast? hplaces
        rw [List.map_reverse, List.getLast?_reverse, List.getLast?_map] at hlast
        simpa [place?, hparent] using hlast.symm
      refine ⟨chain ++ [child], ?_, ?_⟩
      · rw [List.reverse_cons, List.map_append, hplaces]
        simp [place?, hscope]
      · rw [← List.cons_append, List.isChain_append]
        refine ⟨hchain, List.isChain_singleton _, ?_⟩
        intro last hlast first hfirst
        rw [htop] at hlast
        cases hlast
        cases hfirst
        exact hchild

/-- Nothing opens inside a root without a source. -/
theorem alone (hnested : arena.Nested none stack) : stack = [0] := by
  induction hnested with
  | base => rfl
  | @inside index parent outer place child link houter _ hparent _ _ ih =>
      -- The scope around would be the root, and it has no places inside it.
      obtain ⟨rfl, rfl⟩ : parent = 0 ∧ outer = [] := by simpa using ih
      rw [houter.root_scope] at hparent
      cases hparent

end Nested

end DebugInfo.Arena
