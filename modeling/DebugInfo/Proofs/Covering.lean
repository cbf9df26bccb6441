import DebugInfo.Proofs.ScopeTree
import Mathlib.Data.List.Infix
import Mathlib.Data.List.Pairwise
import Mathlib.Data.List.Perm.Subperm

/-!
Scope trees whose ranges are nested, and the places that cover an instruction.
The root may cover anything. Below it every range lies inside the one around it
and siblings do not meet, so the places that cover an instruction are one way
down. A cursor that skips instructions opens only those of them whose starts it
visited, down to the first that it missed.
-/

namespace DebugInfo

/-- One range ends before the other starts. -/
def ScopeNode.Apart (first second : ScopeNode) : Prop :=
  first.stop < second.start ∨ second.stop < first.start

instance : DecidableRel ScopeNode.Apart :=
  fun _ _ => inferInstanceAs (Decidable (_ ∨ _))

namespace Place

def covers (index : Nat) (place : Place) : Bool :=
  place.node.start ≤ index && index ≤ place.node.stop

theorem covers_iff {index : Nat} {place : Place} :
    place.covers index = true ↔ place.node.start ≤ index ∧ index ≤ place.node.stop := by
  simp [covers]

/-- Below the root of a tree ranges are nested, and siblings do not meet. -/
structure WellNested (root : Place) : Prop where
  ordered : ∀ place ∈ root.inside, place.node.start ≤ place.node.stop
  within : ∀ place ∈ root.inside, ∀ child ∈ place.children,
    place.node.start ≤ child.node.start ∧ child.node.stop ≤ place.node.stop
  apart : ∀ place ∈ root.preorder, place.node.scopes.Pairwise ScopeNode.Apart

/-- The places that a cursor has open at an instruction: from child to child
that covers it, for as long as the cursor visited where the child starts. -/
def covering (visited : List Nat) (index : Nat) (place : Place) : List Place :=
  match _hchild : place.children.find? (covers index) with
  | none => []
  | some child =>
      if child.node.start ∈ visited then child :: child.covering visited index else []
termination_by sizeOf place.node
decreasing_by exact sizeOf_node_lt_of_mem_children (List.mem_of_find?_eq_some _hchild)

/-- The places that a cursor has open after the last of its visits. -/
def active (visited : List Nat) (place : Place) : List Place :=
  match visited.getLast? with
  | some index => place.covering visited index
  | none => []

theorem covering_of_find?_eq_none {visited : List Nat} {index : Nat} {place : Place}
    (hnone : place.children.find? (covers index) = none) :
    place.covering visited index = [] := by
  rw [covering]
  split <;> simp_all

theorem covering_of_find?_eq_some {visited : List Nat} {index : Nat} {place child : Place}
    (hchild : place.children.find? (covers index) = some child) :
    place.covering visited index =
      if child.node.start ∈ visited then child :: child.covering visited index else [] := by
  rw [covering]
  split <;> simp_all

theorem isChain_covering (visited : List Nat) (index : Nat) (place : Place) :
    (place :: place.covering visited index).IsChain HasChild := by
  induction place using induction_children with
  | step place ih =>
      cases hfound : place.children.find? (covers index) with
      | none =>
          rw [covering_of_find?_eq_none hfound]
          exact List.isChain_singleton _
      | some child =>
          have hchild : child ∈ place.children := List.mem_of_find?_eq_some hfound
          rw [covering_of_find?_eq_some hfound]
          split
          · exact List.isChain_cons_cons.mpr ⟨hchild, ih child hchild⟩
          · exact List.isChain_singleton _

theorem covers_of_mem_covering {visited : List Nat} {index : Nat} {place inner : Place}
    (hinner : inner ∈ place.covering visited index) :
    inner.covers index = true ∧ inner.node.start ∈ visited := by
  induction place using induction_children with
  | step place ih =>
      cases hfound : place.children.find? (covers index) with
      | none => simp [covering_of_find?_eq_none hfound] at hinner
      | some child =>
          rw [covering_of_find?_eq_some hfound] at hinner
          split at hinner
          · next hvisited =>
              rcases List.mem_cons.mp hinner with rfl | hbelow
              · exact ⟨List.find?_some hfound, hvisited⟩
              · exact ih child (List.mem_of_find?_eq_some hfound) hbelow
          · simp at hinner

theorem isChain_active (visited : List Nat) (place : Place) :
    (place :: place.active visited).IsChain HasChild := by
  unfold active
  cases visited.getLast? with
  | none => exact List.isChain_singleton _
  | some index => exact isChain_covering visited index place

theorem start_of_mem_active {visited : List Nat} {place inner : Place}
    (hinner : inner ∈ place.active visited) : inner.node.start ∈ visited := by
  unfold active at hinner
  cases hlast : visited.getLast? with
  | none => simp [hlast] at hinner
  | some index =>
      rw [hlast] at hinner
      exact (covers_of_mem_covering hinner).2

/-- The places that a cursor opened at the last of its visits. -/
def opened (visited : List Nat) (place : Place) : List Place :=
  (place.active visited).filter fun inner => visited.getLast? == some inner.node.start

/-- The places that a cursor opened at all its visits, in order. -/
def made (visited : List Nat) (place : Place) : List Place :=
  visited.inits.flatMap fun earlier => place.opened earlier

theorem made_concat (visited : List Nat) (index : Nat) (place : Place) :
    place.made (visited ++ [index]) =
      place.made visited ++ place.opened (visited ++ [index]) := by
  simp [made, List.inits_append]

theorem opened_concat (visited : List Nat) (index : Nat) (place : Place) :
    place.opened (visited ++ [index]) =
      (place.active (visited ++ [index])).filter (·.node.start == index) := by
  unfold opened
  apply List.filter_congr
  intro inner _
  rw [List.getLast?_concat, Bool.eq_iff_iff, beq_iff_eq, beq_iff_eq, Option.some_inj]
  exact eq_comm

theorem start_of_mem_opened {visited : List Nat} {index : Nat} {place inner : Place}
    (hinner : inner ∈ place.opened (visited ++ [index])) : inner.node.start = index := by
  rw [opened_concat, List.mem_filter, beq_iff_eq] at hinner
  exact hinner.2

theorem mem_made {visited : List Nat} {place inner : Place}
    (hinner : inner ∈ place.made visited) :
    inner ∈ place.inside ∧ inner.node.start ∈ visited := by
  induction visited using List.reverseRecOn with
  | nil => simp [made, opened, active] at hinner
  | append_singleton earlier index ih =>
      rw [made_concat] at hinner
      rcases List.mem_append.mp hinner with hold | hnew
      · exact ⟨(ih hold).1, List.mem_append_left _ (ih hold).2⟩
      · refine ⟨mem_inside_of_isChain (isChain_active _ place) (List.mem_filter.mp hnew).1, ?_⟩
        rw [start_of_mem_opened hnew]
        simp

theorem nodup_made {visited : List Nat} (hsorted : visited.Pairwise (· < ·))
    (place : Place) : (place.made visited).Nodup := by
  induction visited using List.reverseRecOn with
  | nil => simp [made, opened, active]
  | append_singleton earlier index ih =>
      obtain ⟨hearlier, -, hbefore⟩ := List.pairwise_append.mp hsorted
      have hchain := nodup_of_isChain (isChain_active (earlier ++ [index]) place)
      rw [made_concat]
      refine List.nodup_append.mpr ⟨ih hearlier, hchain.of_cons.filter _, ?_⟩
      rintro inner hold _ hnew rfl
      have hlt := hbefore _ (mem_made hold).2 index (List.mem_singleton_self index)
      have heq := start_of_mem_opened hnew
      omega

theorem length_made_le {visited : List Nat} (hsorted : visited.Pairwise (· < ·))
    (place : Place) : (place.made visited).length ≤ place.inside.length :=
  ((nodup_made hsorted place).subperm fun _ hinner => (mem_made hinner).1).length_le

theorem made_length_mono {earlier visited : List Nat} (hinitial : earlier <+: visited)
    (place : Place) : (place.made earlier).length ≤ (place.made visited).length := by
  obtain ⟨later, rfl⟩ := hinitial
  induction later using List.reverseRecOn with
  | nil => rw [List.append_nil]
  | append_singleton before index ih =>
      rw [← List.append_assoc, made_concat, List.length_append]
      omega

section WellNested

variable {root place : Place}

theorem WellNested.child (hwell : root.WellNested) {child : Place}
    (hchild : child ∈ root.children) : child.WellNested where
  ordered := by
    intro place hplace
    exact hwell.ordered place (mem_inside_iff.mpr ⟨child, hchild, Or.inr hplace⟩)
  within := by
    intro place hplace
    exact hwell.within place (mem_inside_iff.mpr ⟨child, hchild, Or.inr hplace⟩)
  apart := by
    intro place hplace
    exact hwell.apart place (mem_preorder_of_mem_children hchild hplace)

theorem WellNested.range_of_mem_inside (hwell : root.WellNested)
    (hplace : place ∈ root.inside) {inner : Place} (hinner : inner ∈ place.inside) :
    place.node.start ≤ inner.node.start ∧ inner.node.stop ≤ place.node.stop := by
  induction place using induction_children with
  | step place ih =>
      obtain ⟨child, hchild, hcase⟩ := mem_inside_iff.mp hinner
      have hwithin := hwell.within place hplace child hchild
      rcases hcase with rfl | hbelow
      · exact hwithin
      · have hchild_inside := mem_inside_trans hplace (mem_inside_of_mem_children hchild)
        have hrange := ih child hchild hchild_inside hbelow
        omega

theorem not_apart_of_covers {first second : Place} {index : Nat}
    (hfirst : first.covers index = true) (hsecond : second.covers index = true) :
    ¬ first.node.Apart second.node := by
  rw [covers_iff] at hfirst hsecond
  unfold ScopeNode.Apart
  omega

theorem WellNested.children_apart (hwell : root.WellNested) :
    root.children.Pairwise fun first second => first.node.Apart second.node := by
  have hapart := hwell.apart root root.mem_preorder_self
  exact pairwise_children hapart

theorem WellNested.eq_of_covers (hwell : root.WellNested) {first second : Place}
    (hfirst : first ∈ root.children) (hsecond : second ∈ root.children) {index : Nat}
    (hcovers : first.covers index = true) (hcovers' : second.covers index = true) :
    first = second := by
  by_contra hne
  have : Std.Symm fun first second : Place => first.node.Apart second.node :=
    ⟨fun _ _ => Or.symm⟩
  have hapart := hwell.children_apart.forall hfirst hsecond hne
  exact not_apart_of_covers hcovers hcovers' hapart

theorem WellNested.find?_covers (hwell : root.WellNested) {child : Place}
    (hchild : child ∈ root.children) {index : Nat} (hcovers : child.covers index = true) :
    root.children.find? (covers index) = some child := by
  cases hfound : root.children.find? (covers index) with
  | none => exact absurd hcovers (List.find?_eq_none.mp hfound child hchild)
  | some other =>
      rw [hwell.eq_of_covers hchild (List.mem_of_find?_eq_some hfound) hcovers
        (List.find?_some hfound)]

theorem WellNested.childAt?_eq (hwell : root.WellNested) {child : Place}
    (hchild : child ∈ root.children) : root.childAt? child.node.start = some child := by
  have hcovers {place : Place} (hplace : place ∈ root.children) :
      place.covers place.node.start = true := by
    have hordered := hwell.ordered place (mem_inside_of_mem_children hplace)
    rw [covers_iff]
    omega
  cases hfound : root.childAt? child.node.start with
  | none =>
      have hmissing := List.find?_eq_none.mp hfound child hchild
      simp at hmissing
  | some other =>
      have hother := mem_children_of_childAt? hfound
      have hstart := start_of_childAt? hfound
      have hcovers' := hcovers hother
      rw [hstart] at hcovers'
      rw [hwell.eq_of_covers hchild hother (hcovers hchild) hcovers']

/-- Where all children whose starts were visited are finished, the cursor has
just what opens at the next instruction. -/
theorem WellNested.covering_eq_descent (hwell : root.WellNested) {visited : List Nat}
    {index : Nat} (hbefore : ∀ visit ∈ visited, visit < index)
    (hdone : ∀ child ∈ root.children,
      child.node.start ∈ visited → child.node.stop < index) :
    root.covering (visited ++ [index]) index = root.descent index := by
  induction root using induction_children with
  | step root ih =>
      have hstarting {child : Place} (hchild : root.childAt? index = some child) :
          root.children.find? (covers index) = some child := by
        have hmem := mem_children_of_childAt? hchild
        have hordered := hwell.ordered child (mem_inside_of_mem_children hmem)
        have hstart := start_of_childAt? hchild
        exact hwell.find?_covers hmem (covers_iff.mpr (by omega))
      cases hfound : root.childAt? index with
      | some child =>
          have hchild := mem_children_of_childAt? hfound
          have hstart := start_of_childAt? hfound
          have hinside := mem_inside_of_mem_children hchild
          rw [descent_of_childAt?_eq_some hfound, covering_of_find?_eq_some (hstarting hfound),
            if_pos (by simp [hstart])]
          congr 1
          apply ih child hchild (hwell.child hchild)
          intro inner hinner hvisited
          have hwithin := hwell.within child hinside inner hinner
          have hlt := hbefore _ hvisited
          omega
      | none =>
          rw [descent_of_childAt?_eq_none hfound]
          cases hcover : root.children.find? (covers index) with
          | none => exact covering_of_find?_eq_none hcover
          | some child =>
              have hchild : child ∈ root.children := List.mem_of_find?_eq_some hcover
              have hrange := covers_iff.mp (List.find?_some hcover)
              rw [covering_of_find?_eq_some hcover, if_neg]
              intro hvisited
              rcases List.mem_append.mp hvisited with hearlier | hnow
              · have hstop := hdone child hchild hearlier
                omega
              · rw [List.mem_singleton] at hnow
                have hopens := hwell.childAt?_eq hchild
                rw [hnow, hfound] at hopens
                cases hopens

/-- Where a child has ended, all that lies below it has. -/
theorem WellNested.filter_chain_eq_nil (hwell : root.WellNested) {child : Place}
    (hchild : child ∈ root.children) {chain : List Place}
    (hchain : (child :: chain).IsChain HasChild) {index : Nat}
    (hstop : ¬ index ≤ child.node.stop) :
    (child :: chain).filter (fun place => index ≤ place.node.stop) = [] := by
  rw [List.filter_eq_nil_iff]
  intro place hplace
  have hrange : place.node.stop ≤ child.node.stop := by
    rcases List.mem_cons.mp hplace with rfl | hbelow
    · exact Nat.le_refl _
    · exact (hwell.range_of_mem_inside (mem_inside_of_mem_children hchild)
        (mem_inside_of_isChain hchain hbelow)).2
  rw [decide_eq_true_iff]
  omega

/-- From one visited instruction to the next, the places that have not ended
stay open, and inside the last of them those open that start there. -/
theorem WellNested.covering_concat (hwell : root.WellNested) {visited : List Nat}
    {last index : Nat} (hlast : ∀ visit ∈ visited, visit ≤ last) (hlt : last < index) :
    root.covering (visited ++ [index]) index =
      (root.covering visited last).filter (fun place => index ≤ place.node.stop) ++
        (((root.covering visited last).filter fun place =>
          index ≤ place.node.stop).getLastD root).descent index := by
  have hbefore : ∀ visit ∈ visited, visit < index :=
    fun visit hvisit => Nat.lt_of_le_of_lt (hlast visit hvisit) hlt
  induction root using induction_children with
  | step root ih =>
      have hopen {child : Place} (hchild : child ∈ root.children)
          (hvisited : child.node.start ∈ visited) (hstop : ¬ child.node.stop < index) :
          root.children.find? (covers last) = some child := by
        have hstart := hlast _ hvisited
        exact hwell.find?_covers hchild (covers_iff.mpr (by omega))
      cases hfound : root.children.find? (covers last) with
      | none =>
          rw [covering_of_find?_eq_none hfound]
          apply hwell.covering_eq_descent hbefore
          intro child hchild hvisited
          by_contra hstop
          rw [hopen hchild hvisited hstop] at hfound
          cases hfound
      | some child =>
          have hchild : child ∈ root.children := List.mem_of_find?_eq_some hfound
          rw [covering_of_find?_eq_some hfound]
          by_cases hkeep : child.node.start ∈ visited ∧ index ≤ child.node.stop
          · obtain ⟨hvisited, hstop⟩ := hkeep
            have hstart := hlast _ hvisited
            have hcovers : child.covers index = true := covers_iff.mpr (by omega)
            have hrest := ih child hchild (hwell.child hchild)
            rw [if_pos hvisited, covering_of_find?_eq_some (hwell.find?_covers hchild hcovers),
              if_pos (List.mem_append_left _ hvisited), hrest,
              List.filter_cons_of_pos (by simpa using hstop), List.getLastD_cons,
              List.cons_append]
          · have hnone : (if child.node.start ∈ visited
                then child :: child.covering visited last else []).filter
                  (fun place => index ≤ place.node.stop) = [] := by
              split
              · next hvisited =>
                  exact hwell.filter_chain_eq_nil hchild (isChain_covering visited last child)
                    fun hstop => hkeep ⟨hvisited, hstop⟩
              · rfl
            rw [hnone]
            apply hwell.covering_eq_descent hbefore
            intro other hother hvisited
            by_contra hstop
            rw [hopen hother hvisited hstop] at hfound
            cases hfound
            exact hkeep ⟨hvisited, by omega⟩

theorem WellNested.active_concat (hwell : root.WellNested) {visited : List Nat} {index : Nat}
    (hsorted : (visited ++ [index]).Pairwise (· < ·)) :
    root.active (visited ++ [index]) =
      (root.active visited).filter (fun place => index ≤ place.node.stop) ++
        (((root.active visited).filter fun place =>
          index ≤ place.node.stop).getLastD root).descent index := by
  rw [List.pairwise_append] at hsorted
  have hbefore : ∀ visit ∈ visited, visit < index :=
    fun visit hvisit => hsorted.2.2 visit hvisit index (List.mem_singleton_self index)
  simp only [active, List.getLast?_append, List.getLast?_singleton, Option.some_or]
  cases hlast : visited.getLast? with
  | none =>
      have hnil : visited = [] := List.getLast?_eq_none_iff.mp hlast
      subst hnil
      exact hwell.covering_eq_descent hbefore (fun _ _ hvisited => by simp at hvisited)
  | some last =>
      obtain ⟨earlier, rfl⟩ := List.getLast?_eq_some_iff.mp hlast
      apply hwell.covering_concat
      · intro visit hvisit
        rcases List.mem_append.mp hvisit with hearlier | hnow
        · exact Nat.le_of_lt ((List.pairwise_append.mp hsorted.1).2.2 visit hearlier last
            (List.mem_singleton_self last))
        · rw [List.mem_singleton.mp hnow]
      · exact hbefore last (by simp)

theorem WellNested.opened_eq_descent (hwell : root.WellNested) {visited : List Nat}
    {index : Nat} (hsorted : (visited ++ [index]).Pairwise (· < ·)) :
    root.opened (visited ++ [index]) =
      (((root.active visited).filter fun place =>
        index ≤ place.node.stop).getLastD root).descent index := by
  have hkept : ((root.active visited).filter fun place => index ≤ place.node.stop).filter
      (·.node.start == index) = [] := by
    rw [List.filter_eq_nil_iff]
    intro place hplace
    have hvisited := start_of_mem_active (List.mem_filter.mp hplace).1
    have hlt := (List.pairwise_append.mp hsorted).2.2 _ hvisited index (by simp)
    rw [beq_iff_eq]
    omega
  rw [opened_concat, hwell.active_concat hsorted, List.filter_append, hkept, List.nil_append,
    List.filter_eq_self]
  intro place hplace
  rw [beq_iff_eq]
  exact start_of_mem_descent hplace

/-- Nothing at or below a place covers an instruction that the place does not. -/
theorem WellNested.filter_preorder_eq_nil (hwell : root.WellNested) {child : Place}
    (hchild : child ∈ root.children) {index : Nat} (hcovers : ¬ child.covers index = true) :
    child.preorder.filter (covers index) = [] := by
  rw [List.filter_eq_nil_iff]
  intro place hplace
  rw [preorder_eq] at hplace
  rcases List.mem_cons.mp hplace with rfl | hbelow
  · exact hcovers
  · have hrange := hwell.range_of_mem_inside (mem_inside_of_mem_children hchild) hbelow
    rw [covers_iff] at hcovers ⊢
    omega

/-- All places that cover an instruction lie at or below one child that does. -/
theorem WellNested.filter_inside_eq (hwell : root.WellNested) {child : Place}
    (hchild : child ∈ root.children) {index : Nat} (hcovers : child.covers index = true) :
    root.inside.filter (covers index) = child.preorder.filter (covers index) := by
  have hapart := hwell.children_apart
  obtain ⟨before, behind, hsplit⟩ := List.append_of_mem hchild
  rw [hsplit, List.pairwise_append, List.pairwise_cons] at hapart
  obtain ⟨-, ⟨hapart_behind, -⟩, hapart_before⟩ := hapart
  have hbefore : before.flatMap (fun other => other.preorder.filter (covers index)) = [] := by
    rw [List.flatMap_eq_nil_iff]
    intro other hother
    apply hwell.filter_preorder_eq_nil (by rw [hsplit]; exact List.mem_append_left _ hother)
    intro hother_covers
    exact not_apart_of_covers hother_covers hcovers
      (hapart_before other hother child List.mem_cons_self)
  have hbehind : behind.flatMap (fun other => other.preorder.filter (covers index)) = [] := by
    rw [List.flatMap_eq_nil_iff]
    intro other hother
    apply hwell.filter_preorder_eq_nil
      (by rw [hsplit]; exact List.mem_append_right _ (List.mem_cons_of_mem _ hother))
    intro hother_covers
    exact not_apart_of_covers hcovers hother_covers (hapart_behind other hother)
  rw [inside, List.filter_flatMap, hsplit, List.flatMap_append, List.flatMap_cons, hbefore,
    hbehind, List.nil_append, List.append_nil]

/-- A cursor that skips nothing has all places open that cover the instruction. -/
theorem WellNested.covering_eq_filter (hwell : root.WellNested) {visited : List Nat}
    {index : Nat} (hvisited : ∀ visit ≤ index, visit ∈ visited) :
    root.covering visited index = root.inside.filter (covers index) := by
  induction root using induction_children with
  | step root ih =>
      cases hfound : root.children.find? (covers index) with
      | none =>
          rw [covering_of_find?_eq_none hfound, inside, List.filter_flatMap, eq_comm,
            List.flatMap_eq_nil_iff]
          intro child hchild
          exact hwell.filter_preorder_eq_nil hchild (List.find?_eq_none.mp hfound child hchild)
      | some child =>
          have hchild : child ∈ root.children := List.mem_of_find?_eq_some hfound
          have hcovers : child.covers index = true := List.find?_some hfound
          have hstart := hvisited _ (covers_iff.mp hcovers).1
          rw [covering_of_find?_eq_some hfound, if_pos hstart,
            ih child hchild (hwell.child hchild), hwell.filter_inside_eq hchild hcovers,
            preorder_eq, List.filter_cons_of_pos hcovers]

end WellNested

end Place

end DebugInfo
