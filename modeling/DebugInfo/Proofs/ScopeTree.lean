import DebugInfo.Body
import Mathlib.Data.List.Chain
import Mathlib.Data.List.Nodup

/-!
The scope tree read as places. `preorder` lists a place and everything below it,
each place before those inside it. The places of a list are told apart by their
paths, and a place is in the list exactly when a way down leads to it, so the
list is the tree without repetitions. Nothing is asked of the ranges here.
-/

namespace DebugInfo

/-- The number of levels of a tree, its root included. -/
def ScopeNode.height (node : ScopeNode) : Nat :=
  (node.scopes.map fun inner => inner.height).foldr max 0 + 1
termination_by sizeOf node
decreasing_by
  rename_i hinner
  have hsize := List.sizeOf_lt_of_mem hinner
  cases node
  simp_all
  omega

namespace Place

def HasChild (outer inner : Place) : Prop := inner ∈ outer.children

theorem mem_children_iff {place child : Place} :
    child ∈ place.children ↔
      ∃ position node, place.node.scopes[position]? = some node ∧
        child = ⟨place.path ++ [position], node⟩ := by
  constructor
  · intro hchild
    obtain ⟨position, hposition, rfl⟩ := List.mem_mapIdx.mp hchild
    exact ⟨position, _, List.getElem?_eq_getElem hposition, rfl⟩
  · rintro ⟨position, node, hnode, rfl⟩
    obtain ⟨hposition, hnode⟩ := List.getElem?_eq_some_iff.mp hnode
    exact List.mem_mapIdx.mpr ⟨position, hposition, by rw [hnode]⟩

theorem node_mem_of_mem_children {place child : Place}
    (hchild : child ∈ place.children) : child.node ∈ place.node.scopes := by
  obtain ⟨position, node, hnode, rfl⟩ := mem_children_iff.mp hchild
  exact List.mem_of_getElem? hnode

theorem pairwise_children {related : ScopeNode → ScopeNode → Prop} {place : Place}
    (hscopes : place.node.scopes.Pairwise related) :
    place.children.Pairwise fun first second => related first.node second.node := by
  rw [List.pairwise_iff_getElem] at hscopes ⊢
  intro i j hi hj hlt
  simp only [children, List.length_mapIdx, List.getElem_mapIdx] at hi hj ⊢
  exact hscopes i j hi hj hlt

/-- What holds of a place as soon as it holds of those directly inside it holds
of every place. -/
theorem induction_children {motive : Place → Prop}
    (step : ∀ place, (∀ child ∈ place.children, motive child) → motive place)
    (place : Place) : motive place := by
  apply step
  intro child hchild
  exact induction_children step child
termination_by sizeOf place.node
decreasing_by exact sizeOf_node_lt_of_mem_children hchild

theorem height_lt_of_mem_children {place child : Place}
    (hchild : child ∈ place.children) : child.node.height < place.node.height := by
  have hmax : ∀ {heights : List Nat} {height : Nat}, height ∈ heights →
      height ≤ heights.foldr max 0 := by
    intro heights height hmem
    induction heights with
    | nil => simp at hmem
    | cons first rest ih =>
        rcases List.mem_cons.mp hmem with rfl | hrest
        · exact Nat.le_max_left _ _
        · exact (ih hrest).trans (Nat.le_max_right _ _)
  have hheight : child.node.height ∈ place.node.scopes.map fun inner => inner.height :=
    List.mem_map.mpr ⟨child.node, node_mem_of_mem_children hchild, rfl⟩
  rw [ScopeNode.height.eq_1 place.node]
  exact Nat.lt_succ_of_le (hmax hheight)

/-- Each step down leaves a level behind. -/
theorem height_last_of_isChain {place : Place} {chain : List Place}
    (hchain : (place :: chain).IsChain HasChild) :
    (chain.getLastD place).node.height + chain.length ≤ place.node.height := by
  induction chain generalizing place with
  | nil => simp
  | cons child rest ih =>
      obtain ⟨hchild, hrest⟩ := List.isChain_cons_cons.mp hchain
      have hlast := ih hrest
      have hheight := height_lt_of_mem_children hchild
      rw [List.getLastD_cons, List.length_cons]
      omega

theorem length_le_height_of_isChain {place : Place} {chain : List Place}
    (hchain : (place :: chain).IsChain HasChild) :
    (place :: chain).length ≤ place.node.height := by
  have hlast := height_last_of_isChain hchain
  rw [ScopeNode.height] at hlast
  rw [List.length_cons]
  omega

/-! Ways down -/

theorem descend_append (place : Place) (first second : List Nat) :
    place.descend (first ++ second) =
      (place.descend first).bind fun inner => inner.descend second := by
  induction first generalizing place with
  | nil => rfl
  | cons position rest ih =>
      simp only [List.cons_append, descend]
      cases place.children[position]? with
      | none => rfl
      | some child => exact ih child

/-- A way down is written into the path of the place that it leads to. -/
theorem path_of_descend {place inner : Place} {way : List Nat}
    (hway : place.descend way = some inner) : inner.path = place.path ++ way := by
  induction way generalizing place with
  | nil =>
      cases hway
      simp
  | cons position rest ih =>
      simp only [descend, Option.bind_eq_bind, Option.bind_eq_some_iff] at hway
      obtain ⟨child, hchild, hrest⟩ := hway
      have hpath : child.path = place.path ++ [position] := by
        simp only [children, List.getElem?_mapIdx, Option.map_eq_some_iff] at hchild
        obtain ⟨node, -, rfl⟩ := hchild
        rfl
      rw [ih hrest, hpath]
      simp

theorem mem_children_iff_descend {place child : Place} :
    child ∈ place.children ↔ ∃ position, place.descend [position] = some child := by
  rw [List.mem_iff_getElem?]
  constructor
  · rintro ⟨position, hposition⟩
    exact ⟨position, by simp [descend, hposition]⟩
  · rintro ⟨position, hposition⟩
    exact ⟨position, by simpa [descend, Option.bind_eq_some_iff] using hposition⟩

/-- A place and all below it, each before the places inside it. -/
def preorder (place : Place) : List Place :=
  place :: place.children.attach.flatMap fun child => child.val.preorder
termination_by sizeOf place.node
decreasing_by exact sizeOf_node_lt_of_mem_children child.property

/-- The places inside a place, itself left out. -/
def inside (place : Place) : List Place :=
  place.children.flatMap preorder

theorem preorder_eq (place : Place) : place.preorder = place :: place.inside := by
  rw [preorder, inside]
  simp

theorem mem_preorder_self (place : Place) : place ∈ place.preorder := by
  rw [preorder_eq]
  exact List.mem_cons_self

theorem mem_preorder_of_mem_children {place child inner : Place}
    (hchild : child ∈ place.children) (hinner : inner ∈ child.preorder) :
    inner ∈ place.preorder := by
  rw [preorder_eq]
  exact List.mem_cons_of_mem _ (List.mem_flatMap.mpr ⟨child, hchild, hinner⟩)

theorem mem_inside_iff {place inner : Place} :
    inner ∈ place.inside ↔
      ∃ child ∈ place.children, inner = child ∨ inner ∈ child.inside := by
  rw [inside, List.mem_flatMap]
  constructor
  · rintro ⟨child, hchild, hinner⟩
    rw [preorder_eq] at hinner
    exact ⟨child, hchild, List.mem_cons.mp hinner⟩
  · rintro ⟨child, hchild, hinner⟩
    refine ⟨child, hchild, ?_⟩
    rw [preorder_eq]
    exact List.mem_cons.mpr hinner

theorem mem_inside_of_mem_children {place child : Place}
    (hchild : child ∈ place.children) : child ∈ place.inside :=
  mem_inside_iff.mpr ⟨child, hchild, Or.inl rfl⟩

theorem mem_inside_trans {outer place inner : Place} (hplace : place ∈ outer.inside)
    (hinner : inner ∈ place.inside) : inner ∈ outer.inside := by
  induction outer using induction_children with
  | step outer ih =>
      obtain ⟨child, hchild, hcase⟩ := mem_inside_iff.mp hplace
      refine mem_inside_iff.mpr ⟨child, hchild, Or.inr ?_⟩
      rcases hcase with rfl | hbelow
      · exact hinner
      · exact ih child hchild hbelow

/-- A place is listed exactly when a way leads to it that is not empty. -/
theorem mem_inside_iff_descend {place inner : Place} :
    inner ∈ place.inside ↔ ∃ way, way ≠ [] ∧ place.descend way = some inner := by
  induction place using induction_children with
  | step place ih =>
      constructor
      · intro hinner
        obtain ⟨child, hchild, hcase⟩ := mem_inside_iff.mp hinner
        obtain ⟨position, hposition⟩ := mem_children_iff_descend.mp hchild
        rcases hcase with rfl | hbelow
        · exact ⟨[position], by simp, hposition⟩
        · obtain ⟨way, -, hway⟩ := (ih child hchild).mp hbelow
          refine ⟨[position] ++ way, by simp, ?_⟩
          rw [descend_append, hposition]
          exact hway
      · rintro ⟨way, hne, hway⟩
        obtain ⟨position, rest, rfl⟩ := List.exists_cons_of_ne_nil hne
        rw [← List.singleton_append, descend_append, Option.bind_eq_some_iff] at hway
        obtain ⟨child, hposition, hrest⟩ := hway
        have hchild := mem_children_iff_descend.mpr ⟨position, hposition⟩
        refine mem_inside_iff.mpr ⟨child, hchild, ?_⟩
        rcases List.eq_nil_or_concat rest with rfl | ⟨_, _, rfl⟩
        · exact Or.inl (Option.some.inj hrest).symm
        · exact Or.inr ((ih child hchild).mpr ⟨_, by simp, hrest⟩)

theorem path_prefix_of_mem_preorder {place inner : Place}
    (hinner : inner ∈ place.preorder) : place.path <+: inner.path := by
  rw [preorder_eq] at hinner
  rcases List.mem_cons.mp hinner with rfl | hbelow
  · exact List.prefix_refl _
  · obtain ⟨way, -, hway⟩ := mem_inside_iff_descend.mp hbelow
    rw [path_of_descend hway]
    exact List.prefix_append _ _

theorem path_ne_of_mem_inside {place inner : Place} (hinner : inner ∈ place.inside) :
    place.path ≠ inner.path := by
  obtain ⟨way, hne, hway⟩ := mem_inside_iff_descend.mp hinner
  rw [path_of_descend hway]
  intro heq
  exact hne (by simpa using heq)

theorem nodup_paths_inside (place : Place) : (place.inside.map path).Nodup := by
  rw [List.Nodup, List.pairwise_map]
  induction place using induction_children with
  | step place ih =>
      rw [inside, List.pairwise_flatMap]
      constructor
      · intro child hchild
        rw [preorder_eq, List.pairwise_cons]
        exact ⟨fun _ hinner => path_ne_of_mem_inside hinner, ih child hchild⟩
      · rw [List.pairwise_iff_getElem]
        intro i j hi hj hlt first hfirst second hsecond heq
        -- The two paths already differ in the position of the child.
        obtain ⟨left, hleft⟩ := path_prefix_of_mem_preorder hfirst
        obtain ⟨right, hright⟩ := path_prefix_of_mem_preorder hsecond
        have hpaths := hleft.trans (heq.trans hright.symm)
        simp [children] at hpaths
        omega

/-- Along a way down every place stands inside all those before it. -/
theorem pairwise_inside_of_isChain {chain : List Place} (hchain : chain.IsChain HasChild) :
    chain.Pairwise fun outer inner => inner ∈ outer.inside := by
  have hstrict : chain.IsChain fun outer inner => inner ∈ outer.inside :=
    hchain.imp fun _ _ hchild => mem_inside_of_mem_children hchild
  have : Trans (fun outer inner : Place => inner ∈ outer.inside)
      (fun outer inner : Place => inner ∈ outer.inside)
      (fun outer inner : Place => inner ∈ outer.inside) := ⟨mem_inside_trans⟩
  exact List.isChain_iff_pairwise.mp hstrict

theorem nodup_of_isChain {chain : List Place} (hchain : chain.IsChain HasChild) :
    chain.Nodup := by
  apply (pairwise_inside_of_isChain hchain).imp
  rintro outer _ hinner rfl
  exact path_ne_of_mem_inside hinner rfl

theorem mem_inside_of_isChain {place inner : Place} {chain : List Place}
    (hchain : (place :: chain).IsChain HasChild) (hinner : inner ∈ chain) :
    inner ∈ place.inside :=
  List.rel_of_pairwise_cons (pairwise_inside_of_isChain hchain) hinner

/-! The places that open at an instruction -/

theorem descent_of_childAt?_eq_none {place : Place} {index : Nat}
    (hnone : place.childAt? index = none) : place.descent index = [] := by
  rw [descent]
  split <;> simp_all

theorem descent_of_childAt?_eq_some {place child : Place} {index : Nat}
    (hchild : place.childAt? index = some child) :
    place.descent index = child :: child.descent index := by
  rw [descent]
  split <;> simp_all

theorem mem_children_of_childAt? {place child : Place} {index : Nat}
    (hchild : place.childAt? index = some child) : child ∈ place.children :=
  List.mem_of_find?_eq_some hchild

theorem start_of_childAt? {place child : Place} {index : Nat}
    (hchild : place.childAt? index = some child) : child.node.start = index := by
  simpa using List.find?_some hchild

theorem isChain_descent (place : Place) (index : Nat) :
    (place :: place.descent index).IsChain HasChild := by
  induction place using induction_children with
  | step place ih =>
      cases hfound : place.childAt? index with
      | none =>
          rw [descent_of_childAt?_eq_none hfound]
          exact List.isChain_singleton _
      | some child =>
          have hchild := mem_children_of_childAt? hfound
          rw [descent_of_childAt?_eq_some hfound]
          exact List.isChain_cons_cons.mpr ⟨hchild, ih child hchild⟩

theorem start_of_mem_descent {place inner : Place} {index : Nat}
    (hinner : inner ∈ place.descent index) : inner.node.start = index := by
  induction place using induction_children with
  | step place ih =>
      cases hfound : place.childAt? index with
      | none => simp [descent_of_childAt?_eq_none hfound] at hinner
      | some child =>
          rw [descent_of_childAt?_eq_some hfound] at hinner
          rcases List.mem_cons.mp hinner with rfl | hbelow
          · exact start_of_childAt? hfound
          · exact ih child (mem_children_of_childAt? hfound) hbelow

end Place

end DebugInfo
