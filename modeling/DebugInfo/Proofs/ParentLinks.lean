import DebugInfo.Proofs.OpenScopes
import Mathlib.Data.List.Perm.Subperm

/-!
Following links outwards comes to an end. Nothing bounds the way itself: links are not
checked, and a scope can be made with a link to itself or to one that is made later. But an
advance links what it opens to a scope that is there already. If whoever makes scopes by hand
does so too, or gives them no parent, every link leads back in the arena, whatever else was
asked in between.

Where links do go round in a circle, the search is broken off after as many steps as there
are scopes. That is never too early: a search that ends comes to no scope twice.
-/

namespace DebugInfo

namespace Arena

/-- The scopes without a descriptor that a search comes through from a link outwards, and
what it finds in the end: a descriptor, that of the subprogram behind the last scope, or a
link that leads nowhere. -/
inductive Search {δ : Type} (arena : Arena) (described : Nat → Option δ)
    (subprogram : Option δ) : Link → List Nat → Except Failure (Option δ) → Prop where
  | subprogram : Search arena described subprogram Link.none [] (.ok subprogram)
  | nowhere {link : Link} (hlink : link ≠ Link.none) (htarget : arena.target? link = none) :
      Search arena described subprogram link [] (.error .noScope)
  | found {index : Nat} {descriptor : δ} (hindex : index < arena.size)
      (hdescribed : described index = some descriptor) :
      Search arena described subprogram (index : Int) [] (.ok (some descriptor))
  | outer {index : Nat} {scope : Scope} {chain : List Nat} {found : Except Failure (Option δ)}
      (hscope : arena[index]? = some scope) (hdescribed : described index = none)
      (hrest : Search arena described subprogram scope.parent chain found) :
      Search arena described subprogram (index : Int) (index :: chain) found

section Search

variable {δ : Type} {arena : Arena} {described : Nat → Option δ} {subprogram : Option δ}
  {link : Link} {chain : List Nat} {found : Except Failure (Option δ)}

theorem nearestFrom_nowhere (hlink : link ≠ Link.none) (htarget : arena.target? link = none)
    (steps : Nat) :
    arena.nearestFrom described subprogram steps link = .error .noScope := by
  rw [nearestFrom, if_neg hlink, htarget]

theorem nearestFrom_zero {index : Nat} (hindex : index < arena.size)
    (hdescribed : described index = none) :
    arena.nearestFrom described subprogram 0 (index : Int) = .error .cyclicLinks := by
  rw [nearestFrom, if_neg (ofNat_ne_none index), target?_ofNat, if_pos hindex]
  simp only [hdescribed]

namespace Search

theorem ne_cyclicLinks (hsearch : arena.Search described subprogram link chain found) :
    found ≠ .error .cyclicLinks := by
  induction hsearch with
  | subprogram | nowhere | found => exact nofun
  | outer _ _ _ ih => exact ih

/-- It takes a step for each scope on the way. -/
theorem nearestFrom_eq (hsearch : arena.Search described subprogram link chain found)
    (steps : Nat) :
    arena.nearestFrom described subprogram steps link =
      if chain.length ≤ steps then found else .error .cyclicLinks := by
  induction hsearch generalizing steps with
  | subprogram => exact nearestFrom_none steps
  | nowhere hlink htarget => exact nearestFrom_nowhere hlink htarget steps
  | found hindex hdescribed => exact nearestFrom_described hindex hdescribed
  | outer hscope hdescribed _ ih =>
      cases steps with
      | zero => exact nearestFrom_zero (Array.getElem?_eq_some_iff.mp hscope).1 hdescribed
      | succ steps =>
          rw [nearestFrom_undescribed hscope hdescribed, ih]
          simp only [List.length_cons, Nat.succ_le_succ_iff]

/-- The rest of a search is a search from a scope on the way. -/
theorem suffix (hsearch : arena.Search described subprogram link chain found) {index : Nat}
    (hindex : index ∈ chain) :
    ∃ rest, index :: rest <:+ chain ∧
      arena.Search described subprogram (index : Int) (index :: rest) found := by
  induction hsearch with
  | subprogram | nowhere | found => cases hindex
  | outer hscope hdescribed hrest ih =>
      rcases List.mem_cons.mp hindex with rfl | hlater
      · exact ⟨_, List.suffix_refl _, .outer hscope hdescribed hrest⟩
      · obtain ⟨rest, hsuffix, hagain⟩ := ih hlater
        exact ⟨rest, hsuffix.trans (List.suffix_cons _ _), hagain⟩

theorem nodup (hsearch : arena.Search described subprogram link chain found) :
    chain.Nodup := by
  induction hsearch with
  | subprogram | nowhere | found => exact List.nodup_nil
  | outer hscope hdescribed hrest ih =>
      refine List.nodup_cons.mpr ⟨fun hagain => ?_, ih⟩
      -- From the same scope the search would take fewer steps the second time.
      obtain ⟨rest, hsuffix, hshorter⟩ := hrest.suffix hagain
      have hlength := hsuffix.length_le
      have htwice := hshorter.nearestFrom_eq (rest.length + 1)
      rw [(outer hscope hdescribed hrest).nearestFrom_eq] at htwice
      simp only [List.length_cons] at hlength htwice
      rw [if_neg (by omega), if_pos (Nat.le_refl _)] at htwice
      exact hshorter.ne_cyclicLinks htwice.symm

theorem lt_size (hsearch : arena.Search described subprogram link chain found) :
    ∀ index ∈ chain, index < arena.size := by
  induction hsearch with
  | subprogram | nowhere | found => exact List.forall_mem_nil _
  | outer hscope _ _ ih =>
      exact List.forall_mem_cons.mpr ⟨(Array.getElem?_eq_some_iff.mp hscope).1, ih⟩

theorem length_le_size (hsearch : arena.Search described subprogram link chain found) :
    chain.length ≤ arena.size := by
  have hsubset : chain ⊆ List.range arena.size := fun index hindex =>
    List.mem_range.mpr (hsearch.lt_size index hindex)
  have hlength := (List.Nodup.subperm hsearch.nodup hsubset).length_le
  rwa [List.length_range] at hlength

end Search

/-- A search is over at once or comes to a scope without a descriptor. -/
theorem search_or_undescribed (arena : Arena) (described : Nat → Option δ)
    (subprogram : Option δ) (link : Link) :
    (∃ found, arena.Search described subprogram link [] found) ∨
      ∃ (index : Nat) (scope : Scope), link = (index : Int) ∧ arena[index]? = some scope ∧
        described index = none := by
  by_cases hlink : link = Link.none
  · subst hlink
    exact .inl ⟨_, .subprogram⟩
  cases htarget : arena.target? link with
  | none => exact .inl ⟨_, .nowhere hlink htarget⟩
  | some index =>
      obtain ⟨rfl, hindex⟩ := target?_eq_some htarget
      cases hdescribed : described index with
      | some descriptor => exact .inl ⟨_, .found hindex hdescribed⟩
      | none => exact .inr ⟨index, _, rfl, Array.getElem?_eq_getElem hindex, hdescribed⟩

theorem exists_search {steps : Nat}
    (hends : arena.nearestFrom described subprogram steps link ≠ .error .cyclicLinks) :
    ∃ chain found, arena.Search described subprogram link chain found := by
  induction steps generalizing link with
  | zero =>
      obtain ⟨found, hover⟩ | ⟨index, scope, rfl, hscope, hdescribed⟩ :=
        arena.search_or_undescribed described subprogram link
      · exact ⟨[], found, hover⟩
      · exact absurd (nearestFrom_zero (Array.getElem?_eq_some_iff.mp hscope).1 hdescribed) hends
  | succ steps ih =>
      obtain ⟨found, hover⟩ | ⟨index, scope, rfl, hscope, hdescribed⟩ :=
        arena.search_or_undescribed described subprogram link
      · exact ⟨[], found, hover⟩
      · rw [nearestFrom_undescribed hscope hdescribed] at hends
        obtain ⟨chain, found, hrest⟩ := ih hends
        exact ⟨index :: chain, found, .outer hscope hdescribed hrest⟩

/-- As many steps as there are scopes are enough. With more of them nothing else is found. -/
theorem nearestFrom_of_size_le {steps : Nat} (hsteps : arena.size ≤ steps) (link : Link) :
    arena.nearestFrom described subprogram steps link =
      arena.nearestFrom described subprogram arena.size link := by
  by_cases hsearch : ∃ chain found, arena.Search described subprogram link chain found
  · obtain ⟨chain, found, hsearch⟩ := hsearch
    rw [hsearch.nearestFrom_eq, hsearch.nearestFrom_eq, if_pos hsearch.length_le_size,
      if_pos (hsearch.length_le_size.trans hsteps)]
  · have hcircle : ∀ steps, arena.nearestFrom described subprogram steps link =
        .error .cyclicLinks :=
      fun steps => by_contra fun hends => hsearch (exists_search hends)
    rw [hcircle, hcircle]

/-- What describes a scope without a descriptor describes its parent. -/
theorem nearest_of_undescribed {index : Nat} {scope : Scope}
    (hscope : arena[index]? = some scope) (hsmall : index < 2 ^ 31)
    (hdescribed : described index = none) :
    arena.nearest described subprogram index =
      arena.nearestFrom described subprogram arena.size scope.parent := by
  rw [nearest, Link.ofIndex_of_lt hsmall, ← nearestFrom_of_size_le (Nat.le_succ _),
    nearestFrom_undescribed hscope hdescribed]

end Search

end Arena

/-- Every scope has no parent or an earlier one. -/
def Arena.LinksBack (arena : Arena) : Prop :=
  ∀ (index : Nat) (scope : Scope), arena[index]? = some scope →
    scope.parent = Link.none ∨ ∃ parent < index, scope.parent = (parent : Int)

namespace Arena.LinksBack

variable {arena : Arena}

theorem root (source : Option Place) : LinksBack #[⟨source, Link.none⟩] := by
  intro index scope hscope
  have hmem : scope ∈ #[⟨source, Link.none⟩] := Array.mem_of_getElem? hscope
  rw [Array.mem_singleton.mp hmem]
  exact .inl rfl

theorem push (hback : arena.LinksBack) {source : Option Place} {link : Link}
    (hlink : link = Link.none ∨ ∃ parent < arena.size, link = (parent : Int)) :
    LinksBack (Array.push arena ⟨source, link⟩) := by
  intro index scope hscope
  rw [Array.getElem?_push] at hscope
  split at hscope
  case isTrue hnew =>
    cases hscope
    rw [hnew]
    exact hlink
  case isFalse => exact hback index scope hscope

/-- The way outwards from a scope is not longer than the arena up to it. -/
theorem exists_lineage (hback : arena.LinksBack) {index : Nat} (hindex : index < arena.size) :
    ∃ chain, arena.Lineage index chain ∧ chain.length ≤ index + 1 := by
  induction index using Nat.strong_induction_on with
  | _ index ih =>
      obtain ⟨⟨source, link⟩, hscope⟩ : ∃ scope, arena[index]? = some scope :=
        ⟨arena[index], Array.getElem?_eq_getElem hindex⟩
      rcases hback index _ hscope with rfl | ⟨parent, hlt, rfl⟩
      · exact ⟨[index], .last hscope, by simp⟩
      · obtain ⟨chain, houter, hlength⟩ := ih parent hlt (by omega)
        refine ⟨index :: chain, .inside hscope houter, ?_⟩
        simp only [List.length_cons]
        omega

end Arena.LinksBack

namespace Tracker

/-- A request to make a scope names an existing one as the parent, or none. Only the low
word of an index is looked at there, and all its bits set stand for no parent. -/
def Request.NamesParent (tracker : Tracker) : Request → Prop
  | .create around _ => around < tracker.arena.size ∨ around % UInt32.size = UInt32.size - 1
  | _ => True

/-- Each scope that a history makes by hand has a parent that exists by then, or none. -/
def NamesParents (context : FunctionContext) (tracker : Tracker) : List Request → Prop
  | [] => True
  | request :: rest =>
      request.NamesParent tracker ∧ NamesParents context (step context tracker request).2 rest

instance (tracker : Tracker) : (request : Request) → Decidable (request.NamesParent tracker)
  | .create around _ => inferInstanceAs (Decidable (around < tracker.arena.size ∨
      around % UInt32.size = UInt32.size - 1))
  | .pushRoot _ | .prepare | .advance _ | .enter _ | .parent _ | .nearest _ _ _ =>
      .isTrue trivial

instance decidableNamesParents (context : FunctionContext) :
    (tracker : Tracker) → (requests : List Request) →
      Decidable (NamesParents context tracker requests)
  | _, [] => .isTrue trivial
  | tracker, request :: rest =>
      have := decidableNamesParents context (step context tracker request).2 rest
      inferInstanceAs (Decidable (_ ∧ _))

section Steps

variable {context : FunctionContext} {root : Option Place} {tracker : Tracker}

theorem namesParents_concat {requests : List Request} {request : Request} :
    NamesParents context tracker (requests ++ [request]) ↔
      NamesParents context tracker requests ∧
        request.NamesParent (after context tracker requests) := by
  induction requests generalizing tracker with
  | nil => exact and_comm
  | cons first rest ih =>
      simp only [List.cons_append, NamesParents, ih, and_assoc]
      rfl

theorem Nested.linksBack_step (hsilent : context.mode.isDescribing = false)
    (hnested : tracker.Nested root) (hback : tracker.arena.LinksBack) {request : Request}
    (hroot : request.root? context = none) (hparent : request.NamesParent tracker)
    (hsmall : (Tracker.step context tracker request).2.arena.size ≤ 2 ^ 31) :
    (Tracker.step context tracker request).2.arena.LinksBack := by
  rcases step_cases hroot tracker with ⟨position, hstep⟩ |
    ⟨parent, path, place, rfl, hstep⟩ | ⟨index, -, hstep⟩
  · rw [hstep]
    exact hback
  · rw [hstep] at hsmall ⊢
    rw [Array.size_push] at hsmall
    apply hback.push
    rcases hparent with hexists | hnone
    · exact .inr ⟨parent, hexists, Link.ofIndex_of_lt (by change _ < 2 ^ 31; omega)⟩
    · exact .inl (Link.ofIndex_eq_none_iff.mpr hnone)
  · rw [hstep] at hsmall ⊢
    -- What opens is linked to the scope around it, which is there already.
    exact hnested.advance_induction (fun _ parent _ _ hplace _ hkept =>
      hkept.push (.inr ⟨parent, Arena.lt_size_of_place? hplace, rfl⟩)) hsilent hback index hsmall

/-- Beginning a function throws the arena away, so what came before does not count. -/
theorem linksBack_after (hsilent : context.mode = .silent) (tracker : Tracker)
    {requests : List Request} (hroot : lastRoot context requests = some root)
    (hparents : NamesParents context tracker requests)
    (hsmall : (after context tracker requests).arena.size ≤ 2 ^ 31) :
    (after context tracker requests).arena.LinksBack := by
  induction requests using List.reverseRecOn with
  | nil => cases hroot
  | append_singleton earlier request ih =>
      obtain ⟨hearlier, hparent⟩ := namesParents_concat.mp hparents
      rw [lastRoot_concat] at hroot
      rw [after_concat] at hsmall ⊢
      cases hrequest : request.root? context with
      | some source =>
          obtain ⟨answer, hstep⟩ :=
            step_of_root? hsilent hrequest (after context tracker earlier)
          rw [hstep]
          exact .root source
      | none =>
          rw [hrequest] at hroot
          have hgrown := (extends_step hrequest (after context tracker earlier)).size_le
          have hroom := hgrown.trans hsmall
          exact (nested_after hsilent tracker hroot hroom).linksBack_step
            (by rw [hsilent]; rfl) (ih hroot hearlier hroom) hrequest hparent hsmall

end Steps

/-- After any history in which a function was begun, and in which scopes that are made by
hand have a parent that exists or none, every link leads back. So following the links from
any scope ends, and it finds the first described scope on the way outwards, or else the
subprogram. -/
theorem nearest_of_namesParents {context : FunctionContext} (hsilent : context.mode = .silent)
    (tracker : Tracker) {requests : List Request} {root : Option Place}
    (hroot : lastRoot context requests = some root)
    (hparents : NamesParents context tracker requests)
    (hsmall : (after context tracker requests).arena.size ≤ 2 ^ 31) :
    (after context tracker requests).arena.LinksBack ∧
      ∀ index < (after context tracker requests).arena.size,
        ∃ chain, (after context tracker requests).arena.Lineage index chain ∧
          ∀ {δ : Type} (described : Nat → Option δ) (subprogram : Option δ),
            (after context tracker requests).arena.nearest described subprogram index =
              .ok ((chain.findSome? described).or subprogram) := by
  have hback := linksBack_after hsilent tracker hroot hparents hsmall
  refine ⟨hback, fun index hindex => ?_⟩
  obtain ⟨chain, hlineage, hlength⟩ := hback.exists_lineage hindex
  exact ⟨chain, hlineage, fun described subprogram =>
    hlineage.nearest_eq described subprogram (hlength.trans hindex) hsmall⟩

/-- Scopes are made without a parent, inside an open one, inside one that was made by hand,
and by an advance that opens two. -/
def mixed : List Request :=
  [.prepare, .create (2 ^ 64 - 1) [0], .advance 0, .create 3 [1], .enter 4, .create 1 [2],
    .advance 2]

theorem nearest_mixed :
    (after overlapping initial mixed).arena.LinksBack ∧
      ∃ chain, (after overlapping initial mixed).arena.Lineage 4 chain ∧
        (after overlapping initial mixed).arena.nearest
            (fun index => if index = 2 then some "outer" else none) none 4 =
          .ok ((chain.findSome? fun index => if index = 2 then some "outer" else none).or
            none) := by
  have hparents : NamesParents overlapping initial mixed := by decide +kernel
  obtain ⟨hback, hfound⟩ := nearest_of_namesParents rfl initial rfl hparents (by decide +kernel)
  obtain ⟨chain, hlineage, hnearest⟩ := hfound 4 (by decide +kernel)
  exact ⟨hback, chain, hlineage, hnearest _ _⟩

end Tracker

end DebugInfo
