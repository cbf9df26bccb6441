import Mathlib.Data.List.Infix
import DebugInfo.DottedPath
import DebugInfo.LinkageName
import DebugInfo.TypeTable.Lemmas
import DebugInfo.TypeTable.Request

/-!
What a linkage name says. Its parts, joined by separators, are the segments of the type's
namespace, the pieces of the type's own name and the method, so the namespace is divided
here as it is when it is described. Dots in the method are no divisions.

Where neither the type nor the method has a colon, both can be read back: the method
stands behind the last separator, and before it every separator was a dot. With colons
this fails, since `A:` with `m` and `A` with `:m` have the same name.
-/

namespace DebugInfo

/-- A text cut at its last separator: what stands before it and behind it. -/
def cutLast? : List Char → Option (List Char × List Char)
  | [] => none
  | c :: rest =>
      ((cutLast? rest).map fun (left, right) => (c :: left, right)).or
        ((separator.isPrefixOf? (c :: rest)).map fun right => ([], right))

/-- Every pair of colons becomes a dot, from the left. -/
def contractPairs : List Char → List Char
  | ':' :: ':' :: rest => '.' :: contractPairs rest
  | c :: rest => c :: contractPairs rest
  | [] => []

/-! Cutting at the last separator -/

theorem cutLast?_eq_none_iff (text : List Char) :
    cutLast? text = none ↔ ¬ separator <:+: text := by
  induction text with
  | nil => simp [cutLast?, separator]
  | cons c rest ih =>
      have hprefix : separator.isPrefixOf? (c :: rest) = none ↔ ¬ separator <+: c :: rest := by
        rw [← Option.not_isSome_iff_eq_none, List.isSome_isPrefixOf?_eq_isPrefixOf,
          List.isPrefixOf_iff_prefix]
      rw [cutLast?, Option.or_eq_none_iff, Option.map_eq_none_iff, Option.map_eq_none_iff, ih,
        hprefix, List.infix_cons_iff, not_or, and_comm]

/-- The last separator is the one from whose second colon on there is no other. -/
theorem cutLast?_eq_some_iff {text left right : List Char} :
    cutLast? text = some (left, right) ↔
      text = left ++ separator ++ right ∧ ¬ separator <:+: ':' :: right := by
  constructor
  · intro hcut
    induction text generalizing left with
    | nil => cases hcut
    | cons c rest ih =>
        rw [cutLast?, Option.or_eq_some_iff] at hcut
        rcases hcut with hlater | ⟨hnone, hhere⟩
        · obtain ⟨⟨before, right⟩, hrest, hcut⟩ := Option.map_eq_some_iff.mp hlater
          cases hcut
          obtain ⟨rfl, hlast⟩ := ih hrest
          exact ⟨rfl, hlast⟩
        · obtain ⟨right, hprefix, hcut⟩ := Option.map_eq_some_iff.mp hhere
          cases hcut
          have htext := List.isPrefixOf?_eq_some_iff_append_eq.mp hprefix
          cases htext
          exact ⟨rfl, (cutLast?_eq_none_iff _).mp (Option.map_eq_none_iff.mp hnone)⟩
  · rintro ⟨rfl, hlast⟩
    induction left with
    | nil =>
        have hnone := (cutLast?_eq_none_iff _).mpr hlast
        have hprefix : separator.isPrefixOf? (':' :: ':' :: right) = some right :=
          List.isPrefixOf?_eq_some_iff_append_eq.mpr rfl
        change cutLast? (':' :: ':' :: right) = some ([], right)
        rw [cutLast?, hnone, hprefix]
        rfl
    | cons c before ih =>
        change cutLast? (c :: (before ++ separator ++ right)) = some (c :: before, right)
        rw [cutLast?, ih]
        rfl

/-- A text without colons stands behind the last separator. -/
theorem cutLast?_append {right : List Char} (left : List Char) (hright : ':' ∉ right) :
    cutLast? (left ++ separator ++ right) = some (left, right) := by
  refine cutLast?_eq_some_iff.mpr ⟨rfl, fun hagain => ?_⟩
  have hcount : 2 ≤ (':' :: right).count ':' := hagain.sublist.count_le ':'
  rw [List.count_cons_self, List.count_eq_zero_of_not_mem hright] at hcount
  exact absurd hcount (by decide)

/-! Reading the type and the method back -/

theorem contractPairs_cons {c : Char} (hcolon : c ≠ ':') (rest : List Char) :
    contractPairs (c :: rest) = c :: contractPairs rest := by
  rw [contractPairs.eq_def]
  split
  · rename_i hpair
    cases hpair
    exact absurd rfl hcolon
  · rename_i heq
    cases heq
    rfl
  · rename_i hnil
    cases hnil

/-- In a text without colons every dot is found again. -/
theorem contractPairs_expandDots {text : List Char} (hcolon : ':' ∉ text) :
    contractPairs (expandDots text) = text := by
  induction text with
  | nil => rfl
  | cons c rest ih =>
      obtain ⟨hc, hrest⟩ := List.ne_and_not_mem_of_not_mem_cons hcolon
      by_cases hdot : c = '.'
      · subst hdot
        rw [expandDots_cons, if_pos rfl]
        change '.' :: contractPairs (expandDots rest) = _
        rw [ih hrest]
      · rw [expandDots_cons, if_neg hdot, List.singleton_append,
          contractPairs_cons (Ne.symm hc), ih hrest]

/-- Type and method are read back from a linkage name, as long as neither has a colon, so
no two methods share one. -/
theorem linkageName_unambiguous {typeName method : String} (htype : ':' ∉ typeName.toList)
    (hmethod : ':' ∉ method.toList) :
    (∃ qualifier, cutLast? (linkageName typeName method).toList = some (qualifier, method.toList) ∧
      contractPairs qualifier = typeName.toList) ∧
    ∀ otherType otherMethod : String, ':' ∉ otherType.toList → ':' ∉ otherMethod.toList →
      linkageName typeName method = linkageName otherType otherMethod →
      typeName = otherType ∧ method = otherMethod := by
  have hcut := cutLast?_append (expandDots typeName.toList) hmethod
  rw [← toList_linkageName] at hcut
  refine ⟨⟨_, hcut, contractPairs_expandDots htype⟩, ?_⟩
  intro otherType otherMethod hotherType hotherMethod hsame
  have hother := cutLast?_append (expandDots otherType.toList) hotherMethod
  rw [← toList_linkageName, ← hsame, hcut, Option.some.injEq, Prod.mk.injEq] at hother
  obtain ⟨hqualifier, hmethods⟩ := hother
  refine ⟨String.toList_inj.mp ?_, String.toList_inj.mp hmethods⟩
  rw [← contractPairs_expandDots htype, hqualifier, contractPairs_expandDots hotherType]

theorem constructor_unambiguous :
    ':' ∉ ".A..B.".toList ∧ ':' ∉ "..ctor".toList ∧
      (∃ qualifier, cutLast? (linkageName ".A..B." "..ctor").toList =
        some (qualifier, "..ctor".toList) ∧ contractPairs qualifier = ".A..B.".toList) ∧
      linkageName ".A..B." "..ctor" ≠ linkageName ".A." "B...ctor" := by
  have htype : ':' ∉ ".A..B.".toList := by decide
  have hmethod : ':' ∉ "..ctor".toList := by decide
  obtain ⟨hread, hunique⟩ := linkageName_unambiguous htype hmethod
  refine ⟨htype, hmethod, hread, fun hsame => ?_⟩
  obtain ⟨hsameType, -⟩ := hunique ".A." "B...ctor" (by decide) (by decide) hsame
  exact absurd hsameType (by decide)

example : linkageName "A:" "m" = linkageName "A" ":m" := by decide

/-! Segments -/

/-- Rows that are joined one behind the other are joined by one more divider. -/
theorem intercalate_append {α : Type} (divider : List α) {first second : List (List α)}
    (hfirst : first ≠ []) (hsecond : second ≠ []) :
    divider.intercalate (first ++ second) =
      divider.intercalate first ++ divider ++ divider.intercalate second := by
  induction first with
  | nil => exact absurd rfl hfirst
  | cons piece rest ih =>
      cases rest with
      | nil =>
          rw [List.singleton_append, List.intercalate_cons_of_ne_nil hsecond,
            List.intercalate_singleton]
      | cons next more =>
          rw [List.cons_append, List.intercalate_cons_of_ne_nil (by simp),
            ih (by simp), List.intercalate_cons_cons]
          simp only [List.append_assoc]

theorem expandDots_of_not_mem {text : List Char} (hdot : '.' ∉ text) : expandDots text = text := by
  induction text with
  | nil => rfl
  | cons c rest ih =>
      obtain ⟨hc, hrest⟩ := List.ne_and_not_mem_of_not_mem_cons hdot
      rw [expandDots_cons, if_neg (Ne.symm hc), ih hrest]
      rfl

theorem expandDots_intercalate {pieces : List (List Char)} (hdots : ∀ piece ∈ pieces, '.' ∉ piece) :
    expandDots (['.'].intercalate pieces) = separator.intercalate pieces := by
  induction pieces with
  | nil => rfl
  | cons piece rest ih =>
      have hpiece := expandDots_of_not_mem (hdots piece List.mem_cons_self)
      have hrest := ih fun other hother => hdots other (List.mem_cons_of_mem _ hother)
      cases rest with
      | nil => rw [List.intercalate_singleton, List.intercalate_singleton, hpiece]
      | cons next more =>
          rw [List.intercalate_cons_cons, List.intercalate_cons_cons, expandDots_append,
            expandDots_append, hpiece, hrest]
          rfl

/-- Expanding the dots joins the pieces between them by separators. -/
theorem expandDots_eq (text : List Char) :
    expandDots text = separator.intercalate (DottedPath.split text) := by
  rw [← expandDots_intercalate fun _ => DottedPath.not_mem_of_mem_split,
    DottedPath.intercalate_split]

/-- The pieces of the type's name and the method are the parts of a linkage name. -/
theorem toList_linkageName_eq (typeName method : String) :
    (linkageName typeName method).toList =
      separator.intercalate (DottedPath.split typeName.toList ++ [method.toList]) := by
  rw [toList_linkageName, expandDots_eq,
    intercalate_append _ (DottedPath.split_ne_nil _) (List.cons_ne_nil _ _),
    List.intercalate_singleton]

/-- What stands before a dot qualifies the name of what stands behind it. -/
theorem linkageName_dot (outer inner method : String) :
    linkageName (outer ++ "." ++ inner) method = linkageName outer (linkageName inner method) := by
  rw [← String.toList_inj]
  simp only [toList_linkageName, String.toList_append, expandDots_append, List.append_assoc]
  rfl

namespace TypeRecord

variable {record : TypeRecord}

theorem linkageName_fullName_of_ns (hns : record.ns ≠ "") (method : String) :
    linkageName record.fullName method =
      linkageName record.ns (linkageName record.name method) := by
  have hfull : record.fullName = record.ns ++ "." ++ record.name := if_neg (by simpa using hns)
  rw [hfull, linkageName_dot]

/-- The namespace is divided into its segments and the type's own name into its pieces. -/
theorem toList_linkageName_fullName (record : TypeRecord) (method : String) :
    (linkageName record.fullName method).toList =
      separator.intercalate (DottedPath.segments record.ns.toList ++
        DottedPath.split record.name.toList ++ [method.toList]) := by
  have hinner := toList_linkageName_eq record.name method
  by_cases hns : record.ns = ""
  · have hfull : record.fullName = record.name := if_pos (by simpa using hns)
    rw [hfull, hinner, hns]
    rfl
  · have hsegments : DottedPath.segments record.ns.toList = DottedPath.split record.ns.toList :=
      if_neg (by simpa using hns)
    have hparts : DottedPath.split record.name.toList ++ [method.toList] ≠ [] := by simp
    calc (linkageName record.fullName method).toList
        = (linkageName record.ns (linkageName record.name method)).toList := by
          rw [linkageName_fullName_of_ns hns]
      _ = separator.intercalate (DottedPath.split record.ns.toList) ++ separator ++
            separator.intercalate (DottedPath.split record.name.toList ++ [method.toList]) := by
          rw [toList_linkageName, expandDots_eq, hinner]
      _ = _ := by
          rw [← intercalate_append _ (DottedPath.split_ne_nil _) hparts, hsegments,
            List.append_assoc]

end TypeRecord

/-- The linkage names of the methods of a known type follow its namespace, whatever dots
there are in the namespace, in the name or in the method. -/
theorem TypeTable.linkageName_follows_namespace {table : TypeTable} {id : TypeId}
    (hid : table.knows id = true) :
    (∃ record typeName, table.record id = .ok record ∧ table.fullName id = .ok typeName ∧
      ∀ method,
        (linkageName typeName method).toList =
          separator.intercalate (DottedPath.segments record.ns.toList ++
            DottedPath.split record.name.toList ++ [method.toList]) ∧
        (record.ns ≠ "" → linkageName typeName method =
          linkageName record.ns (linkageName record.name method))) ∧
    ∀ outer inner method : String,
      linkageName (outer ++ "." ++ inner) method =
        linkageName outer (linkageName inner method) := by
  obtain ⟨record, hrecord⟩ := record_of_knows hid
  refine ⟨⟨record, record.fullName, hrecord, ?_, fun method => ?_⟩, linkageName_dot⟩
  · rw [fullName, hrecord]
    rfl
  · exact ⟨record.toList_linkageName_fullName method,
      fun hns => TypeRecord.linkageName_fullName_of_ns hns method⟩

/-- A class whose namespace has empty segments and whose name has a dot. -/
def nestedClass : List TypeTable.Request :=
  [.addAggregate { ns := ".App..Model", name := "List.Node" }]

theorem TypeTable.linkageName_follows_empty_segments :
    (after seed nestedClass).knows 15 = true ∧
      (after seed nestedClass).fullName 15 = .ok ".App..Model.List.Node" ∧
      (linkageName ".App..Model.List.Node" ".ctor").toList =
        separator.intercalate
          ["".toList, "App".toList, "".toList, "Model".toList, "List".toList, "Node".toList,
            ".ctor".toList] := by
  have hid : (after seed nestedClass).knows 15 = true := by decide
  have hname : (after seed nestedClass).fullName 15 = .ok ".App..Model.List.Node" := by decide
  have hrecord : (after seed nestedClass).record 15 =
      .ok (.ofAggregate { ns := ".App..Model", name := "List.Node" }) := rfl
  obtain ⟨⟨record, typeName, hrecord', hname', hparts⟩, -⟩ := linkageName_follows_namespace hid
  rw [hrecord] at hrecord'
  rw [hname] at hname'
  cases hrecord'
  cases hname'
  exact ⟨hid, hname, (hparts ".ctor").1⟩

end DebugInfo
