import DebugInfo.Proofs.AppendOnly
import DebugInfo.Proofs.Interning
import DebugInfo.Proofs.TypeLinks
import Mathlib.Data.List.Permutation

/-!
Towers of addresses. A word of indirections is climbed from a type by asking for the address
type of each letter in turn, every time of the type that was answered before. A level of a
tower may have been entered long ago and for another purpose. This makes no difference,
because an interned address always has the record that it would get if it were entered
now. So the name of a tower, its namespace and its links are those of the word, and the id
tells which word was climbed.

Ids are told apart over one history only. Two histories can give one id to different towers.
-/

namespace DebugInfo

/-- The marks that a word puts behind a name, in its order. -/
def Indirection.marks (word : List Indirection) : String :=
  String.join (word.map mark)

theorem Indirection.marks_concat (word : List Indirection) (via : Indirection) :
    marks (word ++ [via]) = marks word ++ via.mark := by
  simp [marks, String.join_append, String.join_cons]

namespace TypeRecord

theorem fullName_eq_append {record ground : TypeRecord} {suffix : String}
    (hns : record.ns = ground.ns) (hname : record.name = ground.name ++ suffix) :
    record.fullName = ground.fullName ++ suffix := by
  rw [fullName, fullName, hns, hname]
  split
  · rfl
  · simp only [String.append_assoc]

end TypeRecord

namespace TypeTable

/-- Ask for the address type of each letter of a word in turn. -/
def climb (table : TypeTable) (base : TypeId) (word : List Indirection) :
    Except Failure (TypeId × TypeTable) :=
  word.foldlM (fun (target, current) via => current.indirect via target) (base, table)

/-- Follow element links from a type: the kinds of the types on the way, and the type that
the last link leads to. -/
def descend (table : TypeTable) (id : TypeId) : Nat → Except Failure (List Kind × TypeId)
  | 0 => .ok ([], id)
  | steps + 1 => do
      let record ← table.record id
      let (kinds, ground) ← table.descend record.element steps
      .ok (record.kind :: kinds, ground)

/-- A history asked for the address type of each letter of a word, the first time of the
base and then of the type answered for the letter before, with anything in between. -/
inductive Climbed (issued : List (Request × TypeId)) (base : TypeId) :
    List Indirection → TypeId → Prop where
  | ground : Climbed issued base [] base
  | level {word : List Indirection} {via : Indirection} {target id : TypeId}
      (hbelow : Climbed issued base word target)
      (hid : (Request.indirect via target, id) ∈ issued) :
      Climbed issued base (word ++ [via]) id

/-- What a type looks like that stands on a base as a word says. -/
structure IsTower (table : TypeTable) (ground : TypeRecord) (base : TypeId)
    (word : List Indirection) (id : TypeId) : Prop where
  record : ∃ record, table.record id = .ok record ∧ record.ns = ground.ns ∧
    record.name = ground.name ++ Indirection.marks word
  fullName : table.fullName id = .ok (ground.fullName ++ Indirection.marks word)
  /-- The links lead back to the base through the letters, read backwards. -/
  descends : table.descend id word.length =
    .ok ((word.map Indirection.kind).reverse, base)
  above : word ≠ [] → base < id

/-! What is interned for addresses -/

/-- Interned addresses have the records that they would get if they were entered now. -/
def UpToDate (table : TypeTable) : Prop :=
  ∀ via target id, table.interned[Shape.indirect via target]? = some id →
    ∃ ground, table.record target = .ok ground ∧
      table.record id = .ok (.ofIndirection via target ground)

/-- Interned ids are those of types, also where ids have run out. -/
def IsLive (table : TypeTable) : Prop :=
  ∀ (shape : Shape) (id : TypeId), table.interned[shape]? = some id → table.knows id = true

section Steps

variable {table next : TypeTable} {request : Request} {reply : Except Failure Answer}

theorem Effect.upToDate (heffect : Effect table request reply next)
    (hupToDate : table.UpToDate) (hroom : next.size ≤ UInt32.size) : next.UpToDate := by
  intro via target id hid
  rcases heffect.interned_cases hid with hold | ⟨hshape, -, record, henters, rfl, rfl⟩
  · obtain ⟨ground, hground, hrecord⟩ := hupToDate via target id hold
    obtain ⟨fields, hkept⟩ := heffect.keeps hground
    refine ⟨_, hkept, heffect.record_keeps hrecord fun _ _ => ?_⟩
    cases via <;> rfl
  · rw [size_intern] at hroom
    have hid := table.toNat_add record hroom
    cases henters with
    | indirect htarget =>
        cases hshape
        exact ⟨_, (record_push_iff rfl).mpr (Or.inl htarget),
          (record_push_iff rfl).mpr (Or.inr ⟨hid, rfl⟩)⟩
    | primitive | enumeration | aggregate | unshaped => cases hshape

theorem Effect.isLive (heffect : Effect table request reply next) (hlive : table.IsLive) :
    next.IsLive := by
  intro shape id hid
  rcases heffect.interned_cases hid with hold | ⟨-, -, record, -, rfl, rfl⟩
  · exact heffect.knows (hlive shape id hold)
  · exact table.knows_add record

theorem IsLive.exists_indirect (hlive : table.IsLive) {target : TypeId}
    (htarget : table.knows target = true) (via : Indirection) :
    ∃ id next, table.indirect via target = .ok (id, next) ∧ next.knows id = true := by
  cases hid : table.interned[Shape.indirect via target]? with
  | some id =>
      refine ⟨id, table, ?_, hlive _ id hid⟩
      simp only [indirect, hid]
  | none =>
      obtain ⟨record, hrecord⟩ := record_of_knows htarget
      refine ⟨_, (table.intern (.indirect via target) (.ofIndirection via target record)).2,
        ?_, table.knows_add _⟩
      simp only [indirect, hid, hrecord, Except.map]
      rfl

end Steps

theorem upToDate_after (requests : List Request)
    (hroom : (after seed requests).size ≤ UInt32.size) : (after seed requests).UpToDate := by
  have hseed : seed.UpToDate := by
    intro via target id hid
    rw [interned_indirect_seed] at hid
    cases hid
  generalize seed = table at *
  induction requests generalizing table with
  | nil => exact hseed
  | cons request rest ih =>
      have hfirst := Nat.le_trans (size_le_after (table.step request).2 rest) hroom
      exact ih _ hroom ((table.effect_step request).upToDate hseed hfirst)

theorem isLive_after {table : TypeTable} (hlive : table.IsLive) (requests : List Request) :
    (after table requests).IsLive :=
  History.after_induction (fun table request => (table.effect_step request).isLive)
    hlive requests

theorem isLive_seed : seed.IsLive :=
  fun _ _ hid => (accounted_seed.consistent.stands hid).known

/-! Climbing -/

theorem climb_concat (table : TypeTable) (base : TypeId) (word : List Indirection)
    (via : Indirection) :
    table.climb base (word ++ [via]) = (table.climb base word).bind fun (target, current) =>
      current.indirect via target := by
  simp only [climb, List.foldlM_append, List.foldlM_cons, List.foldlM_nil, bind_pure]
  rfl

theorem Climbed.mono {first second : List (Request × TypeId)} (hsub : first ⊆ second)
    {base : TypeId} {word : List Indirection} {id : TypeId}
    (hclimbed : Climbed first base word id) : Climbed second base word id := by
  induction hclimbed with
  | ground => exact .ground
  | level _ hid ih => exact .level ih (hsub hid)

/-- From a known type every word can be climbed, with one request for each letter. -/
theorem IsLive.exists_climb {table : TypeTable} (hlive : table.IsLive) {base : TypeId}
    (hbase : table.knows base = true) (word : List Indirection) :
    ∃ climbing id, climbing.length = word.length ∧
      table.climb base word = .ok (id, after table climbing) ∧
      Climbed (issued table climbing) base word id ∧
      (after table climbing).knows id = true := by
  induction word using List.reverseRecOn with
  | nil => exact ⟨[], base, rfl, rfl, .ground, hbase⟩
  | append_singleton word via ih =>
      obtain ⟨climbing, target, hlength, hclimb, hclimbed, htarget⟩ := ih
      obtain ⟨id, next, hindirect, hid⟩ := (isLive_after hlive climbing).exists_indirect htarget via
      have hstep : (after table climbing).step (.indirect via target) =
          (.ok (.id id), next) := by
        simp only [step, hindirect, answerId]
      have hafter : after table (climbing ++ [.indirect via target]) = next := by
        rw [after, History.after_append, History.after_cons]
        exact congrArg Prod.snd hstep
      have hissued : issued table (climbing ++ [.indirect via target]) =
          issued table climbing ++ [(.indirect via target, id)] := by
        rw [issued_append, issued_cons, hstep]
        rfl
      refine ⟨climbing ++ [.indirect via target], id, ?_, ?_, ?_, ?_⟩
      · rw [List.length_append, List.length_append, hlength]
        rfl
      · rw [climb_concat, hclimb, hafter]
        exact hindirect
      · rw [hissued]
        exact .level (hclimbed.mono (List.subset_append_left _ _)) (by simp)
      · rw [hafter]
        exact hid

/-! What was climbed -/

theorem Climbed.nil_cases {issued : List (Request × TypeId)} {base id : TypeId}
    (hclimbed : Climbed issued base [] id) : id = base := by
  generalize hword : [] = word at hclimbed
  cases hclimbed with
  | ground => rfl
  | level => simp at hword

theorem Climbed.concat_cases {issued : List (Request × TypeId)} {base id : TypeId}
    {word : List Indirection} {via : Indirection}
    (hclimbed : Climbed issued base (word ++ [via]) id) :
    ∃ target, Climbed issued base word target ∧
      (Request.indirect via target, id) ∈ issued := by
  generalize hwhole : word ++ [via] = whole at hclimbed
  cases hclimbed with
  | ground => simp at hwhole
  | level hbelow hid =>
      obtain ⟨rfl, hvia⟩ := List.append_inj' hwhole rfl
      cases hvia
      exact ⟨_, hbelow, hid⟩

theorem descend_succ {table : TypeTable} {id : TypeId} {record : TypeRecord} {steps : Nat}
    {answer : List Kind × TypeId} (hrecord : table.record id = .ok record)
    (hbelow : table.descend record.element steps = .ok answer) :
    table.descend id (steps + 1) = .ok (record.kind :: answer.1, answer.2) := by
  simp only [descend, hrecord, bind, Except.bind, hbelow]

section Towers

variable {table : TypeTable} {ground : TypeRecord} {base : TypeId}

theorem isTower_nil {layout : Option (List Field)}
    (hground : table.record base = .ok { ground with fields := layout }) :
    table.IsTower ground base [] base where
  record := ⟨_, hground, rfl, by simp [Indirection.marks]⟩
  fullName := by
    rw [TypeTable.fullName, hground, Indirection.marks, List.map_nil, String.join_nil,
      String.append_empty]
    rfl
  descends := rfl
  above := fun hne => absurd rfl hne

theorem IsTower.base_le {word : List Indirection} {id : TypeId}
    (htower : table.IsTower ground base word id) : base ≤ id := by
  cases word with
  | nil =>
      have hdescends := htower.descends
      simp only [List.length_nil, descend, Except.ok.injEq, Prod.mk.injEq] at hdescends
      rw [hdescends.2]
      exact UInt32.le_refl _
  | cons via rest => exact UInt32.le_of_lt (htower.above (List.cons_ne_nil _ _))

/-- The address of a tower is a tower with one letter more. -/
theorem IsTower.concat {word : List Indirection} {target id : TypeId}
    (htower : table.IsTower ground base word target) {via : Indirection} {below : TypeRecord}
    (hbelow : table.record target = .ok below)
    (hrecord : table.record id = .ok (.ofIndirection via target below)) (hlt : target < id) :
    table.IsTower ground base (word ++ [via]) id := by
  have hnames : (TypeRecord.ofIndirection via target below).ns = ground.ns ∧
      (TypeRecord.ofIndirection via target below).name =
        ground.name ++ Indirection.marks (word ++ [via]) := by
    obtain ⟨record, hfound, hns, hname⟩ := htower.record
    rw [hbelow] at hfound
    cases hfound
    refine ⟨hns, ?_⟩
    rw [Indirection.marks_concat, ← String.append_assoc, ← hname]
    rfl
  refine ⟨⟨_, hrecord, hnames⟩, ?_, ?_, fun _ => ?_⟩
  · rw [TypeTable.fullName, hrecord, ← TypeRecord.fullName_eq_append hnames.1 hnames.2]
    rfl
  · rw [List.length_append, List.map_append, List.reverse_append]
    exact descend_succ hrecord htower.descends
  · exact UInt32.lt_of_le_of_lt htower.base_le hlt

variable {ids : List (Request × TypeId)}

theorem Climbed.isTower (haccounted : table.Accounted ids) (hupToDate : table.UpToDate)
    (hlinked : ∀ id record, table.record id = .ok record → table.WellLinked id record)
    {layout : Option (List Field)}
    (hground : table.record base = .ok { ground with fields := layout })
    {word : List Indirection} {id : TypeId} (hclimbed : Climbed ids base word id) :
    table.IsTower ground base word id := by
  induction hclimbed with
  | ground => exact isTower_nil hground
  | @level word via target id _ hid ih =>
      have hinterned := haccounted.interned_of_mem hid rfl
      obtain ⟨below, hbelow, hrecord⟩ := hupToDate via target id hinterned
      have hkind : via.kind = .pointer ∨ via.kind = .byReference := by
        cases via with
        | pointer => exact Or.inl rfl
        | byReference => exact Or.inr rfl
      have hlt : target < id := (hlinked id _ hrecord).element hkind
      exact ih.concat hbelow hrecord hlt

theorem Climbed.id_eq (haccounted : table.Accounted ids) {word : List Indirection}
    {id other : TypeId} (hclimbed : Climbed ids base word id)
    (hagain : Climbed ids base word other) : id = other := by
  induction hclimbed generalizing other with
  | ground => exact hagain.nil_cases.symm
  | level _ hid ih =>
      obtain ⟨target, htarget, hother⟩ := hagain.concat_cases
      obtain rfl := ih htarget
      have hinterned := haccounted.interned_of_mem hid rfl
      rw [haccounted.interned_of_mem hother rfl] at hinterned
      exact (Option.some.inj hinterned).symm

/-- A word of at least one letter leads above the base. What an id was interned for gives
the last letter and the id below it. -/
theorem Climbed.word_eq (haccounted : table.Accounted ids)
    (habove : ∀ word id, Climbed ids base word id → word ≠ [] → base < id)
    {first second : List Indirection} {id : TypeId} (hfirst : Climbed ids base first id)
    (hsecond : Climbed ids base second id) : first = second := by
  induction hfirst generalizing second with
  | ground =>
      by_contra hne
      exact UInt32.lt_irrefl _ (habove second base hsecond (Ne.symm hne))
  | @level word via target id hbelow hid ih =>
      rcases List.eq_nil_or_concat second with rfl | ⟨rest, last, rfl⟩
      · have hlt := habove _ _ (hbelow.level hid) (by simp)
        rw [hsecond.nil_cases] at hlt
        exact absurd hlt (UInt32.lt_irrefl _)
      · rw [List.concat_eq_append] at hsecond ⊢
        obtain ⟨other, hother, hlast⟩ := hsecond.concat_cases
        have hstands := haccounted.stands _ hid
        have hinterned := haccounted.interned_of_mem hlast rfl
        cases (hstands.interned _).mp hinterned
        rw [ih hother]

end Towers

theorem Climbed.isTower_after {requests : List Request}
    (hroom : (after seed requests).size ≤ UInt32.size) {base : TypeId} {ground : TypeRecord}
    (layout : Option (List Field))
    (hground : (after seed requests).record base = .ok { ground with fields := layout })
    {word : List Indirection} {id : TypeId}
    (hclimbed : Climbed (seeded ++ issued seed requests) base word id) :
    (after seed requests).IsTower ground base word id :=
  hclimbed.isTower (accounted_seed.after requests hroom) (upToDate_after requests hroom)
    (fun _ _ => wellLinked_after (by decide) (fun _ _ => wellLinked_seed) requests) hground

/-- Towers of addresses in every history, over every type that it knows. From there every
word can be climbed, with one request for each of its letters, and leads to a tower. Whatever
words the history climbed, in whatever order and with whatever in between, they led to
towers as well, and the ids of two over one base are equal exactly if the words are. -/
theorem towers_of_addresses (requests : List Request) {base : TypeId} {ground : TypeRecord}
    (hground : (after seed requests).record base = .ok ground) :
    (∀ word, ∃ climbing id, climbing.length = word.length ∧
      (after seed requests).climb base word = .ok (id, after seed (requests ++ climbing)) ∧
      Climbed (issued seed (requests ++ climbing)) base word id ∧
      ((after seed (requests ++ climbing)).size ≤ UInt32.size →
        (after seed (requests ++ climbing)).IsTower ground base word id)) ∧
    ((after seed requests).size ≤ UInt32.size →
      (∀ word id, Climbed (issued seed requests) base word id →
        (after seed requests).IsTower ground base word id) ∧
      ∀ first second firstId secondId, Climbed (issued seed requests) base first firstId →
        Climbed (issued seed requests) base second secondId →
        (firstId = secondId ↔ first = second)) := by
  constructor
  · intro word
    obtain ⟨climbing, id, hlength, hclimb, hclimbed, -⟩ :=
      (isLive_after isLive_seed requests).exists_climb (knows_of_record hground) word
    have hafter : after seed (requests ++ climbing) = after (after seed requests) climbing :=
      History.after_append _ _ _ _
    have hwhole : Climbed (issued seed (requests ++ climbing)) base word id := by
      rw [issued_append]
      exact hclimbed.mono (List.subset_append_right _ _)
    refine ⟨climbing, id, hlength, by rw [hclimb, hafter], hwhole, fun hroom => ?_⟩
    apply (hwhole.mono (List.subset_append_right seeded _)).isTower_after hroom
    rw [hafter]
    exact after_record_eq hground climbing
  · intro hroom
    have haccounted := accounted_seed.after requests hroom
    have htower : ∀ word id, Climbed (seeded ++ issued seed requests) base word id →
        (after seed requests).IsTower ground base word id :=
      fun _ _ hclimbed => hclimbed.isTower_after hroom ground.fields hground
    have hmono : ∀ word id, Climbed (issued seed requests) base word id →
        Climbed (seeded ++ issued seed requests) base word id :=
      fun _ _ hclimbed => hclimbed.mono (List.subset_append_right _ _)
    refine ⟨fun word id hclimbed => htower word id (hmono word id hclimbed), ?_⟩
    intro first second firstId secondId hfirst hsecond
    constructor
    · rintro rfl
      exact (hmono _ _ hfirst).word_eq haccounted
        (fun word id hclimbed => (htower word id hclimbed).above) (hmono _ _ hsecond)
    · rintro rfl
      exact (hmono _ _ hfirst).id_eq haccounted (hmono _ _ hsecond)

/-- Two towers over a class, climbed by turns: a by-reference of a pointer and a pointer of a
by-reference. In between its fields are published and a request fails, and at last the
lowest level of one is asked for again. -/
def mixedClimbs : List Request :=
  [.addAggregate { ns := "App", name := "Node" }, .indirect .pointer 15,
    .indirect .byReference 15, .publish 15 [{ type := 16 }], .indirect .byReference 16,
    .indirect .pointer 99, .indirect .pointer 17, .indirect .pointer 15]

theorem towers_mixedClimbs :
    (after seed mixedClimbs).size ≤ UInt32.size ∧
      (after seed mixedClimbs).record 15 = .ok
        { TypeRecord.ofAggregate { ns := "App", name := "Node" } with
          fields := some [{ type := 16 }] } ∧
      Climbed (issued seed mixedClimbs) 15 [.pointer, .byReference] 18 ∧
      (after seed mixedClimbs).fullName 18 = .ok "App.Node*&" ∧
      (after seed mixedClimbs).descend 18 2 = .ok ([.byReference, .pointer], 15) ∧
      ¬ Climbed (issued seed mixedClimbs) 15 [.byReference, .pointer] 18 := by
  have hroom : (after seed mixedClimbs).size ≤ UInt32.size :=
    Nat.le_trans (size_after_le seed mixedClimbs) (by decide)
  have hissued : issued seed mixedClimbs =
      [(.addAggregate { ns := "App", name := "Node" }, 15), (.indirect .pointer 15, 16),
        (.indirect .byReference 15, 17), (.indirect .byReference 16, 18),
        (.indirect .pointer 17, 19), (.indirect .pointer 15, 16)] := by cbv
  have hpointer : Climbed (issued seed mixedClimbs) 15 [.pointer] 16 :=
    Climbed.ground.level (by simp [hissued])
  have hfirst : Climbed (issued seed mixedClimbs) 15 [.pointer, .byReference] 18 :=
    hpointer.level (by simp [hissued])
  have hground : (after seed mixedClimbs).record 15 = .ok
      { TypeRecord.ofAggregate { ns := "App", name := "Node" } with
        fields := some [{ type := 16 }] } := by cbv
  obtain ⟨htower, htold⟩ := (towers_of_addresses mixedClimbs hground).2 hroom
  have hname := (htower _ _ hfirst).fullName
  refine ⟨hroom, hground, hfirst, hname.trans (by decide), (htower _ _ hfirst).descends, ?_⟩
  intro hother
  have hsame := (htold _ _ _ _ hfirst hother).mp rfl
  cases hsame

end TypeTable

end DebugInfo
