import DebugInfo.Registry.Classes
import DebugInfo.TypeTable.Lemmas

/-!
What describing does to the classes of a registry. However far it comes, it only declares
classes: each that is part of the unit is put into the queue, once, and was a type of the
table without a class before. Completing a class can declare others as well. It sets the
class aside if its layout is unknown, and otherwise the class is pending no more.
-/

namespace DebugInfo

namespace Registry

variable {δ α β : Type}

/-- The class is part of the unit and did not get its members yet. -/
def IsPending (registry : Registry δ) (id : TypeId) : Prop :=
  ∃ slot, registry.classes[id]? = some ⟨.pending, slot⟩

/-- Which classes there are and which of them wait. -/
def agenda (registry : Registry δ) :
    Std.HashMap TypeId ClassEntry × List TypeId × List TypeId :=
  (registry.classes, registry.queue, registry.deferred)

/-- Between two states of a registry classes were declared and queued, each of them once. Others
may have been declared without being queued, and some may have been completed. -/
structure Declares (table : TypeTable) (declared : List TypeId) (before after : Registry δ) :
    Prop where
  queue : after.queue = before.queue ++ declared
  deferred : after.deferred = before.deferred
  nodup : declared.Nodup
  fresh : ∀ id ∈ declared, table.knows id = true ∧ before.classes[id]? = none
  present : ∀ id, id ∈ declared ∨ before.classes[id]? ≠ none → after.classes[id]? ≠ none
  pending : ∀ id, after.IsPending id → before.IsPending id ∨ id ∈ declared

namespace Declares

variable {table : TypeTable} {before middle after : Registry δ}

theorem of_agenda (hagenda : after.agenda = before.agenda) : Declares table [] before after := by
  simp only [agenda, Prod.mk.injEq] at hagenda
  obtain ⟨hclasses, hqueue, hdeferred⟩ := hagenda
  refine ⟨by simp [hqueue], hdeferred, List.nodup_nil, by simp, ?_, ?_⟩
  · simp [hclasses]
  · simp [IsPending, hclasses]

theorem trans {first second : List TypeId} (hfirst : Declares table first before middle)
    (hsecond : Declares table second middle after) :
    Declares table (first ++ second) before after where
  queue := by rw [hsecond.queue, hfirst.queue, List.append_assoc]
  deferred := hsecond.deferred.trans hfirst.deferred
  nodup := by
    refine List.nodup_append.mpr ⟨hfirst.nodup, hsecond.nodup, ?_⟩
    -- What is declared first is there when the second part begins.
    rintro id hid _ hagain rfl
    exact hfirst.present id (.inl hid) (hsecond.fresh id hagain).2
  fresh := by
    intro id hid
    rcases List.mem_append.mp hid with hid | hid
    · exact hfirst.fresh id hid
    · obtain ⟨hknown, hmiddle⟩ := hsecond.fresh id hid
      exact ⟨hknown, Classical.byContradiction fun hbefore =>
        hfirst.present id (.inr hbefore) hmiddle⟩
  present := by
    rintro id (hid | hbefore)
    · rcases List.mem_append.mp hid with hid | hid
      · exact hsecond.present id (.inr (hfirst.present id (.inl hid)))
      · exact hsecond.present id (.inl hid)
    · exact hsecond.present id (.inr (hfirst.present id (.inr hbefore)))
  pending := by
    intro id hafter
    rcases hsecond.pending id hafter with hmiddle | hid
    · exact (hfirst.pending id hmiddle).imp_right (List.mem_append_left _)
    · exact .inr (List.mem_append_right _ hid)

end Declares

/-- However it ends, an action does nothing with the classes but declare and complete them. -/
def OnlyDeclares (table : TypeTable) (action : Action (Registry δ) α) (registry : Registry δ) :
    Prop :=
  ∃ declared, Declares table declared registry (action.answer registry).2

section OnlyDeclares

variable {table : TypeTable} {registry : Registry δ} {first : Action (Registry δ) α}

theorem onlyDeclares_of_keeps (hkeeps : Action.Keeps agenda first) :
    OnlyDeclares table first registry :=
  ⟨[], .of_agenda (hkeeps registry)⟩

theorem OnlyDeclares.bind {second : α → Action (Registry δ) β}
    (hfirst : OnlyDeclares table first registry)
    (hsecond : ∀ value next, first.answer registry = (.ok value, next) →
      OnlyDeclares table (second value) next) :
    OnlyDeclares table (first >>= second) registry :=
  Action.bind_relates (fun before after => ∃ declared, Declares table declared before after)
    (fun ⟨_, hbefore⟩ ⟨_, hafter⟩ => ⟨_, hbefore.trans hafter⟩) hfirst hsecond

/-- Work that leaves the classes alone may come before. -/
theorem onlyDeclares_bind_of_keeps {second : α → Action (Registry δ) β}
    (hfirst : Action.Keeps agenda first)
    (hsecond : ∀ value next, OnlyDeclares table (second value) next) :
    OnlyDeclares table (first >>= second) registry :=
  (onlyDeclares_of_keeps hfirst).bind fun value next _ => hsecond value next

theorem OnlyDeclares.map {change : α → β} (hfirst : OnlyDeclares table first registry) :
    OnlyDeclares table (change <$> first) registry := by
  rw [OnlyDeclares, Action.answer_map]
  exact hfirst

theorem OnlyDeclares.mapM {items : List α} {work : α → Action (Registry δ) β}
    (hwork : ∀ item registry, OnlyDeclares table (work item) registry) :
    OnlyDeclares table (items.mapM work) registry := by
  induction items generalizing registry with
  | nil => exact onlyDeclares_of_keeps (Action.keeps_pure _ _)
  | cons item items ih =>
      rw [List.mapM_cons]
      exact (hwork item registry).bind fun _ _ _ => ih.bind fun _ _ _ =>
        onlyDeclares_of_keeps (Action.keeps_pure _ _)

end OnlyDeclares

/-! What leaves the classes alone -/

section Keeps

variable {γ : Type} (view : Registry δ → γ)

theorem keeps_descriptorAt (slot : Nat) :
    Action.Keeps view (descriptorAt slot : Action (Registry δ) δ) :=
  (Action.keeps_get _).bind fun _ => Action.keeps_ofExcept _ _

theorem keeps_described? (id : TypeId) :
    Action.Keeps view (described? id : Action (Registry δ) (Option δ)) := by
  refine (Action.keeps_get _).bind fun registry => ?_
  cases registry.types[id]? with
  | some slot => exact (keeps_descriptorAt view slot).bind fun _ => Action.keeps_pure _ _
  | none => exact Action.keeps_pure _ _

end Keeps

theorem keeps_addDescriptor (descriptor : δ) :
    Action.Keeps agenda (addDescriptor descriptor) := by
  intro registry
  rfl

theorem keeps_rememberType (id : TypeId) (slot : Nat) :
    Action.Keeps agenda (rememberType id slot : Action (Registry δ) Unit) :=
  Action.keeps_modify fun _ => rfl

theorem keeps_shareType (id other : TypeId) :
    Action.Keeps agenda (shareType id other : Action (Registry δ) Unit) :=
  (Action.keeps_get _).bind fun _ => (Action.keeps_ofExcept _ _).bind fun _ =>
    keeps_rememberType id _

theorem keeps_openNamespace (writer : Writer δ) (path : List (List Char)) (enclosing : Option δ)
    (segments : List (List Char)) :
    Action.Keeps agenda (openNamespace writer path enclosing segments) := by
  induction segments generalizing path enclosing with
  | nil => exact Action.keeps_pure _ _
  | cons segment rest ih =>
      rw [openNamespace]
      refine (Action.keeps_get _).bind fun registry => ?_
      cases registry.namespaces[path ++ [segment]]? with
      | some descriptor => exact ih _ _
      | none =>
          refine (Action.keeps_ofExcept _ _).bind fun descriptor => ?_
          refine Action.Keeps.bind (Action.keeps_modify ?_) fun _ => ih _ _
          exact fun _ => rfl

theorem keeps_namespaceAt (writer : Writer δ) (path : String) :
    Action.Keeps agenda (namespaceAt writer path) :=
  keeps_openNamespace writer _ _ _

theorem keeps_namespaceOf (path : String) :
    Action.Keeps agenda (namespaceOf path : Action (Registry δ) (Option δ)) := by
  refine (Action.keeps_get _).bind fun current => ?_
  cases current.activeWriter? with
  | none => exact Action.keeps_pure _ _
  | some writer => exact keeps_namespaceAt writer path

theorem keeps_describeAs (writer : Writer δ) (id : TypeId) (description : Description δ) :
    Action.Keeps agenda (describeAs writer id description) :=
  (Action.keeps_ofExcept _ _).bind fun _ => (keeps_addDescriptor _).bind fun _ =>
    (keeps_rememberType id _).bind fun _ => Action.keeps_pure _ _

theorem keeps_describePrimitive (writer : Writer δ) (table : TypeTable) (id : TypeId)
    (kind : Kind) : Action.Keeps agenda (describePrimitive writer table id kind) := by
  refine (keeps_described? agenda id).bind fun described => ?_
  cases described with
  | some descriptor => exact Action.keeps_pure _ _
  | none => exact keeps_describeAs writer id _

theorem keeps_configure (settings : Settings) (newWriter : Except Failure (Writer δ)) :
    Action.Keeps agenda (configure settings newWriter) := by
  refine Action.Keeps.bind (Action.keeps_modify ?_) fun _ => ?_
  · exact fun _ => rfl
  · split
    · refine (Action.keeps_ofExcept _ _).bind fun writer => Action.keeps_modify ?_
      exact fun _ => rfl
    · exact Action.keeps_pure _ _

/-! What declares classes -/

section Declarations

variable {table : TypeTable} {writer : Writer δ} {id : TypeId}
  {before middle after registry : Registry δ}

theorem isPending_insert {entry : ClassEntry} {other : TypeId}
    (hafter : after.classes = before.classes.insert id entry) (hpending : after.IsPending other) :
    (other = id ∧ entry.state = .pending) ∨ before.IsPending other := by
  obtain ⟨slot, hslot⟩ := hpending
  rw [hafter, Std.HashMap.getElem?_insert] at hslot
  split at hslot
  case isTrue heq =>
    cases hslot
    exact .inl ⟨(eq_of_beq heq).symm, rfl⟩
  case isFalse => exact .inr ⟨slot, hslot⟩

theorem Declares.of_insert {entry : ClassEntry} (hentry : entry.state ≠ .pending)
    (hclasses : after.classes = before.classes.insert id entry)
    (hqueue : after.queue = before.queue) (hdeferred : after.deferred = before.deferred) :
    Declares table [] before after where
  queue := by rw [hqueue, List.append_nil]
  deferred := hdeferred
  nodup := List.nodup_nil
  fresh := by simp
  present := by
    rintro other (hother | hother)
    · cases hother
    · rw [hclasses, Std.HashMap.getElem?_insert]
      split
      · simp
      · exact hother
  pending := by
    intro other hpending
    rcases isPending_insert hclasses hpending with ⟨-, hstate⟩ | hbefore
    · exact absurd hstate hentry
    · exact .inl hbefore

theorem Declares.of_enqueue {slot : Nat} (hknown : table.knows id = true)
    (hnew : before.classes[id]? = none)
    (hclasses : after.classes = before.classes.insert id ⟨.pending, slot⟩)
    (hqueue : after.queue = before.queue ++ [id]) (hdeferred : after.deferred = before.deferred) :
    Declares table [id] before after where
  queue := hqueue
  deferred := hdeferred
  nodup := List.pairwise_singleton _ id
  fresh := by
    intro other hother
    obtain rfl := List.mem_singleton.mp hother
    exact ⟨hknown, hnew⟩
  present := by
    intro other hother
    rw [hclasses, Std.HashMap.getElem?_insert]
    split
    case isTrue => simp
    case isFalse hne =>
      rcases hother with hother | hother
      · exact absurd (beq_iff_eq.mpr (List.mem_singleton.mp hother).symm) hne
      · exact hother
  pending := by
    intro other hpending
    rcases isPending_insert hclasses hpending with ⟨rfl, -⟩ | hbefore
    · exact .inr (List.mem_singleton_self _)
    · exact .inl hbefore

/-- Classes were declared that have an id up to a given one. -/
structure DeclaresUpTo (table : TypeTable) (id : TypeId) (before after : Registry δ) : Prop where
  declares : ∃ declared, Declares table declared before after
  larger : ∀ other, id < other → after.classes[other]? = before.classes[other]?

namespace DeclaresUpTo

theorem of_agenda (hagenda : after.agenda = before.agenda) :
    DeclaresUpTo table id before after :=
  ⟨⟨[], .of_agenda hagenda⟩, fun other _ => congrArg (fun seen => seen.1[other]?) hagenda⟩

theorem trans (hfirst : DeclaresUpTo table id before middle)
    (hsecond : DeclaresUpTo table id middle after) : DeclaresUpTo table id before after := by
  obtain ⟨⟨first, hbefore⟩, hlarger⟩ := hfirst
  obtain ⟨⟨second, hafter⟩, hstill⟩ := hsecond
  exact ⟨⟨_, hbefore.trans hafter⟩, fun other hother =>
    (hstill other hother).trans (hlarger other hother)⟩

theorem mono {base : TypeId} (hbase : base < id)
    (hdeclares : DeclaresUpTo table base before after) : DeclaresUpTo table id before after :=
  ⟨hdeclares.declares, fun other hother =>
    hdeclares.larger other (UInt32.lt_trans hbase hother)⟩

theorem of_insert {entry : ClassEntry}
    (hdeclares : ∃ declared, Declares table declared before after)
    (hclasses : after.classes = before.classes.insert id entry) :
    DeclaresUpTo table id before after := by
  refine ⟨hdeclares, fun other hother => ?_⟩
  have hne : ¬ (id == other) = true := by
    rw [beq_iff_eq]
    rintro rfl
    exact UInt32.lt_irrefl id hother
  rw [hclasses, Std.HashMap.getElem?_insert, if_neg hne]

end DeclaresUpTo

/-- The base of a class is declared before it, so its id has to be smaller. -/
theorem declareClass_upTo (writer : Writer δ) (table : TypeTable) (id : TypeId)
    (registry : Registry δ) :
    DeclaresUpTo table id registry ((declareClass writer table id).answer registry).2 := by
  induction id using declareClass.induct generalizing registry with
  | case1 id ih =>
      have hkept {α : Type} {action : Action (Registry δ) α}
          (hkeeps : Action.Keeps agenda action) (registry : Registry δ) :
          DeclaresUpTo table id registry (action.answer registry).2 :=
        .of_agenda (hkeeps registry)
      rw [declareClass, Action.answer_get_bind]
      cases hnew : registry.classes[id]? with
      | some entry => exact hkept (keeps_descriptorAt agenda _) registry
      | none =>
          refine Action.bind_relates _ .trans (hkept (Action.keeps_ofExcept _ _) registry) ?_
          intro record next hrecord
          rw [Action.answer_ofExcept] at hrecord
          obtain ⟨hfound, rfl⟩ := Prod.mk.inj hrecord
          have hknown := TypeTable.knows_of_record hfound
          refine Action.bind_relates _ .trans (hkept (keeps_namespaceAt writer _) registry) ?_
          intro enclosing next hnamespace
          -- The base has a smaller id, so nothing on the way declares this class as well.
          have hstill : next.classes[id]? = none := by
            have hagenda := keeps_namespaceAt writer record.ns registry
            rw [hnamespace] at hagenda
            rw [← hnew]
            exact congrArg (fun seen => seen.1[id]?) hagenda
          extract_lets _ declaration declareNow
          split
          case isTrue =>
            have hnow (registry : Registry δ) (hnew : registry.classes[id]? = none) :
                DeclaresUpTo table id registry ((declareNow ()).answer registry).2 := by
              simp only [declareNow, Action.answer_bind, Action.answer_ofExcept]
              cases writer.write declaration with
              | error failure => exact .of_agenda rfl
              | ok descriptor =>
                  exact .of_insert ⟨[id], .of_enqueue hknown hnew rfl rfl rfl⟩ rfl
            cases record.base with
            | none => exact hnow next hstill
            | some base =>
                simp only
                split
                case isTrue hbase =>
                  have houter := ih base hbase next
                  refine Action.bind_relates _ .trans (houter.mono hbase) ?_
                  intro descriptor last hlast
                  rw [hlast] at houter
                  exact hnow last ((houter.larger id hbase).trans hstill)
                case isFalse => exact .of_agenda rfl
          case isFalse =>
            simp only [Action.answer_bind, Action.answer_ofExcept]
            cases writer.write declaration with
            | error failure => exact .of_agenda rfl
            | ok descriptor =>
                refine .of_insert ⟨[], .of_insert ?_ rfl rfl rfl⟩ rfl
                exact ClassState.noConfusion

theorem onlyDeclares_declareClass (id : TypeId) (registry : Registry δ) :
    OnlyDeclares table (declareClass writer table id) registry :=
  (declareClass_upTo writer table id registry).declares

theorem onlyDeclares_rememberClass {entry : ClassEntry} (hentry : entry.state ≠ .pending)
    (id : TypeId) (registry : Registry δ) :
    OnlyDeclares table (rememberClass id entry) registry :=
  ⟨[], .of_insert hentry rfl rfl rfl⟩

theorem onlyDeclares_describeAggregate (id : TypeId) (record : TypeRecord)
    (registry : Registry δ) :
    OnlyDeclares table (describeAggregate writer table id record) registry := by
  refine (onlyDeclares_declareClass id registry).bind fun declared next _ => ?_
  apply onlyDeclares_of_keeps
  cases record.stack with
  | value =>
      exact (Action.keeps_get _).bind fun _ => (Action.keeps_ofExcept _ _).bind fun _ =>
        (keeps_rememberType id _).bind fun _ => Action.keeps_pure _ _
  | object => exact keeps_describeAs writer id _

theorem onlyDeclares_describeType (id : TypeId) (registry : Registry δ) :
    OnlyDeclares table (describeType writer table id) registry := by
  induction id using describeType.induct generalizing registry with
  | case1 id helement hunderlying =>
      rw [describeType]
      refine onlyDeclares_bind_of_keeps (keeps_described? agenda id) fun described next => ?_
      cases described with
      | some descriptor => exact onlyDeclares_of_keeps (Action.keeps_pure _ _)
      | none =>
          refine onlyDeclares_bind_of_keeps (Action.keeps_ofExcept _ _) fun record next => ?_
          split
          case isTrue => exact onlyDeclares_of_keeps (keeps_describePrimitive writer table id _)
          split
          case isTrue =>
            split
            case isTrue hsmaller =>
              refine (helement record hsmaller next).bind fun target last _ => ?_
              exact onlyDeclares_of_keeps (keeps_describeAs writer id _)
            case isFalse => exact onlyDeclares_of_keeps (Action.keeps_throw _ _)
          split
          case isTrue =>
            split
            case isTrue =>
              split
              case isTrue hsmaller =>
                refine (hunderlying record hsmaller next).bind fun descriptor last _ => ?_
                exact onlyDeclares_of_keeps
                  ((keeps_shareType id _).bind fun _ => Action.keeps_pure _ _)
              case isFalse => exact onlyDeclares_of_keeps (Action.keeps_throw _ _)
            case isFalse => exact onlyDeclares_describeAggregate id record next
          case isFalse =>
            exact onlyDeclares_of_keeps ((Action.keeps_ofExcept _ _).bind fun native =>
              (keeps_describePrimitive writer table native _).bind fun _ =>
                (keeps_shareType id native).bind fun _ => Action.keeps_pure _ _)

theorem onlyDeclares_typeOf (id : TypeId) (registry : Registry δ) :
    OnlyDeclares table (typeOf table id) registry := by
  refine onlyDeclares_bind_of_keeps (Action.keeps_get _) fun current next => ?_
  cases current.activeWriter? with
  | none => exact onlyDeclares_of_keeps (Action.keeps_pure _ _)
  | some writer => exact (onlyDeclares_describeType id next).map

theorem onlyDeclares_classOf (id : TypeId) (registry : Registry δ) :
    OnlyDeclares table (classOf table id) registry := by
  refine onlyDeclares_bind_of_keeps (Action.keeps_get _) fun current next => ?_
  cases current.activeWriter? with
  | none => exact onlyDeclares_of_keeps (Action.keeps_pure _ _)
  | some writer => exact (onlyDeclares_declareClass id next).map

theorem onlyDeclares_describeField (id : TypeId) (record : TypeRecord) (owner : δ)
    (field : Field) (registry : Registry δ) :
    OnlyDeclares table (describeField writer table id record owner field) registry :=
  (onlyDeclares_describeType field.type registry).bind fun _ _ _ =>
    onlyDeclares_of_keeps (Action.keeps_ofExcept _ _)

theorem onlyDeclares_define (id : TypeId) (record : TypeRecord) (slot : Nat)
    (members : List δ) (registry : Registry δ) :
    OnlyDeclares table (define writer table id record slot members) registry := by
  refine onlyDeclares_bind_of_keeps (keeps_descriptorAt agenda slot) fun declared next => ?_
  extract_lets _ finish
  have hfinish (base : Option δ) (registry : Registry δ) :
      OnlyDeclares table (finish base) registry := by
    refine onlyDeclares_bind_of_keeps (keeps_namespaceAt writer _) fun enclosing _ => ?_
    refine onlyDeclares_bind_of_keeps (Action.keeps_ofExcept _ _) fun descriptor _ => ?_
    refine onlyDeclares_bind_of_keeps (Action.keeps_get _) fun current _ => ?_
    refine onlyDeclares_bind_of_keeps (Action.keeps_ofExcept _ _) fun slots _ => ?_
    refine onlyDeclares_bind_of_keeps (Action.keeps_modify ?_) fun _ _ => ?_
    · exact fun _ => rfl
    · exact onlyDeclares_rememberClass ClassState.noConfusion id _
  cases record.base with
  | none => exact hfinish none next
  | some base =>
      exact (onlyDeclares_declareClass base next).map.bind fun found last _ => hfinish found last

/-- A class that was defined is complete. -/
theorem not_isPending_of_define {record : TypeRecord} {slot : Nat} {members : List δ}
    {next : Registry δ}
    (hdefine : (define writer table id record slot members).answer registry = (.ok (), next)) :
    ¬ next.IsPending id := by
  rw [define] at hdefine
  obtain ⟨declared, _, -, hdefine⟩ := Action.exists_of_bind_ok hdefine
  extract_lets _ finish at hdefine
  obtain ⟨base, middle, hfinish⟩ : ∃ base middle, (finish base).answer middle = (.ok (), next) := by
    cases hbase : record.base with
    | none =>
        rw [hbase] at hdefine
        exact ⟨none, _, hdefine⟩
    | some base =>
        rw [hbase] at hdefine
        obtain ⟨base, middle, -, hfinish⟩ := Action.exists_of_bind_ok hdefine
        exact ⟨base, middle, hfinish⟩
  obtain ⟨enclosing, _, -, hfinish⟩ := Action.exists_of_bind_ok hfinish
  obtain ⟨descriptor, _, -, hfinish⟩ := Action.exists_of_bind_ok hfinish
  obtain ⟨current, _, -, hfinish⟩ := Action.exists_of_bind_ok hfinish
  obtain ⟨slots, _, -, hfinish⟩ := Action.exists_of_bind_ok hfinish
  obtain ⟨_, last, -, hlast⟩ := Action.exists_of_bind_ok hfinish
  obtain ⟨-, rfl⟩ := Prod.mk.inj hlast
  rintro ⟨other, hother⟩
  change (last.classes.insert id ⟨.complete, slot⟩)[id]? = _ at hother
  rw [Std.HashMap.getElem?_insert_self] at hother
  cases hother

/-- Completing a class puts it aside until its layout is known, or gives it its members. -/
theorem complete_cases (writer : Writer δ) (table : TypeTable) (id : TypeId)
    (registry : Registry δ) :
    (∃ record, table.record id = .ok record ∧ record.fields = none ∧
      (complete writer table id).answer registry =
        (.ok (), { registry with deferred := registry.deferred ++ [id] })) ∨
    OnlyDeclares table (complete writer table id) registry ∧
      ∀ next, (complete writer table id).answer registry = (.ok (), next) →
        ¬ next.IsPending id := by
  rw [complete, OnlyDeclares, Action.answer_get_bind, Action.answer_ofExcept_bind]
  cases hentry : registry.classes[id]? with
  | none => exact .inr ⟨⟨[], .of_agenda rfl⟩, fun _ hnext => nomatch congrArg Prod.fst hnext⟩
  | some entry =>
      simp only [Failure.ofNone_some]
      split
      case isFalse hstate =>
        refine .inr ⟨⟨[], .of_agenda rfl⟩, ?_⟩
        rintro next hnext ⟨slot, hslot⟩
        obtain ⟨-, rfl⟩ := Prod.mk.inj hnext
        rw [hentry] at hslot
        cases hslot
        exact hstate rfl
      case isTrue =>
        rw [Action.answer_ofExcept_bind]
        cases hrecord : table.record id with
        | error failure =>
            exact .inr ⟨⟨[], .of_agenda rfl⟩, fun _ hnext => nomatch congrArg Prod.fst hnext⟩
        | ok record =>
            simp only
            cases hfields : record.fields with
            | none => exact .inl ⟨record, rfl, hfields, rfl⟩
            | some fields =>
                refine .inr ⟨?_, ?_⟩
                · refine onlyDeclares_bind_of_keeps (keeps_descriptorAt agenda _)
                    fun owner _ => ?_
                  refine OnlyDeclares.bind (.mapM (onlyDeclares_describeField id record owner))
                    fun members _ _ => ?_
                  exact onlyDeclares_define id record entry.slot members _
                · intro next hnext
                  obtain ⟨owner, _, -, hnext⟩ := Action.exists_of_bind_ok hnext
                  obtain ⟨members, _, -, hdefine⟩ := Action.exists_of_bind_ok hnext
                  exact not_isPending_of_define hdefine

end Declarations

end Registry

end DebugInfo
