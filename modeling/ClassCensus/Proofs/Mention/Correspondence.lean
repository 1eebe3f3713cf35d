import ClassCensus.Mention.Reference
import ClassCensus.Proofs.Mention.Occurrence
import ClassCensus.Proofs.Outcome

/-!
# Pools that correspond

Two constant pools correspond along a map of indices if, at every index that matters, the second pool holds at the image
what the first holds at the index, with the indices inside mapped as well (`ConstantPool.Corresponds`).  The indices that
matter have to be closed under the links that resolving follows (`Constant.links`).

* (sites) a site at an index that matters names the same classes in both pools, or meets the same fault, up to the
  numbers in it (`siteNames_eq`);
* (classes) so do two class files whose members and sites correspond (`ClassFile.Corresponds.references_eq`).
-/

namespace ClassCensus

/-! ### Indices inside -/

/-- The constant with its links mapped; the number of a bootstrap method is no index of the constant pool. -/
def Constant.renumber (s : UInt16 → UInt16) : Constant → Constant
  | .classInfo name => .classInfo (s name)
  | .string text => .string (s text)
  | .memberRef kind owner typedName => .memberRef kind (s owner) (s typedName)
  | .nameAndType name descriptor => .nameAndType (s name) (s descriptor)
  | .methodHandle kind reference => .methodHandle kind (s reference)
  | .methodType descriptor => .methodType (s descriptor)
  | .dynamic bootstrap typedName => .dynamic bootstrap (s typedName)
  | .invokeDynamic bootstrap typedName => .invokeDynamic bootstrap (s typedName)
  | literal => literal

/-- The links of a constant that resolving follows; the text of a string constant names nothing. -/
def Constant.links : Constant → List UInt16
  | .classInfo name => [name]
  | .memberRef _ owner typedName => [owner, typedName]
  | .nameAndType name descriptor => [name, descriptor]
  | .methodHandle _ reference => [reference]
  | .methodType descriptor => [descriptor]
  | .dynamic _ typedName | .invokeDynamic _ typedName => [typedName]
  | _ => []

/-- The fault of a look-up with the indices in it mapped. -/
def FormatError.renumber (s : UInt16 → UInt16) : FormatError → FormatError
  | .invalidIndex index slots => .invalidIndex (s index) slots
  | .mistypedEntry index expected found => .mistypedEntry (s index) expected (found.renumber s)
  | .invalidHandleTarget index found => .invalidHandleTarget (s index) (found.renumber s)
  | .inMember table name cause => .inMember table name (cause.renumber s)
  | .inInstruction opcode pc cause => .inInstruction opcode pc (cause.renumber s)
  | fault => fault

/-- The index of a site. -/
def Site.index : Site → UInt16
  | .classEntry index | .descriptor index | .resultDescriptor index | .signature index | .typedName index
  | .loadable index => index
  | .operand o => o.index

/-- The site with its index mapped. -/
def Site.renumber (s : UInt16 → UInt16) : Site → Site
  | .classEntry index => .classEntry (s index)
  | .descriptor index => .descriptor (s index)
  | .resultDescriptor index => .resultDescriptor (s index)
  | .signature index => .signature (s index)
  | .typedName index => .typedName (s index)
  | .loadable index => .loadable (s index)
  | .operand o => .operand { o with index := s o.index }

theorem Constant.renumber_id (entry : Constant) : entry.renumber id = entry := by
  cases entry <;> rfl

theorem Site.renumber_id (site : Site) : site.renumber id = site := by
  cases site <;> rfl

theorem FormatError.renumber_id (fault : FormatError) : fault.renumber id = fault := by
  induction fault with
  | mistypedEntry index expected found => rw [renumber, Constant.renumber_id, id]
  | invalidHandleTarget index found => rw [renumber, Constant.renumber_id, id]
  | inMember table name cause ih => rw [renumber, ih]
  | inInstruction opcode pc cause ih => rw [renumber, ih]
  | _ => rfl

/-! ### Texts -/

/-- The faults of a text are positions in it, not indices. -/
private theorem mapError_parse {α : Type} (s : UInt16 → UInt16) (parser : Nat → TypeParser α) (text : String) :
    (TypeParser.parse parser text).mapError (FormatError.renumber s) = TypeParser.parse parser text := by
  unfold TypeParser.parse
  dsimp only
  split <;> rfl

private theorem mapError_descriptorClasses (s : UInt16 → UInt16) (text : String) :
    (descriptorClasses text).mapError (FormatError.renumber s) = descriptorClasses text := by
  rw [descriptorClasses, Except.mapError_map, Descriptor.parse, mapError_parse]

private theorem mapError_signatureClasses (s : UInt16 → UInt16) (text : String) :
    (signatureClasses text).mapError (FormatError.renumber s) = signatureClasses text := by
  rw [signatureClasses, Except.mapError_map, Signature.parse, mapError_parse]

private theorem mapError_entryClass? (s : UInt16 → UInt16) (text : String) :
    (entryClass? text).mapError (FormatError.renumber s) = entryClass? text := by
  unfold entryClass?
  split
  · rfl
  · rw [Except.mapError_map, FieldType.parse, mapError_parse]
  · rfl

namespace ConstantPool

/-- At the indices in `matters` the pools hold the same, along `s`, and resolving does not lead away from there. -/
structure Corresponds (pool pool' : ConstantPool) (s : UInt16 → UInt16) (matters : UInt16 → Prop) : Prop where
  get_eq : ∀ i, matters i →
    pool'.get (s i) = (Constant.renumber s <$> pool.get i).mapError (FormatError.renumber s)
  closed : ∀ i, matters i → ∀ entry, pool.get i = .ok entry → ∀ j ∈ entry.links, matters j

namespace Corresponds

variable {pool pool' : ConstantPool} {s : UInt16 → UInt16} {matters : UInt16 → Prop} {i : UInt16}

theorem utf8_eq (h : pool.Corresponds pool' s matters) (hi : matters i) :
    pool'.utf8 (s i) = (pool.utf8 i).mapError (FormatError.renumber s) := by
  rw [utf8, utf8, h.get_eq i hi]
  cases pool.get i with
  | error e => rfl
  | ok entry => cases entry <;> rfl

theorem className_eq (h : pool.Corresponds pool' s matters) (hi : matters i) :
    pool'.className (s i) = (pool.className i).mapError (FormatError.renumber s) := by
  have closed := h.closed i hi
  rw [className, className, h.get_eq i hi]
  cases e : pool.get i with
  | error e => rfl
  | ok entry =>
    cases entry with
    | classInfo name => exact h.utf8_eq (closed _ e name (by simp [Constant.links]))
    | _ => rfl

theorem nameAndType_eq (h : pool.Corresponds pool' s matters) (hi : matters i) :
    pool'.nameAndType (s i) = (pool.nameAndType i).mapError (FormatError.renumber s) := by
  have closed := h.closed i hi
  rw [nameAndType, nameAndType, h.get_eq i hi]
  cases e : pool.get i with
  | error e => rfl
  | ok entry =>
    cases entry with
    | nameAndType name descriptor =>
      show (do return (← pool'.utf8 (s name), ← pool'.utf8 (s descriptor))) =
        Except.mapError _ (do return (← pool.utf8 name, ← pool.utf8 descriptor))
      rw [h.utf8_eq (closed _ e name (by simp [Constant.links])),
        h.utf8_eq (closed _ e descriptor (by simp [Constant.links])), Except.mapError_bind]
      refine congrArg _ (funext fun text => ?_)
      rw [Except.mapError_bind]
      rfl
    | _ => rfl

theorem classEntryNames_eq (h : pool.Corresponds pool' s matters) (hi : matters i) :
    pool'.classEntryNames (s i) = (pool.classEntryNames i).mapError (FormatError.renumber s) := by
  rw [classEntryNames, classEntryNames, h.className_eq hi, Except.mapError_bind]
  refine congrArg _ (funext fun text => ?_)
  rw [Except.mapError_bind, mapError_entryClass?]
  rfl

theorem descriptorNames_eq (h : pool.Corresponds pool' s matters) (hi : matters i) :
    pool'.descriptorNames (s i) = (pool.descriptorNames i).mapError (FormatError.renumber s) := by
  simp only [descriptorNames, h.utf8_eq hi, Except.mapError_bind, mapError_descriptorClasses]

theorem resultDescriptorNames_eq (h : pool.Corresponds pool' s matters) (hi : matters i) :
    pool'.resultDescriptorNames (s i) = (pool.resultDescriptorNames i).mapError (FormatError.renumber s) := by
  rw [resultDescriptorNames, resultDescriptorNames, h.utf8_eq hi, Except.mapError_bind]
  refine congrArg _ (funext fun text => ?_)
  by_cases void : text = "V"
  · rw [if_pos void]
    rfl
  · rw [if_neg void, mapError_descriptorClasses]

theorem signatureNames_eq (h : pool.Corresponds pool' s matters) (hi : matters i) :
    pool'.signatureNames (s i) = (pool.signatureNames i).mapError (FormatError.renumber s) := by
  simp only [signatureNames, h.utf8_eq hi, Except.mapError_bind, mapError_signatureClasses]

theorem typedNameNames_eq (h : pool.Corresponds pool' s matters) (hi : matters i) :
    pool'.typedNameNames (s i) = (pool.typedNameNames i).mapError (FormatError.renumber s) := by
  simp only [typedNameNames, h.nameAndType_eq hi, Except.mapError_bind, mapError_descriptorClasses]

theorem memberRefNames_eq {owner typedName : UInt16} (h : pool.Corresponds pool' s matters) (howner : matters owner)
    (htyped : matters typedName) :
    pool'.memberRefNames (s owner) (s typedName) =
      (pool.memberRefNames owner typedName).mapError (FormatError.renumber s) := by
  simp only [memberRefNames, h.classEntryNames_eq howner, h.typedNameNames_eq htyped, Except.mapError_bind]
  rfl

theorem loadableNames_eq (h : pool.Corresponds pool' s matters) (hi : matters i) :
    pool'.loadableNames (s i) = (pool.loadableNames i).mapError (FormatError.renumber s) := by
  have closed := h.closed i hi
  rw [loadableNames, loadableNames, h.get_eq i hi]
  cases e : pool.get i with
  | error e => rfl
  | ok entry =>
    cases entry with
    | classInfo name => exact h.classEntryNames_eq hi
    | memberRef kind owner typedName =>
      exact h.memberRefNames_eq (closed _ e owner (by simp [Constant.links]))
        (closed _ e typedName (by simp [Constant.links]))
    | methodHandle kind reference =>
      have hr := closed _ e reference (by simp [Constant.links])
      have closed := h.closed reference hr
      -- a handle leads one link further
      have moved : Constant.renumber s <$> Except.ok (Constant.methodHandle kind reference) =
          (.ok (.methodHandle kind (s reference)) : Except FormatError Constant) := rfl
      simp only [moved, Except.mapError, bind, Except.bind, h.get_eq reference hr]
      cases e : pool.get reference with
      | error e => rfl
      | ok target =>
        cases target with
        | memberRef kind owner typedName =>
          exact h.memberRefNames_eq (closed _ e owner (by simp [Constant.links]))
            (closed _ e typedName (by simp [Constant.links]))
        | _ => rfl
    | methodType descriptor => exact h.descriptorNames_eq (closed _ e descriptor (by simp [Constant.links]))
    | dynamic bootstrap typedName => exact h.typedNameNames_eq (closed _ e typedName (by simp [Constant.links]))
    | invokeDynamic bootstrap typedName => exact h.typedNameNames_eq (closed _ e typedName (by simp [Constant.links]))
    | _ => rfl

/-- A site names the same classes in both pools, or meets the same fault. -/
theorem siteNames_eq (h : pool.Corresponds pool' s matters) {site : Site} (hs : matters site.index) :
    pool'.siteNames (site.renumber s) = (pool.siteNames site).mapError (FormatError.renumber s) := by
  cases site with
  | classEntry index => exact h.classEntryNames_eq hs
  | descriptor index => exact h.descriptorNames_eq hs
  | resultDescriptor index => exact h.resultDescriptorNames_eq hs
  | signature index => exact h.signatureNames_eq hs
  | typedName index => exact h.typedNameNames_eq hs
  | loadable index => exact h.loadableNames_eq hs
  | operand operand =>
    have loaded : pool'.loadableNames (s operand.index) = _ := h.loadableNames_eq hs
    show (pool'.loadableNames (s operand.index)).mapError _ = ((pool.loadableNames operand.index).mapError _).mapError _
    rw [loaded]
    cases pool.loadableNames operand.index <;> rfl

theorem sitesNames_eq (h : pool.Corresponds pool' s matters) {sites : List Site}
    (hs : ∀ site ∈ sites, matters site.index) :
    pool'.sitesNames (sites.map (Site.renumber s)) =
      (pool.sitesNames sites).mapError (FormatError.renumber s) := by
  rw [sitesNames, sitesNames, Except.mapError_map]
  refine congrArg _ (Except.mapM_eq_mapError ?_)
  rw [List.forall₂_map_right_iff, List.forall₂_same]
  exact fun site mem => h.siteNames_eq (hs site mem)

end Corresponds

end ConstantPool

/-! ### Class files -/

/-- The name of the second member and its sites are those of the first, along `s`. -/
structure Member.Corresponds (s : UInt16 → UInt16) (m m' : Member) : Prop where
  name : m'.name = s m.name
  sites : Site.ofMember m' = (Site.ofMember m).map (Site.renumber s)

namespace ClassFile

/-- Two class files with members and sites that correspond along `s`, in pools that do so as well; all that the first
holds matters. -/
structure Corresponds (c c' : ClassFile) (s : UInt16 → UInt16) (matters : UInt16 → Prop) : Prop where
  pool : c.pool.Corresponds c'.pool s matters
  supertypes : Site.ofSupertypes c' = (Site.ofSupertypes c).map (Site.renumber s)
  fields : List.Forall₂ (Member.Corresponds s) c.fields c'.fields
  methods : List.Forall₂ (Member.Corresponds s) c.methods c'.methods
  attributes : Site.ofAttributes c'.attributes = (Site.ofAttributes c.attributes).map (Site.renumber s)
  memberName : ∀ m ∈ c.fields ++ c.methods, matters m.name
  site : ∀ site, c.HasSite site → matters site.index

namespace Corresponds

variable {c c' : ClassFile} {s : UInt16 → UInt16} {matters : UInt16 → Prop}

private theorem memberNames_eq (h : c.Corresponds c' s matters) (table : MemberTable) {m m' : Member}
    (members : m.Corresponds s m') (name : matters m.name) (sites : ∀ site ∈ Site.ofMember m, matters site.index) :
    c'.memberNames table m' = (c.memberNames table m).mapError (FormatError.renumber s) := by
  rw [memberNames, memberNames, members.name, members.sites, h.pool.utf8_eq name, Except.mapError_bind]
  refine congrArg _ (funext fun text => ?_)
  rw [h.pool.sitesNames_eq sites]
  cases c.pool.sitesNames (Site.ofMember m) <;> rfl

private theorem membersNames_eq (h : c.Corresponds c' s matters) (table : MemberTable) {members members' : List Member}
    (each : List.Forall₂ (Member.Corresponds s) members members')
    (ready : ∀ m ∈ members, matters m.name ∧ ∀ site ∈ Site.ofMember m, matters site.index) :
    members'.mapM (c'.memberNames table) =
      (members.mapM (c.memberNames table)).mapError (FormatError.renumber s) := by
  apply Except.mapM_eq_mapError
  have both := List.forall₂_and_left _ _ |>.2 ⟨ready, each⟩
  exact both.imp fun m m' h' => h.memberNames_eq table h'.2 h'.1.1 h'.1.2

private theorem mentionedNames_eq (h : c.Corresponds c' s matters) :
    c'.mentionedNames = c.mentionedNames.mapError (FormatError.renumber s) := by
  have supertypes := h.pool.sitesNames_eq fun site mem => h.site site (hasSite_iff.2 (.inl mem))
  have fields := h.membersNames_eq .fields h.fields fun m mem =>
    ⟨h.memberName m (List.mem_append_left _ mem),
      fun site has => h.site site (hasSite_iff.2 (.inr (.inl ⟨m, mem, has⟩)))⟩
  have methods := h.membersNames_eq .methods h.methods fun m mem =>
    ⟨h.memberName m (List.mem_append_right _ mem),
      fun site has => h.site site (hasSite_iff.2 (.inr (.inr (.inl ⟨m, mem, has⟩))))⟩
  have attributes := h.pool.sitesNames_eq fun site mem => h.site site (hasSite_iff.2 (.inr (.inr (.inr mem))))
  simp only [mentionedNames, h.supertypes, h.attributes, supertypes, fields, methods, attributes, Except.mapError_bind]
  rfl

/-- Class files that correspond have the same references, or the same fault up to the numbers in it. -/
theorem references_eq (h : c.Corresponds c' s matters) :
    c'.references = c.references.mapError (FormatError.renumber s) := by
  rw [references, references, h.mentionedNames_eq, Except.mapError_bind]
  rfl

end Corresponds

end ClassFile

end ClassCensus
