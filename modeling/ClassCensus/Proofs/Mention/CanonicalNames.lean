import ClassCensus.Proofs.Mention.Exactness
import ClassCensus.Proofs.TypeText.NamedClass

/-!
# The form of references

References are in canonical form, as far as the class file is: none is empty, and none has a slash.  What else could
remain of the encoding in the class file comes from two places only (`classReferences_canonical`):

* (entries) a class entry that does not start with a bracket is a name as it stands, so a reference with `;` is the
  text of such an entry;
* (type texts) a name in a type text ends at `;` and starts anywhere, so a reference that starts with a bracket stands
  behind `L` in the text of a descriptor, a signature or an array.

Both occur (`classReferences_encoded`).
-/

namespace ClassCensus

/-! ### Canonical forms -/

theorem canonicalName_ne_empty {internal : String} (h : internal ≠ "") : canonicalName internal ≠ "" := by
  intro none
  have chars := congrArg String.toList none
  rw [canonicalName, String.toList_ofList] at chars
  exact h (String.toList_eq_nil_iff.1 (List.map_eq_nil_iff.1 chars))

theorem slash_notMem_canonicalName (internal : String) : '/' ∉ (canonicalName internal).toList := by
  rw [canonicalName, String.toList_ofList, List.mem_map]
  rintro ⟨c, -, e⟩
  split at e
  · cases e
  · next other => exact other e

private theorem eq_of_canonical {c d : Char} (e : (if d = '/' then '.' else d) = c) (h : c ≠ '.') : d = c := by
  split at e
  · exact absurd e.symm h
  · exact e

/-- Only dots are new in a canonical form. -/
theorem mem_of_mem_canonicalName {internal : String} {c : Char} (h : c ≠ '.')
    (mem : c ∈ (canonicalName internal).toList) : c ∈ internal.toList := by
  rw [canonicalName, String.toList_ofList, List.mem_map] at mem
  obtain ⟨d, mem, e⟩ := mem
  exact eq_of_canonical e h ▸ mem

theorem head?_of_head?_canonicalName {internal : String} {c : Char} (h : c ≠ '.')
    (first : (canonicalName internal).toList.head? = some c) : internal.toList.head? = some c := by
  rw [canonicalName, String.toList_ofList, List.head?_map, Option.map_eq_some_iff] at first
  obtain ⟨d, first, e⟩ := first
  exact eq_of_canonical e h ▸ first

/-! ### Where names come from -/

/-- What in a pool names a class: the text of a class entry that is no array type, or a text that spells types. -/
inductive ConstantPool.NameSource (pool : ConstantPool) (name : String) : Prop
  | entry {index : UInt16} :
      pool.HoldsClass index name → name ≠ "" → name.toList.head? ≠ some '[' → NameSource pool name
  | typeText {index : UInt16} {text : String} :
      pool.Holds index (.utf8 text) → ClassNamed text.toList name → NameSource pool name

namespace ConstantPool

variable {pool : ConstantPool} {names : List String}

theorem EntryDenotes.nameSource {index : UInt16} (h : pool.EntryDenotes index names) :
    ∀ name ∈ names, pool.NameSource name := by
  obtain ⟨text, name?, holds, found, rfl⟩ := h
  intro name mem
  rw [Option.mem_toList.1 mem] at found
  rcases classNamed_of_entryClass? found with ⟨rfl, ne_empty, plain⟩ | named
  · exact .entry holds ne_empty plain
  · obtain ⟨_, -, spelled⟩ := holds
    exact .typeText spelled named

theorem DescriptorDenotes.nameSource {index : UInt16} (h : pool.DescriptorDenotes index names) :
    ∀ name ∈ names, pool.NameSource name := by
  obtain ⟨text, holds, found⟩ := h
  exact fun name mem => .typeText holds (classNamed_of_descriptorClasses found mem)

theorem TypedNameDenotes.nameSource {index : UInt16} (h : pool.TypedNameDenotes index names) :
    ∀ name ∈ names, pool.NameSource name := by
  obtain ⟨_, descriptor, ⟨_, _, -, -, holds⟩, found⟩ := h
  exact fun name mem => .typeText holds (classNamed_of_descriptorClasses found mem)

theorem MemberDenotes.nameSource {owner typedName : UInt16} (h : pool.MemberDenotes owner typedName names) :
    ∀ name ∈ names, pool.NameSource name := by
  obtain ⟨ownerNames, typeNames, ofOwner, ofType, rfl⟩ := h
  exact List.forall_mem_append.2 ⟨ofOwner.nameSource, ofType.nameSource⟩

theorem LoadDenotes.nameSource {index : UInt16} (h : pool.LoadDenotes index names) :
    ∀ name ∈ names, pool.NameSource name := by
  cases h with
  | classInfo _ h => exact h.nameSource
  | memberRef _ h => exact h.nameSource
  | methodHandle _ _ h => exact h.nameSource
  | methodType _ h => exact h.nameSource
  | dynamic _ h => exact h.nameSource
  | invokeDynamic _ h => exact h.nameSource
  | literal => simp

theorem Denotes.nameSource {site : Site} (h : pool.Denotes site names) : ∀ name ∈ names, pool.NameSource name := by
  cases site with
  | classEntry index => exact EntryDenotes.nameSource h
  | descriptor index => exact DescriptorDenotes.nameSource h
  | resultDescriptor index =>
    rcases h with ⟨-, rfl⟩ | ⟨text, -, holds, found⟩
    · simp
    · exact DescriptorDenotes.nameSource ⟨text, holds, found⟩
  | signature index =>
    obtain ⟨text, holds, found⟩ := h
    exact fun name mem => .typeText holds (classNamed_of_signatureClasses found mem)
  | typedName index => exact TypedNameDenotes.nameSource h
  | loadable index => exact LoadDenotes.nameSource h
  | operand operand => exact LoadDenotes.nameSource h

theorem NameSource.ne_empty {name : String} (h : pool.NameSource name) : name ≠ "" := by
  cases h with
  | entry _ ne_empty _ => exact ne_empty
  | typeText _ named => exact named.ne_empty

end ConstantPool

/-- Every reference of an image is the canonical form of a name in its pool. -/
theorem exists_nameSource {image : List UInt8} {s : NameSet} {c : ClassFile} (decoded : ClassFile.decode image = .ok c)
    (accepted : classReferences image = .ok s) {n : String} (mem : n ∈ s) :
    ∃ internal, c.pool.NameSource internal ∧ canonicalName internal = n := by
  obtain ⟨all, found, rfl⟩ := ClassFile.exists_references decoded accepted
  obtain ⟨internal, ⟨site, -, names, denotes, named⟩, rfl⟩ :=
    (ClassFile.mem_references_iff found).1 (NameSet.mem_withoutPlatform.1 mem).1
  exact ⟨internal, denotes.nameSource internal named, rfl⟩

/-- References are not empty and have no slash; a `;` comes from the text of a class entry, and a bracket at the
beginning stands behind `L` in a text. -/
theorem classReferences_canonical {image : List UInt8} {c : ClassFile} {s : NameSet}
    (decoded : ClassFile.decode image = .ok c) (accepted : classReferences image = .ok s) {n : String} (mem : n ∈ s) :
    n ≠ "" ∧ '/' ∉ n.toList ∧
      (';' ∈ n.toList → ∃ index text, c.pool.HoldsClass index text ∧ text.toList.head? ≠ some '[' ∧
        canonicalName text = n) ∧
      (n.toList.head? = some '[' → ∃ index text, c.pool.Holds index (.utf8 text) ∧ ['L', '['] <:+: text.toList) := by
  obtain ⟨internal, source, rfl⟩ := exists_nameSource decoded accepted mem
  refine ⟨canonicalName_ne_empty source.ne_empty, slash_notMem_canonicalName internal, fun stop => ?_,
    fun bracket => ?_⟩
  · have stop := mem_of_mem_canonicalName (by decide) stop
    cases source with
    | entry holds _ plain => exact ⟨_, internal, holds, plain, rfl⟩
    | typeText _ named => exact absurd stop named.noStop
  · have bracket := head?_of_head?_canonicalName (by decide) bracket
    cases source with
    | entry _ _ plain => exact absurd bracket plain
    | typeText holds named => exact ⟨_, _, holds, named.bracket bracket⟩

/-- A class below a superclass whose class entry has the text of a descriptor. -/
def descriptorEntry : List UInt8 :=
  [0xCA, 0xFE, 0xBA, 0xBE, 0, 0, 0, 52, 0, 3, 1, 0, 17] ++ "Lcom/example/Foo;".toUTF8.toList ++
    [7, 0, 1, 0, 0, 0, 0, 0, 2, 0, 0, 0, 0, 0, 0, 0, 0]

/-- A class with a field of a class whose name starts with a bracket. -/
def bracketName : List UInt8 :=
  [0xCA, 0xFE, 0xBA, 0xBE, 0, 0, 0, 52, 0, 2, 1, 0, 4] ++ "L[I;".toUTF8.toList ++
    [0, 0, 0, 0, 0, 0, 0, 0, 0, 1, 0, 0, 0, 1, 0, 1, 0, 0, 0, 0, 0, 0]

private theorem classReferences_descriptorEntry :
    ∃ s, classReferences descriptorEntry = .ok s ∧ "Lcom.example.Foo;" ∈ s := by
  have names : (classReferences descriptorEntry).toOption.map (·.toList) = some ["Lcom.example.Foo;"] := by
    decide +kernel
  obtain ⟨s, accepted, listed⟩ := NameSet.exists_of_toList names
  exact ⟨s, accepted, Std.ExtTreeSet.mem_toList.1 (by simp [listed])⟩

/-- The text of the class entry is a reference as it stands. -/
theorem classReferences_canonical_descriptorEntry : ∃ c s, ClassFile.decode descriptorEntry = .ok c ∧
    classReferences descriptorEntry = .ok s ∧ "Lcom.example.Foo;" ∈ s ∧ ∃ index text,
      c.pool.HoldsClass index text ∧ text.toList.head? ≠ some '[' ∧ canonicalName text = "Lcom.example.Foo;" := by
  obtain ⟨s, accepted, mem⟩ := classReferences_descriptorEntry
  obtain ⟨c, _, decoded, -⟩ := classReferences_eq_ok_iff.1 accepted
  exact ⟨c, s, decoded, accepted, mem, (classReferences_canonical decoded accepted mem).2.2.1 (by decide +kernel)⟩

/-- The encoding in the class file shows in references: a reference with `;`, and one that starts with a bracket. -/
theorem classReferences_encoded : (∃ s, classReferences descriptorEntry = .ok s ∧ "Lcom.example.Foo;" ∈ s) ∧
    ∃ s, classReferences bracketName = .ok s ∧ "[I" ∈ s := by
  refine ⟨classReferences_descriptorEntry, ?_⟩
  have names : (classReferences bracketName).toOption.map (·.toList) = some ["[I"] := by decide +kernel
  obtain ⟨s, accepted, listed⟩ := NameSet.exists_of_toList names
  exact ⟨s, accepted, Std.ExtTreeSet.mem_toList.1 (by simp [listed])⟩

end ClassCensus
