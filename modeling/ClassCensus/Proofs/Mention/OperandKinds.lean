import ClassCensus.Proofs.Mention.CaughtTypes
import ClassCensus.Proofs.Mention.Exactness

/-!
# Constants that instructions use

The operand of an instruction leads to a constant, and the format says for each opcode which constants may stand there
(`Constant.suits`).  In a class that is accepted every operand leads to some constant, and the classes that this names
are references (`instruction_resolved`).  The opcode has no part in that: whatever constant it is, it counts in the same
way under every opcode.

So an instruction that has to name a class may lead to a constant that names none (`classReferences_unsuited`).
-/

namespace ClassCensus

/-- The opcodes of the instructions that have to name a class or an array type. -/
def classOpcodes : List UInt8 :=
  [0xBB, 0xBD, 0xC0, 0xC1, 0xC5]

/-- The constants that may stand as the operand of an instruction. -/
def Constant.suits (opcode : UInt8) : Constant → Bool
  | .classInfo _ => opcode ∈ classOpcodes || opcode ∈ [0x12, 0x13]
  | .memberRef .field _ _ => 0xB2 ≤ opcode && opcode ≤ 0xB5
  | .memberRef .method _ _ => 0xB6 ≤ opcode && opcode ≤ 0xB8
  | .memberRef .interfaceMethod _ _ => 0xB6 ≤ opcode && opcode ≤ 0xB9
  | .invokeDynamic _ _ => opcode = 0xBA
  | .integer _ | .float _ | .string _ | .methodHandle _ _ | .methodType _ => opcode ∈ [0x12, 0x13]
  | .long _ | .double _ => opcode = 0x14
  | .dynamic _ _ => opcode ∈ [0x12, 0x13, 0x14]
  | .unusable | .utf8 _ | .nameAndType _ _ | .undecoded _ => false

/-- Only a class entry suits an instruction that has to name a class. -/
theorem Constant.eq_classInfo_of_suits {opcode : UInt8} (h : opcode ∈ classOpcodes) {entry : Constant}
    (suits : entry.suits opcode = true) : ∃ i, entry = .classInfo i := by
  simp only [classOpcodes, List.mem_cons, List.not_mem_nil, or_false] at h
  cases entry with
  | classInfo i => exact ⟨i, rfl⟩
  | memberRef kind => cases kind <;> rcases h with rfl | rfl | rfl | rfl | rfl <;> cases suits
  | _ => rcases h with rfl | rfl | rfl | rfl | rfl <;> cases suits

/-- An instruction with an operand in the constant pool, in a method body of the class. -/
def ClassFile.HasInstruction (c : ClassFile) (o : PoolOperand) : Prop :=
  ∃ operands catchTypes inner, c.HasAttribute (.code operands catchTypes inner) ∧ o ∈ operands

theorem ClassFile.HasAttribute.hasSite {c : ClassFile} {a : Attribute} {site : Site} (h : c.HasAttribute a)
    (has : a.HasSite site) : c.HasSite site := by
  cases h with
  | member mem occurs =>
    rcases List.mem_append.1 mem with mem | mem
    · exact .field mem (.inr ⟨a, occurs, has⟩)
    · exact .method mem (.inr ⟨a, occurs, has⟩)
  | classAttribute occurs => exact .classAttribute ⟨a, occurs, has⟩

theorem ClassFile.HasInstruction.hasSite {c : ClassFile} {o : PoolOperand} (h : c.HasInstruction o) :
    c.HasSite (.operand o) := by
  obtain ⟨_, _, _, body, mem⟩ := h
  exact body.hasSite (.operand mem)

/-- A constant that is loaded stands in its slot; a literal names nothing, and a class entry names what its text
names. -/
theorem ConstantPool.LoadDenotes.exists_entry {pool : ConstantPool} {index : UInt16} {names : List String}
    (h : pool.LoadDenotes index names) : ∃ entry, pool.Holds index entry ∧ (entry.IsLiteral → names = []) ∧
      ∀ i, entry = .classInfo i → pool.EntryDenotes index names := by
  cases h with
  | classInfo holds names => exact ⟨_, holds, nofun, fun _ _ => names⟩
  | memberRef holds _ => exact ⟨_, holds, nofun, nofun⟩
  | methodHandle holds _ _ => exact ⟨_, holds, nofun, nofun⟩
  | methodType holds _ => exact ⟨_, holds, nofun, nofun⟩
  | dynamic holds _ => exact ⟨_, holds, nofun, nofun⟩
  | invokeDynamic holds _ => exact ⟨_, holds, nofun, nofun⟩
  | literal holds literal =>
    refine ⟨_, holds, fun _ => rfl, ?_⟩
    rintro i rfl
    exact literal.elim

/-- In a class that is accepted the operand of an instruction leads to a constant, and all classes that this names are
references or belong to the platform.  Under every opcode the constant would name the same classes. -/
theorem instruction_resolved {image : List UInt8} {c : ClassFile} {s : NameSet}
    (decoded : ClassFile.decode image = .ok c) (accepted : classReferences image = .ok s) {o : PoolOperand}
    (body : c.HasInstruction o) : ∃ entry names, c.pool.Holds o.index entry ∧ (entry.IsLiteral → names = []) ∧
      (o.opcode ∈ classOpcodes → entry.suits o.opcode = true → c.pool.EntryDenotes o.index names) ∧
      (∀ pc opcode, c.pool.siteNames (.operand ⟨pc, opcode, o.index⟩) = .ok names) ∧
      ∀ internal ∈ names, "java.".toList <+: (canonicalName internal).toList ∨ canonicalName internal ∈ s := by
  obtain ⟨all, found, rfl⟩ := ClassFile.exists_references decoded accepted
  obtain ⟨names, denotes⟩ := (ClassFile.resolves_of_references found).2 _ body.hasSite
  obtain ⟨entry, holds, literal, ofClass⟩ := ConstantPool.LoadDenotes.exists_entry denotes
  refine ⟨entry, names, holds, literal, ?_, fun pc opcode => ConstantPool.siteNames_eq_ok_iff.2 denotes, ?_⟩
  · intro mem suits
    obtain ⟨i, e⟩ := Constant.eq_classInfo_of_suits mem suits
    exact ofClass i e
  · intro internal mem
    rw [NameSet.mem_withoutPlatform, ClassFile.mem_references_iff found]
    by_cases platform : "java.".toList <+: (canonicalName internal).toList
    · exact .inl platform
    · exact .inr ⟨⟨internal, ⟨_, body.hasSite, names, denotes, mem⟩, rfl⟩, platform⟩

/-- A class with a method that creates an object of the class in slot 1, where a text stands. -/
def unsuitedOperand : List UInt8 :=
  [0xCA, 0xFE, 0xBA, 0xBE, 0, 0, 0, 52, 0, 4, 1, 0, 4] ++ "Code".toUTF8.toList ++ [1, 0, 1, 0x6D, 1, 0, 3] ++
    "()V".toUTF8.toList ++ [0, 0, 0, 0, 0, 0, 0, 0, 0, 0, 0, 1, 0, 0, 0, 2, 0, 3, 0, 1, 0, 1, 0, 0, 0, 16, 0, 1, 0, 0,
      0, 0, 0, 4, 0xBB, 0, 1, 0xB1, 0, 0, 0, 0, 0, 0]

/-- The operands of the instructions of a method body. -/
private def operandsOf : Attribute → List PoolOperand
  | .code operands _ _ => operands
  | _ => []

private theorem hasInstruction_of_mem {c : ClassFile} {o : PoolOperand}
    (h : o ∈ c.methods.flatMap fun m => m.attributes.flatMap operandsOf) : c.HasInstruction o := by
  obtain ⟨m, listed, h⟩ := List.mem_flatMap.1 h
  obtain ⟨a, stands, mem⟩ := List.mem_flatMap.1 h
  cases a with
  | code operands catchTypes inner =>
    exact ⟨operands, catchTypes, inner, .member (List.mem_append_right _ listed) (.here stands), mem⟩
  | _ => cases mem

private theorem decode_unsuitedOperand : ∃ c, ClassFile.decode unsuitedOperand = .ok c ∧
    c.HasInstruction ⟨0, 0xBB, 1⟩ ∧ c.pool.Holds 1 (.utf8 "Code") := by
  have parts : (ClassFile.decode unsuitedOperand).toOption.map
      (fun c => (c.methods.flatMap fun m => m.attributes.flatMap operandsOf, c.pool.entries[1]?)) =
        some ([⟨0, 0xBB, 1⟩], some (.utf8 "Code")) := by
    decide +kernel
  obtain ⟨c, decoded, e⟩ := Option.map_eq_some_iff.1 parts
  obtain ⟨operands, entry⟩ := Prod.mk.inj e
  refine ⟨c, ?_, hasInstruction_of_mem (by simp [operands]), entry, nofun⟩
  cases decoded' : ClassFile.decode unsuitedOperand with
  | error e => simp [decoded', Except.toOption] at decoded
  | ok found => simpa [decoded', Except.toOption] using decoded

private theorem classReferences_unsuitedOperand : ∃ s, classReferences unsuitedOperand = .ok s ∧ s.toList = [] :=
  NameSet.exists_of_toList (by decide +kernel)

/-- The instruction of that class leads to a constant, a text. -/
theorem instruction_resolved_unsuitedOperand : ∃ c s, ClassFile.decode unsuitedOperand = .ok c ∧
    classReferences unsuitedOperand = .ok s ∧ c.HasInstruction ⟨0, 0xBB, 1⟩ ∧
      ∃ entry names, c.pool.Holds 1 entry ∧ (entry.IsLiteral → names = []) ∧
        ∀ pc opcode, c.pool.siteNames (.operand ⟨pc, opcode, 1⟩) = .ok names := by
  obtain ⟨c, decoded, body, -⟩ := decode_unsuitedOperand
  obtain ⟨s, accepted, -⟩ := classReferences_unsuitedOperand
  obtain ⟨entry, names, holds, literal, -, blind, -⟩ := instruction_resolved decoded accepted body
  exact ⟨c, s, decoded, accepted, body, entry, names, holds, literal, blind⟩

/-- A class may be accepted whose instruction has to name a class, and leads to a constant that does not suit it and
names none. -/
theorem classReferences_unsuited : ∃ c s o, ClassFile.decode unsuitedOperand = .ok c ∧
    classReferences unsuitedOperand = .ok s ∧ c.HasInstruction o ∧ o.opcode ∈ classOpcodes ∧
      (∀ entry, c.pool.Holds o.index entry → entry.suits o.opcode = false) ∧ s.toList = [] := by
  obtain ⟨c, decoded, body, holds⟩ := decode_unsuitedOperand
  obtain ⟨s, accepted, none⟩ := classReferences_unsuitedOperand
  refine ⟨c, s, _, decoded, accepted, body, by decide, fun entry holds' => ?_, none⟩
  obtain rfl := Option.some.inj (holds'.1.symm.trans holds.1)
  rfl

end ClassCensus
