import ClassCensus.Proofs.Mention.Occurrence
import ClassCensus.Proofs.Mention.Resolution
import ClassCensus.Proofs.NameSet

/-!
# The references of a class are exact

A class file has references exactly if every member has a readable name and every mention site denotes something.  The
references are then the canonical forms of the names that the sites denote, no more and no less
(`ClassFile.references_exact`).
-/

namespace ClassCensus

namespace ConstantPool

/-- The names that sites denote, if each of them denotes something. -/
theorem collects_sitesNames (pool : ConstantPool) (sites : List Site) :
    Except.Collects (pool.sitesNames sites) (∀ site ∈ sites, ∃ names, pool.Denotes site names) fun n =>
      ∃ site ∈ sites, ∃ names, pool.Denotes site names ∧ n ∈ names :=
  Except.Collects.mapM fun _ _ => Except.Collects.of_relation fun _ => siteNames_eq_ok_iff

end ConstantPool

namespace ClassFile

/-- The name of a member can be read, and each of its sites denotes something. -/
private def MemberReady (c : ClassFile) (m : Member) : Prop :=
  (∃ name, c.pool.Holds m.name (.utf8 name)) ∧ ∀ site ∈ Site.ofMember m, ∃ names, c.pool.Denotes site names

/-- A site of the member denotes the name. -/
private def MemberDenotes (c : ClassFile) (m : Member) (n : String) : Prop :=
  ∃ site ∈ Site.ofMember m, ∃ names, c.pool.Denotes site names ∧ n ∈ names

private theorem collects_memberNames (c : ClassFile) (table : MemberTable) (m : Member) :
    Except.Collects (c.memberNames table m) (c.MemberReady m) (c.MemberDenotes m) := by
  have sites := c.pool.collects_sitesNames (Site.ofMember m)
  constructor
  · simp only [memberNames, Except.bind_eq_ok_iff, ConstantPool.utf8_eq_ok_iff, MemberReady, ← sites.succeeds_iff]
    constructor
    · intro hx
      obtain ⟨l, name, holds, h⟩ := hx
      exact ⟨⟨name, holds⟩, l, Except.mapError_eq_ok_iff.1 h⟩
    · intro hx
      obtain ⟨⟨name, holds⟩, l, h⟩ := hx
      exact ⟨l, name, holds, Except.mapError_eq_ok_iff.2 h⟩
  · intro l h n
    obtain ⟨name, holds, h⟩ := Except.bind_eq_ok_iff.1 h
    exact sites.mem_iff l (Except.mapError_eq_ok_iff.1 h) n

private theorem collects_membersNames (c : ClassFile) (table : MemberTable) (members : List Member) :
    Except.Collects (List.flatten <$> members.mapM (c.memberNames table)) (∀ m ∈ members, c.MemberReady m) fun n =>
      ∃ m ∈ members, c.MemberDenotes m n :=
  Except.Collects.mapM fun m _ => c.collects_memberNames table m

private theorem mentionedNames_eq_ok_iff {c : ClassFile} {names : List String} : c.mentionedNames = .ok names ↔
    ∃ supertypes fields methods attributes, c.pool.sitesNames (Site.ofSupertypes c) = .ok supertypes ∧
      List.flatten <$> c.fields.mapM (c.memberNames .fields) = .ok fields ∧
      List.flatten <$> c.methods.mapM (c.memberNames .methods) = .ok methods ∧
      c.pool.sitesNames (Site.ofAttributes c.attributes) = .ok attributes ∧
      names = supertypes ++ fields ++ methods ++ attributes := by
  simp only [mentionedNames, Except.bind_eq_ok_iff, Except.map_eq_ok_iff]
  constructor
  · intro h
    obtain ⟨s, hs, f, hf, m, hm, a, ha, e⟩ := h
    cases e
    exact ⟨s, _, _, a, hs, ⟨f, hf, rfl⟩, ⟨m, hm, rfl⟩, ha, rfl⟩
  · intro h
    obtain ⟨s, _, _, a, hs, ⟨f, hf, rfl⟩, ⟨m, hm, rfl⟩, ha, rfl⟩ := h
    exact ⟨s, hs, f, hf, m, hm, a, ha, rfl⟩

/-- Every member has a readable name, and every site denotes something. -/
def Resolves (c : ClassFile) : Prop :=
  (∀ m ∈ c.fields ++ c.methods, ∃ name, c.pool.Holds m.name (.utf8 name)) ∧
    ∀ site, c.HasSite site → ∃ names, c.pool.Denotes site names

/-- A site of the class file denotes the name. -/
def Mentions (c : ClassFile) (n : String) : Prop :=
  ∃ site, c.HasSite site ∧ ∃ names, c.pool.Denotes site names ∧ n ∈ names

private theorem resolves_iff {c : ClassFile} :
    c.Resolves ↔ (∀ site ∈ Site.ofSupertypes c, ∃ names, c.pool.Denotes site names) ∧
      (∀ m ∈ c.fields, c.MemberReady m) ∧ (∀ m ∈ c.methods, c.MemberReady m) ∧
      ∀ site ∈ Site.ofAttributes c.attributes, ∃ names, c.pool.Denotes site names := by
  constructor
  · intro h
    obtain ⟨named, resolved⟩ := h
    have ofField : ∀ m ∈ c.fields, ∀ site ∈ Site.ofMember m, ∃ names, c.pool.Denotes site names :=
      fun m mem site has => resolved site (hasSite_iff.2 (.inr (.inl ⟨m, mem, has⟩)))
    have ofMethod : ∀ m ∈ c.methods, ∀ site ∈ Site.ofMember m, ∃ names, c.pool.Denotes site names :=
      fun m mem site has => resolved site (hasSite_iff.2 (.inr (.inr (.inl ⟨m, mem, has⟩))))
    refine ⟨fun site has => resolved site (hasSite_iff.2 (.inl has)), fun m mem => ⟨?_, ofField m mem⟩,
      fun m mem => ⟨?_, ofMethod m mem⟩, fun site has => resolved site (hasSite_iff.2 (.inr (.inr (.inr has))))⟩
    · exact named m (List.mem_append_left _ mem)
    · exact named m (List.mem_append_right _ mem)
  · intro h
    obtain ⟨hs, hf, hm, ha⟩ := h
    constructor
    · intro m mem
      rcases List.mem_append.1 mem with mem | mem
      · exact (hf m mem).1
      · exact (hm m mem).1
    · intro site has
      rcases hasSite_iff.1 has with has | ⟨m, mem, has⟩ | ⟨m, mem, has⟩ | has
      · exact hs site has
      · exact (hf m mem).2 site has
      · exact (hm m mem).2 site has
      · exact ha site has

private theorem mentions_iff {c : ClassFile} {n : String} :
    c.Mentions n ↔ (∃ site ∈ Site.ofSupertypes c, ∃ names, c.pool.Denotes site names ∧ n ∈ names) ∨
      (∃ m ∈ c.fields, c.MemberDenotes m n) ∨ (∃ m ∈ c.methods, c.MemberDenotes m n) ∨
      ∃ site ∈ Site.ofAttributes c.attributes, ∃ names, c.pool.Denotes site names ∧ n ∈ names := by
  constructor
  · intro h
    obtain ⟨site, has, denotes⟩ := h
    rcases hasSite_iff.1 has with has | ⟨m, mem, has⟩ | ⟨m, mem, has⟩ | has
    · exact .inl ⟨site, has, denotes⟩
    · exact .inr (.inl ⟨m, mem, site, has, denotes⟩)
    · exact .inr (.inr (.inl ⟨m, mem, site, has, denotes⟩))
    · exact .inr (.inr (.inr ⟨site, has, denotes⟩))
  · intro h
    rcases h with ⟨site, has, denotes⟩ | ⟨m, mem, site, has, denotes⟩ | ⟨m, mem, site, has, denotes⟩ |
      ⟨site, has, denotes⟩
    · exact ⟨site, hasSite_iff.2 (.inl has), denotes⟩
    · exact ⟨site, hasSite_iff.2 (.inr (.inl ⟨m, mem, has⟩)), denotes⟩
    · exact ⟨site, hasSite_iff.2 (.inr (.inr (.inl ⟨m, mem, has⟩))), denotes⟩
    · exact ⟨site, hasSite_iff.2 (.inr (.inr (.inr has))), denotes⟩

theorem collects_mentionedNames (c : ClassFile) : Except.Collects c.mentionedNames c.Resolves c.Mentions := by
  have supertypes := c.pool.collects_sitesNames (Site.ofSupertypes c)
  have fields := c.collects_membersNames .fields c.fields
  have methods := c.collects_membersNames .methods c.methods
  have attributes := c.pool.collects_sitesNames (Site.ofAttributes c.attributes)
  constructor
  · rw [resolves_iff, ← supertypes.succeeds_iff, ← fields.succeeds_iff, ← methods.succeeds_iff,
      ← attributes.succeeds_iff]
    simp only [mentionedNames_eq_ok_iff]
    constructor
    · intro h
      obtain ⟨_, s, f, m, a, hs, hf, hm, ha, -⟩ := h
      exact ⟨⟨s, hs⟩, ⟨f, hf⟩, ⟨m, hm⟩, a, ha⟩
    · intro h
      obtain ⟨⟨s, hs⟩, ⟨f, hf⟩, ⟨m, hm⟩, a, ha⟩ := h
      exact ⟨_, s, f, m, a, hs, hf, hm, ha, rfl⟩
  · intro names h n
    obtain ⟨s, f, m, a, hs, hf, hm, ha, rfl⟩ := mentionedNames_eq_ok_iff.1 h
    rw [mentions_iff, ← supertypes.mem_iff s hs, ← fields.mem_iff f hf, ← methods.mem_iff m hm,
      ← attributes.mem_iff a ha]
    simp only [List.mem_append, or_assoc]

theorem references_eq_ok_iff {c : ClassFile} {s : NameSet} : c.references = .ok s ↔
    ∃ names, c.mentionedNames = .ok names ∧ s = NameSet.ofList (names.map canonicalName) := by
  simp only [references, Except.bind_eq_ok_iff]
  refine exists_congr fun names => and_congr_right fun _ => ?_
  exact ⟨fun e => (Except.ok.inj e).symm, fun e => congrArg Except.ok e.symm⟩

/-- Where extraction succeeds, every member has a readable name and every site denotes something. -/
theorem resolves_of_references {c : ClassFile} {s : NameSet} (h : c.references = .ok s) : c.Resolves := by
  obtain ⟨names, mentioned, -⟩ := references_eq_ok_iff.1 h
  exact c.collects_mentionedNames.succeeds_iff.1 ⟨names, mentioned⟩

/-- The references are the canonical forms of the names that sites denote. -/
theorem mem_references_iff {c : ClassFile} {s : NameSet} (h : c.references = .ok s) {n : String} :
    n ∈ s ↔ ∃ internal, c.Mentions internal ∧ canonicalName internal = n := by
  obtain ⟨names, mentioned, rfl⟩ := references_eq_ok_iff.1 h
  rw [NameSet.mem_ofList, List.mem_map]
  simp only [c.collects_mentionedNames.mem_iff names mentioned]

/-- Extraction is exact: it succeeds exactly on the class files whose member names and mention sites resolve, and gives
exactly the canonical forms of the names that the sites denote. -/
theorem references_exact (c : ClassFile) :
    ((∃ s, c.references = .ok s) ↔
      (∀ m ∈ c.fields ++ c.methods, ∃ name, c.pool.Holds m.name (.utf8 name)) ∧
        ∀ site, c.HasSite site → ∃ names, c.pool.Denotes site names) ∧
    ∀ s, c.references = .ok s → ∀ n, n ∈ s ↔
      ∃ site names internal, c.HasSite site ∧ c.pool.Denotes site names ∧ internal ∈ names ∧
        n = canonicalName internal := by
  have mentioned := c.collects_mentionedNames
  constructor
  · change _ ↔ c.Resolves
    rw [← mentioned.succeeds_iff]
    constructor
    · intro hx
      obtain ⟨s, h⟩ := hx
      obtain ⟨names, h, -⟩ := references_eq_ok_iff.1 h
      exact ⟨names, h⟩
    · intro hx
      obtain ⟨names, h⟩ := hx
      exact ⟨_, references_eq_ok_iff.2 ⟨names, h, rfl⟩⟩
  · intro s hs n
    obtain ⟨names, h, rfl⟩ := references_eq_ok_iff.1 hs
    rw [NameSet.mem_ofList, List.mem_map]
    constructor
    · intro hx
      obtain ⟨internal, mem, rfl⟩ := hx
      obtain ⟨site, has, denoted, denotes, mem⟩ := (mentioned.mem_iff names h internal).1 mem
      exact ⟨site, denoted, internal, has, denotes, mem, rfl⟩
    · intro hx
      obtain ⟨site, denoted, internal, has, denotes, mem, rfl⟩ := hx
      exact ⟨internal, (mentioned.mem_iff names h internal).2 ⟨site, has, denoted, denotes, mem⟩, rfl⟩

end ClassFile

/-- The references of an image are those of the class file in it that do not belong to the platform. -/
theorem classReferences_eq_ok_iff {image : List UInt8} {s : NameSet} : classReferences image = .ok s ↔
    ∃ c all, ClassFile.decode image = .ok c ∧ c.references = .ok all ∧ s = all.withoutPlatform := by
  simp only [classReferences, Except.bind_eq_ok_iff]
  constructor
  · intro h
    obtain ⟨c, decoded, all, found, e⟩ := h
    exact ⟨c, all, decoded, found, (Except.ok.inj e).symm⟩
  · intro h
    obtain ⟨c, all, decoded, found, rfl⟩ := h
    exact ⟨c, decoded, all, found, rfl⟩

/-- The references of an image come from those of the class file that it is. -/
theorem ClassFile.exists_references {image : List UInt8} {c : ClassFile} {s : NameSet} (decoded : decode image = .ok c)
    (accepted : classReferences image = .ok s) : ∃ all, c.references = .ok all ∧ s = all.withoutPlatform := by
  obtain ⟨_, all, decoded', found, rfl⟩ := classReferences_eq_ok_iff.1 accepted
  obtain rfl := Except.ok.inj (decoded.symm.trans decoded')
  exact ⟨all, found, rfl⟩

end ClassCensus
