import ClassCensus.Proofs.ClassFile.Lookup
import ClassCensus.Proofs.Mention.Correspondence
import ClassCensus.Proofs.NameSet

/-!
# Constants that do not count

Extraction resolves the indices of the mention sites and of the member names, and from there it follows links from
entry to entry, but never the link of a string constant to its text (`ClassFile.Reaches`).  What stands in any other
slot has no influence, neither on the references nor on the fault if there are none
(`ClassFile.references_reachedOnly`): literal texts, numbers and entries out of use do not leak into a report.
-/

namespace ClassCensus

namespace ClassFile

/-- The indices that extraction resolves. -/
inductive Reaches (c : ClassFile) : UInt16 → Prop
  | site {site : Site} : c.HasSite site → Reaches c site.index
  | memberName {m : Member} : m ∈ c.fields ++ c.methods → Reaches c m.name
  | link {i j : UInt16} {entry : Constant} :
      Reaches c i → c.pool.Holds i entry → j ∈ entry.links → Reaches c j

/-- An index is out of reach if neither the class file holds it nor a constant is linked to it. -/
theorem not_reaches_of_unlinked {c : ClassFile} {i : UInt16} (sites : ∀ site, c.HasSite site → site.index ≠ i)
    (names : ∀ m ∈ c.fields ++ c.methods, m.name ≠ i) (links : ∀ entry ∈ c.pool.entries, i ∉ entry.links) :
    ¬ c.Reaches i := by
  intro h
  cases h with
  | site has => exact sites _ has rfl
  | memberName mem => exact names _ mem rfl
  | link _ holds mem => exact links _ (Array.mem_of_getElem? holds.1) mem

/-- The class file with another constant in a slot. -/
def withEntry (c : ClassFile) (i : UInt16) (entry : Constant) : ClassFile :=
  { c with pool := ⟨c.pool.entries.setIfInBounds i.toNat entry⟩ }

variable {c : ClassFile} {pool : ConstantPool}

private theorem corresponds_of_agree (size : pool.size = c.pool.size)
    (agree : ∀ i, c.Reaches i → pool.entries[i.toNat]? = c.pool.entries[i.toNat]?) :
    c.Corresponds { c with pool } id c.Reaches where
  pool := {
    get_eq := by
      intro i reached
      have same : pool.get (id i) = c.pool.get i := by
        rw [ConstantPool.get, ConstantPool.get, id, agree i reached, size]
      rw [same]
      cases c.pool.get i with
      | error e => exact congrArg Except.error e.renumber_id.symm
      | ok entry => exact congrArg Except.ok entry.renumber_id.symm
    closed := fun i reached entry found j mem => reached.link (ConstantPool.get_eq_ok_iff.1 found) mem }
  supertypes := by
    rw [funext Site.renumber_id, List.map_id']
    rfl
  fields := List.forall₂_same.2 fun m _ => ⟨rfl, by rw [funext Site.renumber_id, List.map_id']⟩
  methods := List.forall₂_same.2 fun m _ => ⟨rfl, by rw [funext Site.renumber_id, List.map_id']⟩
  attributes := by rw [funext Site.renumber_id, List.map_id']
  memberName _ mem := .memberName mem
  site _ has := .site has

private theorem references_of_agree (size : pool.size = c.pool.size)
    (agree : ∀ i, c.Reaches i → pool.entries[i.toNat]? = c.pool.entries[i.toNat]?) :
    { c with pool }.references = c.references := by
  rw [(corresponds_of_agree size agree).references_eq]
  cases c.references with
  | error e => exact congrArg Except.error e.renumber_id
  | ok s => rfl

private theorem references_withEntry {i : UInt16} (out : ¬ c.Reaches i) (entry : Constant) :
    (c.withEntry i entry).references = c.references := by
  refine references_of_agree (by simp [ConstantPool.size]) fun j reached => ?_
  have other : i.toNat ≠ j.toNat := by
    intro e
    exact out (UInt16.toNat_inj.1 e ▸ reached)
  exact Array.getElem?_setIfInBounds_ne other

/-- Class files that differ in their constant pools only have the same references, or the same fault, if the pools have
as many slots and agree on what extraction resolves.  So any other constant may be replaced by anything. -/
theorem references_reachedOnly (c : ClassFile) :
    (∀ pool : ConstantPool, pool.size = c.pool.size →
      (∀ i, c.Reaches i → pool.entries[i.toNat]? = c.pool.entries[i.toNat]?) →
        { c with pool }.references = c.references) ∧
    ∀ i entry, ¬ c.Reaches i → (c.withEntry i entry).references = c.references :=
  ⟨fun _ size agree => references_of_agree size agree, fun _ entry out => references_withEntry out entry⟩

end ClassFile

/-- A class that passes a string constant to a bootstrap method; the text of the string looks like the name of a
class. -/
def literalArgument : ClassFile where
  minorVersion := 0
  majorVersion := 52
  pool := ⟨#[.unusable, .utf8 "p/Super", .classInfo 1, .utf8 "p/Literal", .string 3, .integer 7, .utf8 "()Lp/Result;",
    .methodType 6]⟩
  accessFlags := 0
  thisClass := 2
  superclass? := some 2
  interfaces := []
  fields := []
  methods := []
  attributes := [.bootstrapMethods [⟨7, [4]⟩]]

private theorem sites_literalArgument {site : Site} (has : literalArgument.HasSite site) :
    site = .classEntry 2 ∨ site = .loadable 7 ∨ site = .loadable 4 := by
  rcases ClassFile.hasSite_iff.1 has with mem | ⟨m, mem, -⟩ | ⟨m, mem, -⟩ | mem
  · exact .inl (List.mem_singleton.1 mem)
  · cases mem
  · cases mem
  · have listed : site ∈ [Site.loadable 7, .loadable 4] := mem
    right
    simpa using listed

/-- The text of the string of that class may be anything, also the entry of a class. -/
theorem references_reachedOnly_literalArgument : literalArgument.Reaches 4 ∧ ¬ literalArgument.Reaches 3 ∧
    (∃ s, literalArgument.references = .ok s ∧ s.toList = ["p.Result", "p.Super"]) ∧
      ∀ entry, (literalArgument.withEntry 3 entry).references = literalArgument.references := by
  have out : ¬ literalArgument.Reaches 3 := by
    apply ClassFile.not_reaches_of_unlinked
    · intro site has
      rcases sites_literalArgument has with rfl | rfl | rfl <;> decide
    · simp [literalArgument]
    · simp [literalArgument, Constant.links]
  have listed : Site.loadable 4 ∈ [Site.loadable 7, .loadable 4] := by simp
  have argument : literalArgument.HasSite (.loadable 4) := ClassFile.hasSite_iff.2 (.inr (.inr (.inr listed)))
  refine ⟨.site argument, out, ?_, fun entry => (ClassFile.references_reachedOnly literalArgument).2 3 entry out⟩
  · exact NameSet.exists_of_toList (by decide +kernel)

end ClassCensus
