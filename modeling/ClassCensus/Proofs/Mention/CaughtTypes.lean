import ClassCensus.Proofs.ClassFile.WrittenClass
import ClassCensus.Proofs.Mention.Occurrence

/-!
# Types that handlers catch

A handler for every type is written with the index 0.  Reading leaves these out, wherever the method body stands, so
every type that a decoded class file lists for its handlers is an index into the constant pool
(`ClassFile.decode_catchTypes_ne_zero`).
-/

namespace ClassCensus

variable {operands : List PoolOperand} {catchTypes : List UInt16} {inner : List Attribute}

/-! ### Attributes that hold attributes -/

private theorem of_view_eq_code {w : WrittenAttribute} (h : w.view = some (.code operands catchTypes inner)) :
    0 ∉ catchTypes ∧ ∃ raw : List WrittenAttribute, inner = raw.filterMap WrittenAttribute.view := by
  rw [WrittenAttribute.view_eq] at h
  cases body : w.body with
  | code maxStack maxLocals code handlers raw =>
    rw [body, WrittenBody.view] at h
    obtain ⟨-, rfl, rfl⟩ := Attribute.code.inj (Option.some.inj h)
    exact ⟨by simp, raw, rfl⟩
  | _ => rw [body, WrittenBody.view] at h; cases h

private theorem of_view_eq_record {w : WrittenAttribute} {components : List RecordComponent}
    (h : w.view = some (.record components)) {component : RecordComponent} (mem : component ∈ components) :
    ∃ raw : List WrittenAttribute, component.attributes = raw.filterMap WrittenAttribute.view := by
  rw [WrittenAttribute.view_eq] at h
  cases body : w.body with
  | record written =>
    rw [body, WrittenBody.view] at h
    obtain rfl := Attribute.record.inj (Option.some.inj h)
    obtain ⟨⟨name, descriptor, raw⟩, -, rfl⟩ := List.mem_map.1 mem
    exact ⟨raw, by rw [WrittenComponent.view]⟩
  | _ => rw [body, WrittenBody.view] at h; cases h

/-- No method body that occurs in a table as it is read lists the type 0. -/
theorem WrittenAttribute.catchTypes_ne_zero {raw : List WrittenAttribute}
    (h : (Attribute.code operands catchTypes inner).OccursIn (raw.filterMap WrittenAttribute.view)) :
    ∀ i ∈ catchTypes, i ≠ 0 := by
  -- every table inside was read as well, from the written form of the attribute that holds it
  generalize ht : raw.filterMap WrittenAttribute.view = table at h
  induction h generalizing raw with
  | here mem =>
    subst ht
    obtain ⟨w, -, view⟩ := List.mem_filterMap.1 mem
    rintro i mem rfl
    exact (of_view_eq_code view).1 mem
  | code mem inside ih =>
    subst ht
    obtain ⟨w, -, view⟩ := List.mem_filterMap.1 mem
    obtain ⟨-, raw, e⟩ := of_view_eq_code view
    exact ih e.symm
  | record mem inComponents inside ih =>
    subst ht
    obtain ⟨w, -, view⟩ := List.mem_filterMap.1 mem
    obtain ⟨raw, e⟩ := of_view_eq_record view inComponents
    exact ih e.symm

/-! ### Classes -/

/-- An attribute stands in the class, in one of its members, or in a method body or a record component there. -/
inductive ClassFile.HasAttribute (c : ClassFile) (a : Attribute) : Prop
  | member {m : Member} : m ∈ c.fields ++ c.methods → a.OccursIn m.attributes → HasAttribute c a
  | classAttribute : a.OccursIn c.attributes → HasAttribute c a

/-- The types that the handlers of a decoded class catch are indices into the constant pool. -/
theorem ClassFile.decode_catchTypes_ne_zero {image : List UInt8} {c : ClassFile} (h : decode image = .ok c)
    (body : c.HasAttribute (.code operands catchTypes inner)) : ∀ i ∈ catchTypes, i ≠ 0 := by
  obtain ⟨raw, -, -, rfl⟩ := decode_eq_ok_iff_spells.1 h
  cases body with
  | classAttribute occurs => exact WrittenAttribute.catchTypes_ne_zero occurs
  | @member m mem occurs =>
    have written : ∃ w : WrittenMember, (WrittenMember.format raw.pool.view).view w = m := by
      rcases List.mem_append.1 mem with mem | mem
      · obtain ⟨w, -, e⟩ := List.mem_map.1 mem
        exact ⟨w, e⟩
      · obtain ⟨w, -, e⟩ := List.mem_map.1 mem
        exact ⟨w, e⟩
    obtain ⟨w, rfl⟩ := written
    exact WrittenAttribute.catchTypes_ne_zero occurs

end ClassCensus
