import ClassCensus.Mention.Reference
import ClassCensus.Proofs.ClassFile.WrittenClass
import ClassCensus.Proofs.Outcome

/-!
# Class files end where they end

The bytes of a class say themselves where the class ends.  What a class file decoder does with an accepted image it does
with every longer one, up to the place where the image ends (`Decoder.Reads.extend`); there a class file has to end, so
an accepted image is neither the start of another one nor has another one at its start.
-/

namespace ClassCensus

/-- No byte string and a longer one that starts with it are both accepted: an accepted byte string is refused if it is
cut off anywhere, and if anything stands after it. -/
structure SelfDelimiting {α : Type} (read : List UInt8 → Except FormatError α) : Prop where
  notBoth : ∀ p q, q ≠ [] → ¬ ((∃ a, read p = .ok a) ∧ ∃ a, read (p ++ q) = .ok a)
  truncated : ∀ image a, read image = .ok a → ∀ k < image.length, ∃ e, read (image.take k) = .error e
  extended : ∀ image a, read image = .ok a → ∀ q, q ≠ [] → ∃ e, read (image ++ q) = .error e

namespace SelfDelimiting

variable {α β : Type} {read : List UInt8 → Except FormatError α}

private theorem exists_error {bytes : List UInt8} (h : ¬ ∃ a, read bytes = .ok a) : ∃ e, read bytes = .error e := by
  cases e : read bytes with
  | error fault => exact ⟨fault, rfl⟩
  | ok a => exact absurd ⟨a, e⟩ h

/-- Truncations and extensions are refused if of a byte string and a longer one at most one is accepted. -/
theorem of_notBoth (h : ∀ p q a b, read p = .ok a → read (p ++ q) = .ok b → q = []) : SelfDelimiting read where
  notBoth := by
    rintro p q hq ⟨⟨a, ha⟩, b, hb⟩
    exact hq (h p q a b ha hb)
  truncated := by
    intro image a ha k hk
    apply exists_error
    intro hx
    obtain ⟨b, hb⟩ := hx
    have rest : image.drop k = [] := h _ _ b a hb (by rwa [List.take_append_drop])
    rw [List.drop_eq_nil_iff] at rest
    omega
  extended := by
    intro image a ha q hq
    apply exists_error
    intro hx
    obtain ⟨b, hb⟩ := hx
    exact hq (h image q a b ha hb)

/-- A reading that goes on after a self-delimiting one delimits itself as well. -/
theorem bind (h : SelfDelimiting read) (next : α → Except FormatError β) :
    SelfDelimiting fun bytes => read bytes >>= next := by
  apply of_notBoth
  intro p q a b ha hb
  obtain ⟨c, hc, -⟩ := Except.bind_eq_ok_iff.1 ha
  obtain ⟨d, hd, -⟩ := Except.bind_eq_ok_iff.1 hb
  by_contra hq
  exact h.notBoth p q hq ⟨⟨c, hc⟩, d, hd⟩

end SelfDelimiting

namespace ClassFile

/-- The size of the image, which only faults tell, does not change what is read. -/
private theorem structureDecoder_size {m n : Nat} {cursor after : Cursor} {c : ClassFile} :
    structureDecoder m cursor = .ok c after ↔ structureDecoder n cursor = .ok c after := by
  rw [reads_structure m, reads_structure n]

private theorem decode_selfDelimiting : SelfDelimiting decode := by
  apply SelfDelimiting.of_notBoth
  intro p q c d hp hpq
  obtain ⟨⟨n, rest⟩, hp⟩ := Decoder.decode_eq_ok_iff.1 hp
  obtain ⟨after, hpq⟩ := Decoder.decode_eq_ok_iff.1 hpq
  obtain ⟨hp, rfl⟩ := decoder_eq_ok_iff.1 hp
  obtain ⟨hpq, used⟩ := decoder_eq_ok_iff.1 hpq
  -- the class that `p` holds is also read from `p ++ q`, and `q` is left over
  have longer := (reads_structure p.length).extend q hp
  have same : EStateM.Result.ok c ⟨n, [] ++ q⟩ = EStateM.Result.ok d after :=
    (structureDecoder_size.1 longer).symm.trans hpq
  cases same
  exact used

/-- Class images delimit themselves, for the reading of classes and for that of references. -/
theorem images_selfDelimiting : SelfDelimiting decode ∧ SelfDelimiting classReferences :=
  ⟨decode_selfDelimiting, decode_selfDelimiting.bind fun c => do return (← c.references).withoutPlatform⟩

end ClassFile

end ClassCensus
