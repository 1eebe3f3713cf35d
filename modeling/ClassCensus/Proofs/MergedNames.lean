import ClassCensus.Proofs.NameSet
import ClassCensus.Proofs.Text.CodePointOrder

/-!
# Merged sets of names

A merged set depends on the names in its parts only (`NameSet.merge_congr`), so it does not matter how names are
distributed over the parts, how often a part occurs, and where it stands.  Its report lists the names in ascending order,
by bytes as well as by code points (`NameSet.merge_ordered`).
-/

namespace ClassCensus

open Text.Utf8 (encode codePoints)

namespace NameSet

/-- What holds of a set that is merged from parts. -/
structure MergedFrom (parts : List NameSet) (merged : NameSet) : Prop where
  mem_iff : ∀ n, n ∈ merged ↔ ∃ s ∈ parts, n ∈ s
  /-- Parts may change places, and any of them may be repeated or left out where it is repeated. -/
  reordered : ∀ others : List NameSet, (∀ s, s ∈ others ↔ s ∈ parts) → merge others = merged
  /-- A part may be split into smaller ones, which may overlap. -/
  split : ∀ before s smaller after, parts = before ++ s :: after → (∀ n, n ∈ s ↔ ∃ t ∈ smaller, n ∈ t) →
    merge (before ++ smaller ++ after) = merged
  /-- The names in ascending order, each once, are what the report shows. -/
  listed : ∃ names : List String, merged.render = "\n".intercalate names ∧ (∀ n, n ∈ names ↔ ∃ s ∈ parts, n ∈ s) ∧
    names.Pairwise (fun a b => encode a.toList < encode b.toList) ∧
    names.Pairwise (fun a b => codePoints a.toList < codePoints b.toList)
  /-- The report is the same for all parts with these names. -/
  render_eq : ∀ others : List NameSet, (∀ n, (∃ s ∈ others, n ∈ s) ↔ ∃ s ∈ parts, n ∈ s) →
    (merge others).render = merged.render

variable {parts others : List NameSet}

theorem merge_congr (same : ∀ n, (∃ s ∈ others, n ∈ s) ↔ ∃ s ∈ parts, n ∈ s) : merge others = merge parts := by
  apply Std.ExtTreeSet.ext_mem
  intro n
  rw [mem_merge, mem_merge, same]

theorem merge_split {before after smaller : List NameSet} {s : NameSet} (whole : ∀ n, n ∈ s ↔ ∃ t ∈ smaller, n ∈ t) :
    merge (before ++ smaller ++ after) = merge (before ++ s :: after) := by
  apply merge_congr
  intro n
  simp only [List.mem_append, List.mem_cons, or_and_right, exists_or, exists_eq_left, whole n, or_assoc]

theorem pairwise_codePoints (names : NameSet) :
    names.toList.Pairwise fun a b => codePoints a.toList < codePoints b.toList :=
  names.pairwise_toList.imp fun less => Text.Utf8.codePoints_lt_iff.2 (String.lt_iff.1 less)

/-- Bytes in UTF-8 and code points order texts in the same way, and this is the order in which a report shows the names
of merged sets. -/
theorem merge_ordered :
    (∀ a b : String, encode a.toList < encode b.toList ↔ codePoints a.toList < codePoints b.toList) ∧
      ∀ parts, MergedFrom parts (merge parts) := by
  refine ⟨fun a b => Text.Utf8.encode_lt_iff, fun parts => ?_⟩
  have ordered := (merge parts).pairwise_codePoints
  constructor
  case mem_iff =>
    intro n
    exact mem_merge
  case reordered =>
    intro others same
    apply merge_congr
    intro n
    simp only [same]
  case split =>
    intro before s smaller after e whole
    rw [e]
    exact merge_split whole
  case listed =>
    refine ⟨(merge parts).toList, rfl, fun n => ?_, ordered.imp Text.Utf8.encode_lt_iff.2, ordered⟩
    rw [Std.ExtTreeSet.mem_toList, mem_merge]
  case render_eq =>
    intro others same
    rw [merge_congr same]

/-- A character above U+FFFF comes after one below, though its UTF-16 units are smaller. -/
example : (ofList [String.singleton (Char.ofNat 0x1F600), "\uFFFD"]).render =
    String.ofList ['\uFFFD', '\n', Char.ofNat 0x1F600] := by
  decide +kernel

end NameSet

end ClassCensus
