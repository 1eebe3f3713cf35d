import ClassCensus.NameSet

/-!
# Members of name sets

What the members of a set are, told from what it is made of, and the order in which a list gives them.
-/

namespace ClassCensus

namespace NameSet

theorem mem_ofList {names : List String} {n : String} : n ∈ ofList names ↔ n ∈ names := by
  rw [ofList, Std.ExtTreeSet.mem_ofList, List.contains_iff_mem]

theorem mem_withoutPlatform {s : NameSet} {n : String} :
    n ∈ s.withoutPlatform ↔ n ∈ s ∧ ¬ "java.".toList <+: n.toList := by
  rw [withoutPlatform, Std.ExtTreeSet.mem_filter]
  simp [isPlatformName, platformRoot, ← Bool.not_eq_true, List.isPrefixOf_iff_prefix]

theorem mem_merge {sets : List NameSet} {n : String} : n ∈ merge sets ↔ ∃ s ∈ sets, n ∈ s := by
  have onto : ∀ s : NameSet, n ∈ sets.foldl (· ∪ ·) s ↔ n ∈ s ∨ ∃ t ∈ sets, n ∈ t := by
    induction sets with
    | nil => simp
    | cons t sets ih =>
      intro s
      rw [List.foldl_cons, ih, Std.ExtTreeSet.mem_union_iff, or_assoc]
      simp
  rw [merge, onto]
  simp

/-- The names of a set come in ascending order, each once. -/
theorem pairwise_toList (names : NameSet) : names.toList.Pairwise (· < ·) := by
  have ordered : names.toList.Pairwise fun a b => compare a b = .lt := Std.ExtTreeSet.ordered_toList
  exact ordered.imp compareOfLessAndEq_eq_lt.1

/-- A result told from the list of its names, which can be computed. -/
theorem exists_of_toList {ε : Type} {result : Except ε NameSet} {names : List String}
    (h : result.toOption.map (·.toList) = some names) : ∃ s, result = .ok s ∧ s.toList = names := by
  cases result with
  | error e => cases h
  | ok s => exact ⟨s, rfl, Option.some.inj h⟩

end NameSet

end ClassCensus
