import ClassCensus.FileSystem.Path
import Mathlib.Data.List.Nodup

/-!
# Lists of paths in order

Paths are ordered by their components, so that two texts of the same path compare equal, and of different paths one
comes first (`Path.compare_eq_iff`).

* (sorting) `Path.sortDistinct` keeps one spelling of each path and puts them in strictly ascending order
  (`Path.increasing_sortDistinct`, `Path.exists_same_sortDistinct`);
* (one list) a strictly ascending list is determined, up to spelling, by the paths on it
  (`Path.components_eq_of_increasing`).
-/

namespace ClassCensus

namespace Path

/-! ### The order -/

/-- The text of a name; other components have none. -/
private def Component.nameText : Component → String
  | .name text => text
  | _ => ""

/-- Components are compared by their kinds and then by their texts. -/
private theorem Component.compare_eq (a b : Component) :
    Ord.compare a b = compareLex (compareOn Component.rank) (compareOn Component.nameText) a b := by
  show Component.compare a b = _
  cases a <;> cases b <;> rfl

private theorem Component.compare_lex :
    (Ord.compare : Component → Component → Ordering) =
      compareLex (compareOn Component.rank) (compareOn Component.nameText) :=
  funext fun a => funext fun b => Component.compare_eq a b

instance : Std.TransOrd Component := by
  show Std.TransCmp _
  rw [Component.compare_lex]
  infer_instance

instance : Std.LawfulEqOrd Component where
  eq_of_compare := by
    intro a b h
    rw [Component.compare_eq, compareLex, Ordering.then_eq_eq, compareOn, compareOn, Std.compare_eq_iff_eq,
      Std.compare_eq_iff_eq] at h
    obtain ⟨kind, text⟩ := h
    cases a <;> cases b <;> simp_all [Component.rank, Component.nameText]

instance : Std.TransCmp Path.compare :=
  inferInstanceAs (Std.TransCmp (compareOn components))

theorem same_iff {p q : Path} : p.same q ↔ p.components = q.components := by
  rw [same, decide_eq_true_iff]

theorem compare_eq_iff {p q : Path} : p.compare q = .eq ↔ p.same q := by
  rw [same_iff, Path.compare, Std.compare_eq_iff_eq]

/-! ### Sorted lists -/

/-- The paths of the list come in strictly ascending order. -/
def Increasing (paths : List Path) : Prop :=
  paths.Pairwise fun p q => p.compare q = .lt

private theorem pairwise_sort (paths : List Path) : (sort paths).Pairwise fun p q => (p.compare q).isLE := by
  apply List.pairwise_mergeSort
  · intro p q r h h'
    exact Std.TransCmp.isLE_trans h h'
  · intro p q
    have swapped : q.compare p = (p.compare q).swap := Std.OrientedCmp.eq_swap
    rw [swapped]
    cases p.compare q <;> rfl

theorem mem_sort {paths : List Path} {p : Path} : p ∈ sort paths ↔ p ∈ paths :=
  (List.mergeSort_perm paths _).mem_iff

/-- Of spellings of one path that stand side by side, one is kept. -/
theorem dropRepeated_cons (p : Path) (paths : List Path) :
    (∃ q rest, dropRepeated paths = q :: rest ∧ p.same q ∧ dropRepeated (p :: paths) = p :: rest) ∨
      dropRepeated (p :: paths) = p :: dropRepeated paths ∧
        ∀ q rest, dropRepeated paths = q :: rest → ¬ p.same q := by
  rw [dropRepeated]
  cases e : dropRepeated paths with
  | nil => exact .inr ⟨rfl, nofun⟩
  | cons q rest =>
    by_cases h : p.same q
    · exact .inl ⟨q, rest, rfl, h, if_pos h⟩
    · refine .inr ⟨if_neg h, ?_⟩
      rintro _ _ ⟨⟩
      exact h

private theorem mem_of_mem_dropRepeated {paths : List Path} {p : Path} (h : p ∈ dropRepeated paths) : p ∈ paths := by
  induction paths with
  | nil => exact h
  | cons first paths ih =>
    rcases dropRepeated_cons first paths with ⟨q, rest, e, -, kept⟩ | ⟨kept, -⟩
    · rw [kept, List.mem_cons] at h
      rw [e] at ih
      exact List.mem_cons.2 (h.imp id fun mem => ih (List.mem_cons_of_mem q mem))
    · rw [kept, List.mem_cons] at h
      exact List.mem_cons.2 (h.imp id ih)

private theorem exists_same_dropRepeated {paths : List Path} {p : Path} (h : p ∈ paths) :
    ∃ q ∈ dropRepeated paths, q.same p := by
  induction paths with
  | nil => cases h
  | cons first paths ih =>
    rcases dropRepeated_cons first paths with ⟨q, rest, e, spelt, kept⟩ | ⟨kept, -⟩
    · rw [kept]
      rcases List.mem_cons.1 h with rfl | h
      · exact ⟨p, List.mem_cons_self, same_iff.2 rfl⟩
      · obtain ⟨r, mem, hr⟩ := ih h
        rw [e] at mem
        rcases List.mem_cons.1 mem with rfl | mem
        · exact ⟨first, List.mem_cons_self, same_iff.2 ((same_iff.1 spelt).trans (same_iff.1 hr))⟩
        · exact ⟨r, List.mem_cons_of_mem first mem, hr⟩
    · rw [kept]
      rcases List.mem_cons.1 h with rfl | h
      · exact ⟨p, List.mem_cons_self, same_iff.2 rfl⟩
      · obtain ⟨r, mem, hr⟩ := ih h
        exact ⟨r, List.mem_cons_of_mem first mem, hr⟩

private theorem increasing_dropRepeated {paths : List Path} (h : paths.Pairwise fun p q => (p.compare q).isLE) :
    Increasing (dropRepeated paths) := by
  induction paths with
  | nil => exact .nil
  | cons p paths ih =>
    obtain ⟨first, others⟩ := List.pairwise_cons.1 h
    have ascending := ih others
    rcases dropRepeated_cons p paths with ⟨q, rest, e, spelt, kept⟩ | ⟨kept, different⟩
    · -- `p` takes the place of `q`, which stood in front of the others
      rw [e] at ascending
      obtain ⟨front, behind⟩ := List.pairwise_cons.1 ascending
      rw [kept]
      refine List.pairwise_cons.2 ⟨fun r mem => ?_, behind⟩
      rw [Path.compare, same_iff.1 spelt]
      exact front r mem
    · rw [kept]
      refine List.pairwise_cons.2 ⟨?_, ascending⟩
      cases e : dropRepeated paths with
      | nil => exact nofun
      | cons q rest =>
        have le : (p.compare q).isLE := first q (mem_of_mem_dropRepeated (e ▸ List.mem_cons_self))
        have lt : p.compare q = .lt := by
          cases c : p.compare q with
          | lt => rfl
          | eq => exact absurd (compare_eq_iff.1 c) (different q rest e)
          | gt => rw [c] at le; cases le
        rw [e] at ascending
        intro r mem
        rcases List.mem_cons.1 mem with rfl | mem
        · exact lt
        · exact Std.TransCmp.lt_trans lt ((List.pairwise_cons.1 ascending).1 r mem)

/-- The paths of a sorted list are spellings of the paths that were to be sorted. -/
theorem exists_same_sortDistinct (paths : List Path) (p : Path) :
    (∃ q ∈ sortDistinct paths, q.same p) ↔ ∃ q ∈ paths, q.same p := by
  constructor
  · intro hx
    obtain ⟨q, mem, h⟩ := hx
    exact ⟨q, mem_sort.1 (mem_of_mem_dropRepeated mem), h⟩
  · intro hx
    obtain ⟨q, mem, h⟩ := hx
    obtain ⟨r, kept, hr⟩ := exists_same_dropRepeated (mem_sort.2 mem)
    exact ⟨r, kept, same_iff.2 ((same_iff.1 hr).trans (same_iff.1 h))⟩

theorem increasing_sortDistinct (paths : List Path) : Increasing (sortDistinct paths) :=
  increasing_dropRepeated (pairwise_sort paths)

/-- Different places of an ascending list hold different paths. -/
theorem Increasing.not_same {paths : List Path} (h : Increasing paths) : paths.Pairwise fun p q => ¬ p.same q := by
  refine List.Pairwise.imp (fun {p q} lt spelt => ?_) h
  rw [← compare_eq_iff, lt] at spelt
  cases spelt

/-- Ascending lists of the same paths are one list, up to spelling. -/
theorem components_eq_of_increasing {paths paths' : List Path} (h : Increasing paths) (h' : Increasing paths')
    (same : ∀ p : Path, (∃ q ∈ paths, q.same p) ↔ ∃ q ∈ paths', q.same p) :
    paths.map components = paths'.map components := by
  have ascending {l : List Path} (h : Increasing l) :
      (l.map components).Pairwise fun a b => Ord.compare a b = .lt :=
    List.pairwise_map.2 h
  have distinct {l : List Path} (h : Increasing l) : (l.map components).Nodup :=
    List.pairwise_map.2 (h.not_same.imp fun {p q} ne e => ne (same_iff.2 e))
  apply List.Perm.eq_of_pairwise _ (ascending h) (ascending h')
  · rw [List.perm_ext_iff_of_nodup (distinct h) (distinct h')]
    have goesOver {l l' : List Path} (onto : ∀ p : Path, (∃ q ∈ l, q.same p) → ∃ q ∈ l', q.same p) {a : List Component}
        (mem : a ∈ l.map components) : a ∈ l'.map components := by
      obtain ⟨p, onList, rfl⟩ := List.mem_map.1 mem
      obtain ⟨q, onOther, e⟩ := onto p ⟨p, onList, same_iff.2 rfl⟩
      exact List.mem_map.2 ⟨q, onOther, same_iff.1 e⟩
    exact fun a => ⟨goesOver fun p => (same p).1, goesOver fun p => (same p).2⟩
  · intro a b _ _ lt lt'
    exact absurd lt' (Std.OrientedCmp.not_lt_of_lt lt)

end Path

end ClassCensus
