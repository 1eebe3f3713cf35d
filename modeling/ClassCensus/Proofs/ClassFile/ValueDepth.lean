import ClassCensus.Proofs.ClassFile.Settling
import ClassCensus.Proofs.ClassFile.WrittenAnnotation

/-!
# How deep annotations and element values are nested

The nodes of an annotation are the annotations and the element values in it.  What is inside of a node is one deeper
than the node: the values in an annotation or in an array, and the annotation in a value.

* (depths) `depths d` lists the depths of the nodes, if the outermost one is at depth `d`; what is read has the nodes
  that are written (`WrittenElement.depths_view`);
* (limits) the levels that reading allows are a bound for the depths, and `WellFormed` holds everything else that
  reading asks for (`WrittenUse.fits_iff`), so with a given number of levels a well-formed annotation is accepted exactly if no
  node is too deep (`WrittenUse.acceptsIff`).
-/

namespace ClassCensus

/-- The depths of an element value at depth `d` and of the nodes in it. -/
def ElementValue.depths (d : Nat) : ElementValue → List Nat
  | .const | .enum _ | .classInfo _ => [d]
  | .nested _ elements => d :: (d + 1) :: elements.flatMap (ElementValue.depths (d + 2))
  | .array values => d :: values.flatMap (ElementValue.depths (d + 1))

/-- The depths of an annotation at depth `d` and of the nodes in it. -/
def AnnotationUse.depths (d : Nat) (use : AnnotationUse) : List Nat :=
  d :: use.elements.flatMap (ElementValue.depths (d + 1))

mutual

/-- The depths of an element value at depth `d` and of the nodes in it. -/
def WrittenElement.depths (d : Nat) : WrittenElement → List Nat
  | .const _ _ | .enum _ _ | .classInfo _ => [d]
  | .nested use => d :: use.depths (d + 1)
  | .array values => d :: values.flatMap (WrittenElement.depths (d + 1))

/-- The depths of an annotation at depth `d` and of the nodes in it. -/
def WrittenUse.depths (d : Nat) : WrittenUse → List Nat
  | ⟨_, pairs⟩ => d :: pairs.flatMap (WrittenPair.depths (d + 1))

/-- The depths of the nodes in an element whose value is at depth `d`. -/
def WrittenPair.depths (d : Nat) : WrittenPair → List Nat
  | ⟨_, value⟩ => value.depths d

end

mutual

/-- The tags are known and the tables can be counted, however deep the element value is nested. -/
def WrittenElement.WellFormed : WrittenElement → Prop
  | .const tag _ => tag ∈ WrittenElement.constTags
  | .enum _ _ | .classInfo _ => True
  | .nested use => use.WellFormed
  | .array values => values.length < 65536 ∧ ∀ value ∈ values, value.WellFormed

/-- The tags are known and the tables can be counted, however deep the annotation is nested. -/
def WrittenUse.WellFormed : WrittenUse → Prop
  | ⟨_, pairs⟩ => pairs.length < 65536 ∧ ∀ pair ∈ pairs, pair.WellFormed

def WrittenPair.WellFormed : WrittenPair → Prop
  | ⟨_, value⟩ => value.WellFormed

end

/-! ### Parts -/

theorem WrittenPair.depths_eq (d : Nat) (pair : WrittenPair) : pair.depths d = pair.value.depths d := by
  cases pair
  rw [WrittenPair.depths]

theorem WrittenUse.depths_eq (d : Nat) (use : WrittenUse) :
    use.depths d = d :: use.pairs.flatMap (WrittenPair.depths (d + 1)) := by
  cases use
  rw [WrittenUse.depths]

theorem WrittenPair.wellFormed_iff {pair : WrittenPair} : pair.WellFormed ↔ pair.value.WellFormed := by
  cases pair
  rw [WrittenPair.WellFormed]

theorem WrittenUse.wellFormed_iff {use : WrittenUse} :
    use.WellFormed ↔ use.pairs.length < 65536 ∧ ∀ pair ∈ use.pairs, pair.WellFormed := by
  cases use
  rw [WrittenUse.WellFormed]

/-! ### Nothing is dropped -/

mutual

/-- An element value that is read has the nodes that are written. -/
theorem WrittenElement.depths_view (d : Nat) (element : WrittenElement) : element.view.depths d = element.depths d := by
  cases element with
  | const | enum | classInfo => simp only [WrittenElement.view, ElementValue.depths, WrittenElement.depths]
  | nested use =>
    obtain ⟨type, pairs⟩ := use
    simp only [WrittenElement.view, ElementValue.depths, WrittenElement.depths, WrittenUse.depths, List.flatMap_map]
    exact congrArg (d :: (d + 1) :: ·) (List.flatMap_congr fun pair _ => pair.depths_view (d + 2))
  | array values =>
    simp only [WrittenElement.view, ElementValue.depths, WrittenElement.depths, List.flatMap_map]
    exact congrArg (d :: ·) (List.flatMap_congr fun value _ => value.depths_view (d + 1))

theorem WrittenPair.depths_view (d : Nat) (pair : WrittenPair) : pair.view.depths d = pair.depths d := by
  obtain ⟨name, value⟩ := pair
  rw [WrittenPair.view, WrittenPair.depths, value.depths_view d]

end

/-- An annotation that is read has the nodes that are written. -/
theorem WrittenUse.depths_view (d : Nat) (use : WrittenUse) : use.view.depths d = use.depths d := by
  rw [WrittenUse.depths_eq, AnnotationUse.depths, WrittenUse.view, List.flatMap_map]
  exact congrArg (d :: ·) (List.flatMap_congr fun pair _ => pair.depths_view (d + 1))

/-! ### Levels -/

private theorem fits_levels (levels : Nat) :
    (∀ d (element : WrittenElement), element.Fits levels ↔
      element.WellFormed ∧ ∀ n ∈ element.depths d, n < d + levels) ∧
    ∀ d (use : WrittenUse), use.Fits levels ↔ use.WellFormed ∧ ∀ n ∈ use.depths d, n < d + levels := by
  induction levels with
  | zero =>
    constructor
    · intro d element
      cases element <;> simp [WrittenElement.Fits, WrittenElement.depths]
    · intro d use
      simp [WrittenUse.Fits, WrittenUse.depths_eq]
  | succ levels ih =>
    have outer (d : Nat) : d < d + (levels + 1) := by omega
    have inner (d : Nat) : d + 1 + levels = d + (levels + 1) := by omega
    constructor
    · intro d element
      cases element with
      | const | enum | classInfo => simp [WrittenElement.Fits, WrittenElement.WellFormed, WrittenElement.depths]
      | nested use =>
        simp only [WrittenElement.Fits, WrittenElement.WellFormed, WrittenElement.depths, List.forall_mem_cons, outer,
          true_and, ih.2 (d + 1), inner]
      | array values =>
        simp only [WrittenElement.Fits, WrittenElement.WellFormed, WrittenElement.depths, List.forall_mem_cons, outer,
          true_and, List.forall_mem_flatMap, ih.1 (d + 1), inner, forall₂_and, and_assoc]
    · intro d use
      simp only [WrittenUse.Fits, WrittenUse.wellFormed_iff, WrittenUse.depths_eq, WrittenPair.wellFormed_iff,
        WrittenPair.depths_eq, List.forall_mem_cons, outer, true_and, List.forall_mem_flatMap, ih.1 (d + 1), inner,
        forall₂_and, and_assoc]

/-- The levels of an element value are enough exactly if no node in it is too deep. -/
theorem WrittenElement.fits_iff (levels d : Nat) (element : WrittenElement) :
    element.Fits levels ↔ element.WellFormed ∧ ∀ n ∈ element.depths d, n < d + levels :=
  (fits_levels levels).1 d element

/-- The levels of an annotation are enough exactly if no node in it is too deep. -/
theorem WrittenUse.fits_iff (levels d : Nat) (use : WrittenUse) :
    use.Fits levels ↔ use.WellFormed ∧ ∀ n ∈ use.depths d, n < d + levels :=
  (fits_levels levels).2 d use

/-- Numbers have a bound that is not under a given one. -/
private theorem exists_bound (ns : List Nat) (least : Nat) : ∃ bound, least ≤ bound ∧ ∀ n ∈ ns, n < bound := by
  induction ns with
  | nil => exact ⟨least, Nat.le_refl _, by simp⟩
  | cons n ns ih =>
    obtain ⟨bound, le, all⟩ := ih
    refine ⟨bound + n + 1, by omega, List.forall_mem_cons.2 ⟨by omega, fun m mem => ?_⟩⟩
    have := all m mem
    omega

open Decoder

/-- If levels are a bound for depths that can be told from what is read, a well-formed form is accepted exactly if the
levels are enough for it. -/
private theorem acceptsIff_levels {R α : Type} {decoder : Nat → Decoder α} {Fits : Nat → R → Prop}
    {encode : R → List UInt8} {view : R → α} {WellFormed : R → Prop} (depths : α → List Nat)
    (reads : ∀ levels, (decoder levels).Reads (Format.mk (Fits levels) encode view).Spells)
    (limits : ∀ levels r, Fits levels r ↔ WellFormed r ∧ ∀ n ∈ depths (view r), n < levels) (levels : Nat) {r : R}
    (h : WellFormed r) : (decoder levels).AcceptsIff (encode r) (Fits levels r) (view r) := by
  obtain ⟨more, le, all⟩ := exists_bound (depths (view r)) levels
  have deep : (Format.mk (Fits more) encode view).Spells (encode r) (view r) :=
    ⟨r, (limits more r).2 ⟨h, all⟩, rfl, rfl⟩
  refine ((reads levels).acceptsIff_of_le (reads more) ?_ deep).congr ?_
  · intro bytes a spelt
    obtain ⟨r', fits, encoded, viewed⟩ := spelt
    obtain ⟨h', shallow⟩ := (limits levels r').1 fits
    exact ⟨r', (limits more r').2 ⟨h', fun n mem => (shallow n mem).trans_le le⟩, encoded, viewed⟩
  · constructor
    · intro spelt
      obtain ⟨r', fits, -, same⟩ := spelt
      have shallow := ((limits levels r').1 fits).2
      rw [show view r' = view r from same] at shallow
      exact (limits levels r).2 ⟨h, shallow⟩
    · exact fun fits => ⟨r, fits, rfl, rfl⟩

/-- A well-formed element value is accepted exactly if the levels are enough for it. -/
theorem WrittenElement.acceptsIff (levels : Nat) {element : WrittenElement} (h : element.WellFormed) :
    (ElementValue.decoder levels).AcceptsIff ((WrittenElement.format levels).encode element) (element.Fits levels)
      element.view := by
  refine acceptsIff_levels (ElementValue.depths 0) reads_element (fun levels element => ?_) levels h
  rw [WrittenElement.fits_iff levels 0, WrittenElement.depths_view, Nat.zero_add]

/-- A well-formed annotation is accepted exactly if the levels are enough for it. -/
theorem WrittenUse.acceptsIff (levels : Nat) {use : WrittenUse} (h : use.WellFormed) :
    (AnnotationUse.decoder levels).AcceptsIff use.encode (use.Fits levels) use.view := by
  refine acceptsIff_levels (AnnotationUse.depths 0) reads_use (fun levels use => ?_) levels h
  rw [WrittenUse.fits_iff levels 0, WrittenUse.depths_view, Nat.zero_add]

end ClassCensus
