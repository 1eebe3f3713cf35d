import ClassCensus.Proofs.TypeText.ListedClasses

/-!
# Class signatures with type parameters

In the class file format any type parameter may be without bounds, and identifiers do not have the characters that mean
something in signatures (`endsIdentifier`).  Here one character decides whether a class bound stands behind the colon of
a name, and a letter is taken for its beginning, also where it begins the next name.

* (read as written) a class signature is read as it is written exactly if all its type parameters but the last have a
  bound (`signatureClasses_classSignature`);
* (refused) behind the first type parameter without bounds, a name that starts like no type makes the text illegible
  (`classSignature_refused`).
-/

namespace ClassCensus

/-- The characters that the identifiers of the class file format do not have. -/
def endsIdentifier (c : Char) : Bool :=
  c ∈ ['.', ';', '[', '/', '<', '>', ':']

/-- The type parameter is one of the class file format, and its bounds keep the limits. -/
structure TypeParameter.Grammatical (p : TypeParameter) : Prop where
  name : IsIdentifier endsIdentifier p.name
  bounds : ∀ type ∈ p.bounds, type.Legal maxArgumentDepth

/-- The signature of a class: its type parameters, then its superclass and its interfaces. -/
def classSignature (ps : List TypeParameter) (types : List TypeSignature) : Signature :=
  ⟨some ps, .types types⟩

namespace TypeParameter.Grammatical

variable {p : TypeParameter}

theorem legal (h : p.Grammatical) : p.Legal where
  name := by
    refine ⟨h.name.ne_empty, fun c mem => ?_⟩
    have other := h.name.noStop c mem
    rw [decide_eq_false_iff_not]
    rintro rfl
    exact absurd other (by decide)
  bounds := h.bounds

theorem head?_name_ne (h : p.Grammatical) : p.name.toList.head? ≠ some '>' := by
  intro starts
  exact absurd (h.name.noStop '>' (List.mem_of_head? starts)) (by decide)

end TypeParameter.Grammatical

theorem classSignature_legal_iff {ps : List TypeParameter} {types : List TypeSignature}
    (grammatical : ∀ p ∈ ps, p.Grammatical) (legal : ∀ type ∈ types, type.Legal maxArgumentDepth) :
    (classSignature ps types).Legal ↔ ∀ p ∈ ps.dropLast, p.bounds ≠ [] := by
  have each : ∀ p ∈ ps, p.name.toList.head? ≠ some '>' ∧ p.Legal :=
    fun p mem => ⟨(grammatical p mem).head?_name_ne, (grammatical p mem).legal⟩
  constructor
  · intro h
    exact (legalParameters_iff.1 (h.typeParameters ps rfl)).2
  · intro bounded
    exact ⟨fun _ e => Option.some.inj e ▸ legalParameters_iff.2 ⟨each, bounded⟩, legal⟩

/-- A class signature is read as it is written exactly if all type parameters but the last have a bound; then the
classes of all bounds are listed, and those of the superclass and the interfaces behind them. -/
theorem signatureClasses_classSignature {ps : List TypeParameter} {types : List TypeSignature}
    (grammatical : ∀ p ∈ ps, p.Grammatical) (legal : ∀ type ∈ types, type.Legal maxArgumentDepth) :
    (Signature.parse (String.ofList (classSignature ps types).spell) = .ok (classSignature ps types) ↔
      ∀ p ∈ ps.dropLast, p.bounds ≠ []) ∧
    ((∀ p ∈ ps.dropLast, p.bounds ≠ []) →
      signatureClasses (String.ofList (classSignature ps types).spell) =
        .ok ((ps.flatMap TypeParameter.bounds ++ types).flatMap TypeSignature.classes)) := by
  have read : Signature.parse (String.ofList (classSignature ps types).spell) = .ok (classSignature ps types) ↔
      ∀ p ∈ ps.dropLast, p.bounds ≠ [] := by
    rw [Signature.parse_eq_ok_iff, String.toList_ofList, and_iff_right rfl, classSignature_legal_iff grammatical legal]
  refine ⟨read, fun bounded => ?_⟩
  rw [signatureClasses, read.2 bounded]
  exact congrArg Except.ok (Signature.classNames_eq _)

/-- A class in a signature, without type arguments. -/
def plainClass (name : String) : TypeSignature :=
  ⟨0, .classType (.plain name) []⟩

theorem plainClass_legal {name : String} (h : IsIdentifier endsSegment name) (levels : Nat) :
    (plainClass name).Legal levels :=
  ⟨Nat.zero_le _, h, trivial⟩

/-- Type parameters of which only the last is without bounds. -/
def lastUnbounded : List TypeParameter :=
  [⟨"K", some (plainClass "java/lang/Object"), []⟩, ⟨"V", none, [plainClass "com/example/Marker"]⟩, ⟨"E", none, []⟩]

/-- The classes of the class bound, of the interface bound and of the superclass. -/
theorem signatureClasses_lastUnbounded :
    String.ofList (classSignature lastUnbounded [plainClass "com/example/Base"]).spell =
        "<K:Ljava/lang/Object;V::Lcom/example/Marker;E:>Lcom/example/Base;" ∧
      signatureClasses "<K:Ljava/lang/Object;V::Lcom/example/Marker;E:>Lcom/example/Base;" =
        .ok ["java/lang/Object", "com/example/Marker", "com/example/Base"] := by
  have grammatical : ∀ p ∈ lastUnbounded, p.Grammatical := by
    simp only [lastUnbounded, List.forall_mem_cons]
    refine ⟨⟨by decide +kernel, ?_⟩, ⟨by decide +kernel, ?_⟩, ⟨by decide +kernel, nofun⟩, nofun⟩
    · exact List.forall_mem_singleton.2 (plainClass_legal (by decide +kernel) _)
    · exact List.forall_mem_singleton.2 (plainClass_legal (by decide +kernel) _)
  have legal : ∀ type ∈ [plainClass "com/example/Base"], type.Legal maxArgumentDepth :=
    List.forall_mem_singleton.2 (plainClass_legal (by decide +kernel) _)
  have written : String.ofList (classSignature lastUnbounded [plainClass "com/example/Base"]).spell =
      "<K:Ljava/lang/Object;V::Lcom/example/Marker;E:>Lcom/example/Base;" := by decide +kernel
  have listed := (signatureClasses_classSignature grammatical legal).2 (by simp [lastUnbounded, TypeParameter.bounds])
  rw [written] at listed
  refine ⟨written, listed.trans ?_⟩
  decide +kernel

/-- Two type parameters, the first without bounds. -/
def firstUnbounded (first second bound : String) : List TypeParameter :=
  [⟨first, none, []⟩, ⟨second, some (plainClass bound), []⟩]

private theorem firstUnbounded_grammatical {first second bound : String} (h : IsIdentifier endsIdentifier first)
    (h' : IsIdentifier endsIdentifier second) (named : IsIdentifier endsSegment bound) :
    ∀ p ∈ firstUnbounded first second bound, p.Grammatical := by
  simp only [firstUnbounded, List.forall_mem_cons]
  exact ⟨⟨h, nofun⟩, ⟨h', List.forall_mem_singleton.2 (plainClass_legal named _)⟩, nofun⟩

/-- The second name is read as a bound of the first type parameter: the text is refused, or the name swallows the bound
behind it. -/
theorem signatureClasses_firstUnbounded :
    ((∀ p ∈ firstUnbounded "T" "U" "java/lang/Object", p.Grammatical) ∧
      String.ofList (classSignature (firstUnbounded "T" "U" "java/lang/Object") [plainClass "java/lang/Object"]).spell =
        "<T:U:Ljava/lang/Object;>Ljava/lang/Object;" ∧
      signatureClasses "<T:U:Ljava/lang/Object;>Ljava/lang/Object;" =
        .error (.typeText .invalidTypeSignature 3 "<T:U:Ljava/lang/Object;>Ljava/lang/Object;")) ∧
    (∀ p ∈ firstUnbounded "A" "TB" "com/example/Y", p.Grammatical) ∧
      String.ofList (classSignature (firstUnbounded "A" "TB" "com/example/Y") [plainClass "java/lang/Object"]).spell =
        "<A:TB:Lcom/example/Y;>Ljava/lang/Object;" ∧
      signatureClasses "<A:TB:Lcom/example/Y;>Ljava/lang/Object;" = .ok ["java/lang/Object"] := by
  refine ⟨⟨?_, by decide +kernel, rfl⟩, ?_, by decide +kernel, rfl⟩
  · exact firstUnbounded_grammatical (by decide +kernel) (by decide +kernel) (by decide +kernel)
  · exact firstUnbounded_grammatical (by decide +kernel) (by decide +kernel) (by decide +kernel)

/-! ### Refused signatures -/

private theorem Signature.spell_some (ps : List TypeParameter) (body : SignatureBody) :
    (Signature.mk (some ps) body).spell = '<' :: (ps.flatMap TypeParameter.spell ++ '>' :: body.spell) := by
  simp [Signature.spell, Signature.spellParameters]

private theorem TypeParameter.spellBounds_eq_nil {p : TypeParameter} (unbounded : p.bounds = []) :
    p.spellBounds = [] := by
  obtain ⟨name, _ | type, types⟩ := p
  · obtain rfl : types = [] := unbounded
    rfl
  · cases unbounded

/-- No list of type parameters starts with the bracket that closes it. -/
private theorem TypeParameter.Grammatical.closes_ne {p : TypeParameter} (h : p.Grammatical)
    (ps : List TypeParameter) (rest rest' : List Char) :
    '>' :: rest ≠ (p :: ps).flatMap TypeParameter.spell ++ rest' := by
  obtain ⟨c, ahead, first, -⟩ := h.legal.head? (ps.flatMap TypeParameter.spell ++ rest')
  rw [List.flatMap_cons, List.append_assoc]
  intro same
  rw [← same] at ahead
  exact h.head?_name_ne (first.trans ahead.symm)

section

variable {before after : List TypeParameter} {p q : TypeParameter}

/-- Bounds are expected behind a name without bounds, so no legal type parameters `rs` are spelled the same. -/
private theorem spell_ne_of_unbounded (grammatical : ∀ r ∈ before ++ p :: q :: after, r.Grammatical)
    (bounded : ∀ r ∈ before, r.bounds ≠ []) (unbounded : p.bounds = [])
    (unlike : ∀ type : TypeSignature, type.spell.head? ≠ q.name.toList.head?)
    {rs : List TypeParameter} (legal : legalParameters rs) (rest rest' : List Char) :
    rs.flatMap TypeParameter.spell ++ '>' :: rest ≠
      (before ++ p :: q :: after).flatMap TypeParameter.spell ++ '>' :: rest' := by
  induction before generalizing rs with
  | nil =>
    cases rs with
    | nil => exact (grammatical p List.mem_cons_self).closes_ne _ _ _
    | cons r rs =>
      intro same
      obtain ⟨⟨-, legal, last⟩, others⟩ := legal
      have first := grammatical p List.mem_cons_self
      have second := grammatical q (List.mem_cons_of_mem _ List.mem_cons_self)
      obtain ⟨c, ahead, name, notColon⟩ := second.legal.head? (after.flatMap TypeParameter.spell ++ '>' :: rest')
      have behind : r.spellBounds ++ (rs.flatMap TypeParameter.spell ++ '>' :: rest) =
          q.spell ++ (after.flatMap TypeParameter.spell ++ '>' :: rest') := by
        obtain ⟨-, behind⟩ := TypeParser.Reads.unique (fun _ => TypeParser.reads_identifier (· = ':'))
          ⟨rfl, legal.name, ':', rfl, rfl⟩ ⟨rfl, first.legal.name, ':', rfl, rfl⟩
          (by simpa [TypeParameter.spell, TypeParameter.spellBounds_eq_nil unbounded] using same)
        rw [TypeParameter.spell, List.append_assoc]
        exact (List.cons.inj behind).2
      rw [← behind] at ahead
      -- what stands behind the colon would start with the name of `q`
      obtain ⟨_, _ | type, types⟩ := r
      · cases types with
        | nil =>
          obtain rfl := last rfl
          exact second.head?_name_ne (name.trans ahead.symm)
        | cons type types => exact notColon (Option.some.inj ahead).symm
      · refine unlike type (Eq.trans ?_ (ahead.trans name.symm))
        simp [TypeParameter.spellBounds, List.head?_append_of_ne_nil _ type.spell_ne_nil]
  | cons b before ih =>
    cases rs with
    | nil => exact (grammatical b List.mem_cons_self).closes_ne _ _ _
    | cons r rs =>
      intro same
      obtain ⟨⟨-, legal, last⟩, others⟩ := legal
      obtain ⟨first, each⟩ := List.forall_mem_cons.1 grammatical
      obtain ⟨has, bounded⟩ := List.forall_mem_cons.1 bounded
      rw [List.cons_append, List.flatMap_cons, List.flatMap_cons, List.append_assoc, List.append_assoc] at same
      obtain ⟨-, behind⟩ := TypeParser.Reads.unique (fun _ => TypeParser.reads_typeParameter)
        ⟨rfl, legal, head?_spellParameters_ne (legalParameters_forall others) (by simp),
          fun none => by rw [last none]; rfl⟩
        ⟨rfl, first.legal, head?_spellParameters_ne (fun q mem => (each q mem).legal) (by simp),
          fun none => absurd none has⟩ same
      exact ih each bounded others behind

/-- Behind the first type parameter without bounds, a name that starts like no type makes the text illegible. -/
theorem classSignature_refused (grammatical : ∀ r ∈ before ++ p :: q :: after, r.Grammatical)
    (bounded : ∀ r ∈ before, r.bounds ≠ []) (unbounded : p.bounds = [])
    (unlike : ∀ type : TypeSignature, type.spell.head? ≠ q.name.toList.head?) (types : List TypeSignature)
    {text : String} (written : (classSignature (before ++ p :: q :: after) types).spell = text.toList) :
    ∃ fault position, signatureClasses text = .error (.typeText fault position text) := by
  rw [signatureClasses_eq_error_iff]
  rintro ⟨⟨ps?, body⟩, legal, same⟩
  rw [← written] at same
  cases ps? with
  | none =>
    have ends : TypeParser.EndsBody [] body := by cases body <;> simp [TypeParser.EndsBody]
    have starts := TypeParser.head?_spellBody_ne ends
    rw [List.append_nil] at starts
    exact starts (congrArg List.head? same)
  | some rs =>
    rw [classSignature, Signature.spell_some, Signature.spell_some] at same
    exact spell_ne_of_unbounded grammatical bounded unbounded unlike (legal.typeParameters rs rfl) _ _
      (List.cons.inj same).2

end

end ClassCensus
