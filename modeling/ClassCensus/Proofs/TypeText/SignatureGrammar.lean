import ClassCensus.Proofs.TypeText.GenericTypeGrammar

/-!
# The grammar of signatures

What signatures look like: `Signature.spell` writes a signature down, and a signature is `Legal` if it can be read back.
A text is a signature exactly if it is the spelling of a legal one (`Signature.parse_eq_ok_iff`).

* (bounds) a type parameter without any bound can only be the last one, since what follows it would be read as its
  bound (`legalParameters`);
* (end) superclasses and interfaces, or the type of a field, reach to the end of the text.
-/

namespace ClassCensus

namespace TypeParser

variable {bound : Nat}

/-- Types up to the end of the text or up to a closing character. -/
private theorem reads_types {more : Option Char → Bool}
    (goes : ∀ (type : TypeSignature) rest, more (type.spell ++ rest).head? = true) :
    Reads bound (repeatWhile bound more (outerType bound)) fun taken rest types =>
      taken = types.flatMap TypeSignature.spell ∧ (∀ type ∈ types, type.Legal maxArgumentDepth) ∧
        more rest.head? = false := by
  refine (reads_outerType.repeatWhile fun _ _ type h => h.1 ▸ type.spell_ne_nil).congr fun taken rest types => ?_
  exact repeated_iff TypeSignature.spell (TypeSignature.Legal maxArgumentDepth) (fun _ => True)
    (fun _ _ _ _ _ => Iff.rfl) (fun type rest _ => goes type rest) (fun _ _ _ => trivial) trivial

/-- Types that each stand behind the character `c`. -/
private theorem reads_behind (c : Char) :
    Reads bound (repeatWhile bound (· = some c) (advance >>= fun _ => outerType bound)) fun taken rest types =>
      taken = types.flatMap (fun type => c :: type.spell) ∧ (∀ type ∈ types, type.Legal maxArgumentDepth) ∧
        rest.head? ≠ some c := by
  refine (reads_outerType.advance.repeatWhile ?_).congr fun taken rest types => ?_
  · rintro taken rest type (⟨c, behind, rfl, -⟩ | ⟨-, e, -⟩)
    · exact List.cons_ne_nil _ _
    · exact absurd e.symm type.spell_ne_nil
  · rw [repeated_iff (fun type => c :: TypeSignature.spell type) (TypeSignature.Legal maxArgumentDepth) (fun _ => True)
      (fun taken rest type _ goes => ?_) (fun _ _ _ => by simp) (fun _ _ _ => trivial) trivial]
    · simp
    · rw [advance_iff (by simpa using goes)]
      constructor
      · rintro ⟨_, rfl, rfl, legal⟩
        exact ⟨rfl, legal⟩
      · rintro ⟨rfl, legal⟩
        exact ⟨_, rfl, rfl, legal⟩

end TypeParser

/-! ### Type parameters -/

/-- The characters of the bounds of a type parameter. -/
def TypeParameter.spellBounds (p : TypeParameter) : List Char :=
  p.classBound?.toList.flatMap TypeSignature.spell ++ p.interfaceBounds.flatMap fun type => ':' :: type.spell

/-- The characters of a type parameter. -/
def TypeParameter.spell (p : TypeParameter) : List Char :=
  p.name.toList ++ ':' :: p.spellBounds

/-- The type parameter keeps the limits of the format. -/
structure TypeParameter.Legal (p : TypeParameter) : Prop where
  name : IsIdentifier (· = ':') p.name
  bounds : ∀ type ∈ p.bounds, type.Legal maxArgumentDepth

/-- A type parameter starts with its name. -/
theorem TypeParameter.Legal.head? {p : TypeParameter} (h : p.Legal) (rest : List Char) :
    ∃ c, (p.spell ++ rest).head? = some c ∧ p.name.toList.head? = some c ∧ c ≠ ':' := by
  cases e : p.name.toList with
  | nil => exact absurd (String.toList_eq_nil_iff.1 e) h.name.ne_empty
  | cons c behind =>
    refine ⟨c, by rw [TypeParameter.spell, e]; rfl, rfl, ?_⟩
    simpa using h.name.noStop c (e ▸ List.mem_cons_self)

/-- The type parameters keep the limits of the format. -/
def legalParameters : List TypeParameter → Prop
  | [] => True
  | p :: ps => (p.name.toList.head? ≠ some '>' ∧ p.Legal ∧ (p.bounds = [] → ps = [])) ∧ legalParameters ps

/-- All type parameters but the last have a bound. -/
theorem legalParameters_iff {ps : List TypeParameter} :
    legalParameters ps ↔
      (∀ p ∈ ps, p.name.toList.head? ≠ some '>' ∧ p.Legal) ∧ ∀ p ∈ ps.dropLast, p.bounds ≠ [] := by
  induction ps with
  | nil => simp [legalParameters]
  | cons p ps ih =>
    rw [legalParameters, ih]
    cases ps with
    | nil => simp
    | cons q qs =>
      have last : (p.bounds = [] → q :: qs = []) ↔ p.bounds ≠ [] := by simp
      simp only [last, List.dropLast_cons_cons, List.forall_mem_cons]
      tauto

theorem legalParameters_forall {ps : List TypeParameter} (h : legalParameters ps) : ∀ p ∈ ps, p.Legal :=
  fun p mem => ((legalParameters_iff.1 h).1 p mem).2

/-- No type parameter starts with a colon. -/
theorem head?_spellParameters_ne {ps : List TypeParameter} (legal : ∀ p ∈ ps, p.Legal) {rest : List Char}
    (behind : rest.head? ≠ some ':') : (ps.flatMap TypeParameter.spell ++ rest).head? ≠ some ':' := by
  cases ps with
  | nil => exact behind
  | cons p ps =>
    obtain ⟨c, ahead, -, other⟩ :=
      (legal p List.mem_cons_self).head? (ps.flatMap TypeParameter.spell ++ rest)
    rw [List.flatMap_cons, List.append_assoc, ahead]
    simpa using other

namespace TypeParser

variable {bound : Nat}

/-- The bounds of a type parameter. -/
private theorem reads_bounds (name : String) :
    Reads bound
      (do
        let next ← peek
        let classBound? ← if next = some ':' ∨ next = some '>' then pure none else some <$> outerType bound
        let interfaceBounds ← repeatWhile bound (· = some ':') do
          advance
          outerType bound
        return TypeParameter.mk name classBound? interfaceBounds) fun taken rest p =>
      taken = p.spellBounds ∧ p.name = name ∧ (∀ type ∈ p.bounds, type.Legal maxArgumentDepth) ∧
        rest.head? ≠ some ':' ∧ (p.bounds = [] → rest.head? = some '>') := by
  have interfaces (classBound? : Option TypeSignature) :=
    (@reads_behind bound ':').map (TypeParameter.mk name classBound?)
  refine Reads.choose fun next => ?_
  by_cases e : next = some ':' ∨ next = some '>'
  · rw [if_pos e, pure_bind]
    refine ⟨_, interfaces none, fun taken rest p ahead => ?_⟩
    constructor
    · rintro ⟨types, ⟨rfl, legal, stops⟩, rfl⟩
      refine ⟨rfl, rfl, legal, stops, fun (none : types = []) => ?_⟩
      subst none
      rcases e with e | e
      · exact absurd (ahead.trans e) stops
      · exact ahead.trans e
    · rintro ⟨rfl, rfl, legal, stops, -⟩
      obtain ⟨name, _ | type, types⟩ := p
      · exact ⟨types, ⟨rfl, legal, stops⟩, rfl⟩
      · -- a class bound starts with neither of the two characters
        have start : (type.spell ++ (types.flatMap (fun type => ':' :: type.spell) ++ rest)).head? = next := by
          simpa [TypeParameter.spellBounds] using ahead
        rcases e with e | e
        · exact absurd (start.trans e) (type.head?_spell_append_ne _ (by decide))
        · exact absurd (start.trans e) (type.head?_spell_append_ne _ (by decide))
  · rw [if_neg e]
    have bounds := ((@reads_outerType bound).map some).bind interfaces
    refine ⟨_, bounds, fun taken rest p ahead => ?_⟩
    constructor
    · rintro ⟨_, _, _, rfl, ⟨type, ⟨rfl, legal⟩, rfl⟩, types, ⟨rfl, others, stops⟩, rfl⟩
      refine ⟨by simp [TypeParameter.spellBounds], rfl, ?_, stops, nofun⟩
      exact List.forall_mem_cons.2 ⟨legal, others⟩
    · rintro ⟨rfl, rfl, legal, stops, closes⟩
      obtain ⟨name, _ | type, types⟩ := p
      · refine absurd ?_ e
        cases types with
        | nil => exact .inr (ahead ▸ closes rfl)
        | cons type types => exact .inl ahead.symm
      · obtain ⟨first, others⟩ := List.forall_mem_cons.1 legal
        exact ⟨some type, type.spell, types.flatMap fun type => ':' :: type.spell, by simp [TypeParameter.spellBounds],
          ⟨type, ⟨rfl, first⟩, rfl⟩, types, ⟨rfl, others, stops⟩, rfl⟩

theorem reads_typeParameter : Reads bound (typeParameter bound) fun taken rest p =>
    taken = p.spell ∧ p.Legal ∧ rest.head? ≠ some ':' ∧ (p.bounds = [] → rest.head? = some '>') := by
  have named := (@reads_identifier bound (· = ':')).bind fun name => (reads_bounds name).advance
  refine Reads.choose fun next => ?_
  by_cases e : next = none
  · rw [if_pos e]
    refine ⟨_, .throw_bind _ _, fun taken rest p ahead => ?_⟩
    rw [false_iff]
    rintro ⟨rfl, -⟩
    rw [e, List.head?_eq_none_iff] at ahead
    simp [TypeParameter.spell] at ahead
  · rw [if_neg e]
    refine ⟨_, named, fun taken rest p _ => ?_⟩
    constructor
    · rintro ⟨name, _, right, rfl, ⟨rfl, legal, c, ahead, stops⟩, passed⟩
      obtain rfl : c = ':' := by simpa using stops
      obtain ⟨_, rfl, rfl, rfl, bounds, behind⟩ := (advance_iff ahead).1 passed
      exact ⟨rfl, ⟨legal, bounds⟩, behind⟩
    · rintro ⟨rfl, legal, behind⟩
      exact ⟨p.name, p.name.toList, ':' :: p.spellBounds, rfl, ⟨rfl, legal.name, ':', rfl, rfl⟩,
        .inl ⟨':', p.spellBounds, rfl, rfl, rfl, legal.bounds, behind⟩⟩

/-- Type parameters up to the closing bracket. -/
private theorem reads_typeParameterList :
    Reads bound (repeatWhile bound (· ≠ some '>') (typeParameter bound)) fun taken rest ps =>
      taken = ps.flatMap TypeParameter.spell ∧ legalParameters ps ∧ rest.head? = some '>' := by
  have nonempty (p : TypeParameter) : p.spell ≠ [] := by simp [TypeParameter.spell]
  refine (reads_typeParameter.repeatWhile fun _ _ p h => h.1 ▸ nonempty p).congr fun taken rest ps => ?_
  induction ps generalizing taken with
  | nil => simp [Repeated, legalParameters]
  | cons p ps ih =>
    rw [Repeated, legalParameters, List.flatMap_cons]
    constructor
    · rintro ⟨goes, _, right, rfl, ⟨rfl, legal, -, closes⟩, repeated⟩
      obtain ⟨rfl, others, closed⟩ := (ih right).1 repeated
      refine ⟨rfl, ⟨⟨?_, legal, fun none => ?_⟩, others⟩, closed⟩
      · obtain ⟨c, ahead, first, -⟩ := legal.head? (ps.flatMap TypeParameter.spell ++ rest)
        rw [List.append_assoc, ahead] at goes
        rw [first]
        simpa using goes
      · -- the next parameter would start with the closing bracket
        cases ps with
        | nil => rfl
        | cons q qs =>
          obtain ⟨c, ahead, first, -⟩ := others.1.2.1.head? (qs.flatMap TypeParameter.spell ++ rest)
          have closes := closes none
          rw [List.flatMap_cons, List.append_assoc, ahead, ← first] at closes
          exact absurd closes others.1.1
    · rintro ⟨rfl, ⟨⟨opens, legal, last⟩, others⟩, closed⟩
      obtain ⟨c, ahead, first, -⟩ := legal.head? (ps.flatMap TypeParameter.spell ++ rest)
      refine ⟨?_, _, _, rfl, ⟨rfl, legal, ?_, fun none => ?_⟩, (ih _).2 ⟨rfl, others, closed⟩⟩
      · rw [List.append_assoc, ahead, ← first]
        simpa using opens
      · exact head?_spellParameters_ne (legalParameters_forall others) (by simp [closed])
      · rw [last none, List.flatMap_nil, List.nil_append, closed]

end TypeParser

/-! ### Signatures -/

/-- The characters of a signature behind its type parameters. -/
def SignatureBody.spell : SignatureBody → List Char
  | .method parameters result? thrown =>
    '(' :: (parameters.flatMap TypeSignature.spell ++ ')' :: (result?.elim ['V'] TypeSignature.spell ++
      thrown.flatMap fun type => '^' :: type.spell))
  | .types outer => outer.flatMap TypeSignature.spell

namespace Signature

/-- The characters of the type parameters of a signature, if it has any. -/
def spellParameters : Option (List TypeParameter) → List Char
  | none => []
  | some ps => '<' :: (ps.flatMap TypeParameter.spell ++ ['>'])

/-- The characters of a signature. -/
def spell (s : Signature) : List Char :=
  spellParameters s.typeParameters? ++ s.body.spell

/-- The signature keeps the limits of the format. -/
structure Legal (s : Signature) : Prop where
  typeParameters : ∀ ps, s.typeParameters? = some ps → legalParameters ps
  types : ∀ type ∈ s.body.outerTypes, type.Legal maxArgumentDepth

end Signature

namespace TypeParser

variable {bound : Nat}

/-- What stands behind a signature is not a part of it. -/
def EndsBody (rest : List Char) : SignatureBody → Prop
  | .method _ _ _ => rest.head? ≠ some '^'
  | .types _ => rest = []

private theorem head?_spellTypes_ne (types : List TypeSignature) {c : Char} (h : c ∈ marks) :
    (types.flatMap TypeSignature.spell ++ []).head? ≠ some c := by
  cases types with
  | nil => nofun
  | cons type types =>
    rw [List.flatMap_cons, List.append_assoc]
    exact type.head?_spell_append_ne _ h

theorem head?_spellBody_ne {body : SignatureBody} {rest : List Char} (h : EndsBody rest body) :
    (body.spell ++ rest).head? ≠ some '<' := by
  rcases body with ⟨parameters, result?, thrown⟩ | types
  · simp [SignatureBody.spell]
  · obtain rfl : rest = [] := h
    exact head?_spellTypes_ne types (by decide)

theorem SignatureBody.forall_outerTypes_iff {P : TypeSignature → Prop} {parameters thrown : List TypeSignature}
    {result? : Option TypeSignature} : (∀ type ∈ (SignatureBody.method parameters result? thrown).outerTypes, P type) ↔
      (∀ type ∈ parameters, P type) ∧ (∀ type, result? = some type → P type) ∧ ∀ type ∈ thrown, P type := by
  simp only [SignatureBody.outerTypes, List.forall_mem_append, Option.mem_toList, and_assoc]

theorem reads_signatureBody : Reads bound (signatureBody bound) fun taken rest body =>
    taken = body.spell ∧ (∀ type ∈ body.outerTypes, type.Legal maxArgumentDepth) ∧ EndsBody rest body := by
  have parameters : Reads bound (repeatWhile bound (· ≠ some ')') (outerType bound)) fun taken rest types =>
      taken = types.flatMap TypeSignature.spell ∧ (∀ type ∈ types, type.Legal maxArgumentDepth) ∧
        rest.head? = some ')' :=
    (reads_types fun type rest => decide_eq_true (type.head?_spell_append_ne rest (by decide))).congr (by simp)
  have types : Reads bound (repeatWhile bound Option.isSome (outerType bound)) fun taken rest types =>
      taken = types.flatMap TypeSignature.spell ∧ (∀ type ∈ types, type.Legal maxArgumentDepth) ∧ rest = [] := by
    refine (reads_types fun type rest => ?_).congr (by simp)
    obtain ⟨c, behind, e, -⟩ := type.spell_eq_cons
    rw [e]
    rfl
  have method := parameters.bind fun parameters => ((@reads_outerType bound).result.bind fun result? =>
    (reads_behind '^').map (SignatureBody.method parameters result?)).advance
  refine (method.ifNext '(' (types.map SignatureBody.types)).congr fun taken rest body => ?_
  constructor
  · rintro (⟨_, rfl, parameters, _, _, rfl, ⟨rfl, legal, closes⟩, passed⟩ | ⟨-, types, ⟨rfl, legal, ends⟩, rfl⟩)
    · obtain ⟨_, rfl, result?, _, _, rfl, result, thrown, ⟨rfl, others, ends⟩, rfl⟩ := (advance_iff closes).1 passed
      rw [SignatureBody.forall_outerTypes_iff]
      rcases result with ⟨rfl, rfl⟩ | ⟨-, type, ⟨rfl, result⟩, rfl⟩
      · exact ⟨rfl, ⟨legal, nofun, others⟩, ends⟩
      · exact ⟨rfl, ⟨legal, fun _ e => Option.some.inj e ▸ result, others⟩, ends⟩
    · exact ⟨rfl, legal, ends⟩
  · rintro ⟨rfl, legal, ends⟩
    rcases body with ⟨parameters, result?, thrown⟩ | types
    · rw [SignatureBody.forall_outerTypes_iff] at legal
      refine .inl ⟨_, rfl, parameters, _, _, rfl, ⟨rfl, legal.1, rfl⟩,
        .inl ⟨_, _, rfl, result?, _, _, rfl, ?_, thrown, ⟨rfl, legal.2.2, ends⟩, rfl⟩⟩
      cases result? with
      | none => exact .inl ⟨rfl, rfl⟩
      | some type => exact .inr ⟨type.head?_spell_append_ne _ (by decide), type, ⟨rfl, legal.2.1 type rfl⟩, rfl⟩
    · obtain rfl : rest = [] := ends
      exact .inr ⟨head?_spellTypes_ne types (by decide), types, ⟨rfl, legal, rfl⟩, rfl⟩

theorem reads_typeParameters? : Reads bound (typeParameters? bound) fun taken rest ps? =>
    taken = Signature.spellParameters ps? ∧ (∀ ps, ps? = some ps → legalParameters ps) ∧
      (ps? = none → rest.head? ≠ some '<') := by
  have some := (@reads_typeParameterList bound).bind fun ps => (Reads.pure (some ps)).advance
  refine (some.ifNext '<' (Reads.pure none)).congr fun taken rest ps? => ?_
  constructor
  · rintro (⟨_, rfl, ps, _, _, rfl, ⟨rfl, legal, closes⟩, passed⟩ | ⟨stops, rfl, rfl⟩)
    · obtain ⟨_, rfl, rfl, rfl⟩ := (advance_iff closes).1 passed
      exact ⟨rfl, fun _ e => Option.some.inj e ▸ legal, nofun⟩
    · exact ⟨rfl, nofun, fun _ => stops⟩
  · rintro ⟨rfl, legal, stops⟩
    cases ps? with
    | none => exact .inr ⟨stops rfl, rfl, rfl⟩
    | some ps =>
      exact .inl ⟨_, rfl, ps, _, ['>'], rfl, ⟨rfl, legal ps rfl, rfl⟩, .inl ⟨'>', [], rfl, rfl, rfl⟩⟩

theorem reads_signature : Reads bound (signature bound) fun taken rest s =>
    taken = s.spell ∧ s.Legal ∧ EndsBody rest s.body := by
  refine (reads_typeParameters?.bind fun ps? => reads_signatureBody.map (Signature.mk ps?)).congr
    fun taken rest s => ?_
  constructor
  · rintro ⟨ps?, _, _, rfl, ⟨rfl, parameters, -⟩, body, ⟨rfl, types, ends⟩, rfl⟩
    exact ⟨rfl, ⟨parameters, types⟩, ends⟩
  · rintro ⟨rfl, ⟨parameters, types⟩, ends⟩
    exact ⟨s.typeParameters?, _, _, rfl, ⟨rfl, parameters, fun _ => head?_spellBody_ne ends⟩, s.body,
      ⟨rfl, types, ends⟩, rfl⟩

end TypeParser

/-- A text is a signature exactly if it is the spelling of a legal one. -/
theorem Signature.parse_eq_ok_iff {text : String} {s : Signature} :
    Signature.parse text = .ok s ↔ text.toList = s.spell ∧ s.Legal := by
  refine (TypeParser.parse_eq_ok_iff fun _ => TypeParser.reads_signature).trans (and_congr_right fun _ => ?_)
  refine and_iff_left ?_
  cases s.body <;> simp [TypeParser.EndsBody]

end ClassCensus
