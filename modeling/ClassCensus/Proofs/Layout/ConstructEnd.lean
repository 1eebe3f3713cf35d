import ClassCensus.Layout.Event

/-!
# Where constructs end

The end of a construct is found from left to right: it stands behind its content whatever follows, and not before
(`EndsAt`).  So a construct that has been read is read again before any other bytes, and no bytes that break off inside
it are a construct (`construct_eq_ok`).

* (kinds) the kind of a construct is told by the first two bytes of its content, or refused (`ofStart_append`).
-/

namespace ClassCensus.Layout

/-- A search for the `>` that ends a construct finds it behind the content, whatever follows, and not before. -/
structure EndsAt (cut : List UInt8 → Option (List UInt8 × List UInt8)) (content found : List UInt8) : Prop where
  ends : ∀ rest, cut (content ++ ascii '>' :: rest) = some (found, rest)
  not_before : ∀ n ≤ content.length, cut (content.take n) = none

namespace EndsAt

variable {cut cut' : List UInt8 → Option (List UInt8 × List UInt8)} {content found : List UInt8}

theorem here (nil : cut [] = none) (ends : ∀ rest, cut (ascii '>' :: rest) = some (found, rest)) :
    EndsAt cut [] found where
  ends := ends
  not_before n _ := by rw [List.take_nil, nil]

theorem behind {b : UInt8} (nil : cut [] = none) (next : ∀ rest, cut (b :: rest) = cut' rest)
    (h : EndsAt cut' content found) : EndsAt cut (b :: content) found where
  ends rest := (next _).trans (h.ends rest)
  not_before
    | 0, _ => nil
    | n + 1, le => (next _).trans (h.not_before n (Nat.le_of_succ_le_succ le))

/-- A search that goes byte by byte, collects the bytes it has passed, and stops at a `>` only. -/
theorem exists_of_steps {σ : Type} {cut : σ → List UInt8 → List UInt8 → Option (List UInt8 × List UInt8)}
    (nil : ∀ state read, cut state read [] = none)
    (cons : ∀ state read b, (b = ascii '>' ∧ ∀ rest, cut state read (b :: rest) = some (read.reverse, rest)) ∨
      ∃ next, ∀ rest, cut state read (b :: rest) = cut next (b :: read) rest)
    {state : σ} {read bytes found rest : List UInt8} (h : cut state read bytes = some (found, rest)) :
    ∃ content, bytes = content ++ ascii '>' :: rest ∧ found = read.reverse ++ content ∧
      EndsAt (cut state read) content found := by
  induction bytes generalizing state read with
  | nil =>
    rw [nil] at h
    cases h
  | cons b bytes ih =>
    rcases cons state read b with ⟨rfl, ends⟩ | ⟨next, goesOn⟩
    · obtain ⟨rfl, rfl⟩ := Prod.mk.inj (Option.some.inj ((ends bytes).symm.trans h))
      exact ⟨[], rfl, by simp, .here (nil _ _) ends⟩
    · obtain ⟨content, rfl, rfl, endsAt⟩ := ih ((goesOn bytes).symm.trans h)
      exact ⟨b :: content, rfl, by simp, endsAt.behind (nil _ _) goesOn⟩

end EndsAt

namespace Construct

private theorem steps_tag (open? : Option UInt8) (read : List UInt8) (b : UInt8) :
    (b = ascii '>' ∧ ∀ rest, splitTagOnto open? read (b :: rest) = some (read.reverse, rest)) ∨
      ∃ next, ∀ rest, splitTagOnto open? read (b :: rest) = splitTagOnto next (b :: read) rest := by
  cases open? with
  | some quote => exact .inr ⟨_, fun _ => rfl⟩
  | none =>
    by_cases bracket : b = ascii '>'
    · exact .inl ⟨bracket, fun _ => if_pos bracket⟩
    · exact .inr ⟨_, fun _ => if_neg bracket⟩

private theorem steps_mark (closes : List UInt8 → Bool) (_ : Unit) (read : List UInt8) (b : UInt8) :
    (b = ascii '>' ∧ ∀ rest, splitMarkOnto closes read (b :: rest) = some (read.reverse, rest)) ∨
      ∃ _ : Unit, ∀ rest, splitMarkOnto closes read (b :: rest) = splitMarkOnto closes (b :: read) rest := by
  by_cases mark : b = ascii '>' ∧ closes read = true
  · exact .inl ⟨mark.1, fun _ => if_pos mark⟩
  · exact .inr ⟨(), fun _ => if_neg mark⟩

private theorem steps_balanced (depth : Nat) (read : List UInt8) (b : UInt8) :
    (b = ascii '>' ∧ ∀ rest, splitBalancedOnto depth read (b :: rest) = some (read.reverse, rest)) ∨
      ∃ next, ∀ rest, splitBalancedOnto depth read (b :: rest) = splitBalancedOnto next (b :: read) rest := by
  by_cases opening : b = ascii '<'
  · exact .inr ⟨_, fun _ => if_pos opening⟩
  by_cases closing : b = ascii '>'
  · subst closing
    cases depth with
    | zero => exact .inl ⟨rfl, fun _ => rfl⟩
    | succ depth => exact .inr ⟨depth, fun _ => rfl⟩
  · refine .inr ⟨depth, fun rest => ?_⟩
    rw [splitBalancedOnto.eq_def]
    simp only [if_neg opening, if_neg closing]

/-- The content of a construct is what stands before its end. -/
theorem split?_eq_some {kind : Construct} {bytes content rest : List UInt8}
    (h : kind.split? bytes = some (content, rest)) :
    bytes = content ++ ascii '>' :: rest ∧ EndsAt kind.split? content content := by
  have mark (closes : List UInt8 → Bool) (h : splitMarkOnto closes [] bytes = some (content, rest)) :
      bytes = content ++ ascii '>' :: rest ∧ EndsAt (splitMarkOnto closes []) content content := by
    obtain ⟨_, e, rfl, endsAt⟩ := @EndsAt.exists_of_steps _ (fun _ => splitMarkOnto closes) (fun _ _ => rfl)
      (steps_mark closes) () _ _ _ _ h
    exact ⟨e, endsAt⟩
  cases kind with
  | tag | endTag =>
    obtain ⟨_, e, rfl, endsAt⟩ := EndsAt.exists_of_steps (fun _ _ => rfl) steps_tag h
    exact ⟨e, endsAt⟩
  | instruction | cdata | comment => exact mark _ h
  | doctype =>
    obtain ⟨_, e, rfl, endsAt⟩ := EndsAt.exists_of_steps (fun _ _ => rfl) steps_balanced h
    exact ⟨e, endsAt⟩

/-! ### Kinds -/

/-- What follows the end of a construct has no part in its kind. -/
theorem ofStart_behind (content rest rest' : List UInt8) :
    ofStart (content ++ ascii '>' :: rest) = ofStart (content ++ ascii '>' :: rest') :=
  match content with
  | [] => rfl
  | [_] => rfl
  | _ :: _ :: _ => rfl

/-- Bytes that start a construct still do so with more bytes behind them. -/
theorem ofStart_append {first : List UInt8} (some : first ≠ []) {kind : Construct} (h : ofStart first = .ok kind)
    (rest : List UInt8) : ofStart (first ++ rest) = .ok kind := by
  match first with
  | _ :: _ :: _ => exact h
  | [b] =>
    by_cases slash : b = ascii '/'
    · subst slash
      exact h
    by_cases question : b = ascii '?'
    · subst question
      exact h
    by_cases exclamation : b = ascii '!'
    · subst exclamation
      cases h
    · have tag (rest : List UInt8) : ofStart (b :: rest) = .ok .tag := by
        simp [ofStart, asciiText, Ne.symm slash, Ne.symm question, Ne.symm exclamation]
      exact (tag rest).trans ((tag []).symm.trans h)

end Construct

/-- A construct is read again before any other bytes, and no bytes that break off inside it are one. -/
theorem construct_eq_ok {offset : Nat} {bytes rest : List UInt8} {found : Located}
    (h : construct offset bytes = .ok (found, rest)) :
    ∃ content, bytes = content ++ ascii '>' :: rest ∧ found.past = offset + content.length + 2 ∧
      (∀ rest', construct offset (content ++ ascii '>' :: rest') = .ok (found, rest')) ∧
      ∀ n ≤ content.length, ∃ fault, construct offset (content.take n) = .error fault := by
  unfold construct at h
  split at h
  · cases h
  next kind start =>
  split at h
  · cases h
  next content rest split =>
  split at h
  · cases h
  next event means =>
  cases h
  obtain ⟨rfl, endsAt⟩ := Construct.split?_eq_some split
  refine ⟨content, rfl, rfl, fun rest' => ?_, fun n le => ?_⟩
  · simp only [construct, Construct.ofStart_behind content rest' rest, start, endsAt.ends, means]
  · -- what is left of the content starts the same construct, unless nothing is left
    have noEnd (kind' : Construct) (start' : Construct.ofStart (content.take n) = .ok kind') :
        kind'.split? (content.take n) = none := by
      by_cases none : content.take n = []
      · rw [none]
        cases kind' <;> rfl
      · have same := Construct.ofStart_append none start' (content.drop n ++ ascii '>' :: rest)
        rw [← List.append_assoc, List.take_append_drop] at same
        obtain rfl : kind = kind' := Except.ok.inj (start.symm.trans same)
        exact endsAt.not_before n le
    cases start' : Construct.ofStart (content.take n) with
    | error fault => exact ⟨⟨fault, offset⟩, by simp only [construct, start']⟩
    | ok kind' => exact ⟨⟨kind'.unclosed, offset⟩, by simp only [construct, start', noEnd kind' start']⟩

end ClassCensus.Layout
