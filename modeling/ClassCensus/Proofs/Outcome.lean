import Mathlib.Data.List.Forall2

/-!
# Successes of sequences

When a computation that may fail succeeds, told from the computations that it is made of.
-/

namespace Except

variable {ε ε' α β : Type}

theorem bind_eq_ok_iff {x : Except ε α} {f : α → Except ε β} {b : β} :
    x >>= f = .ok b ↔ ∃ a, x = .ok a ∧ f a = .ok b := by
  cases x with
  | error e => simp [bind, Except.bind]
  | ok a => simp [bind, Except.bind]

theorem map_eq_ok_iff {x : Except ε α} {f : α → β} {b : β} : f <$> x = .ok b ↔ ∃ a, x = .ok a ∧ f a = b := by
  cases x with
  | error e => simp [Functor.map, Except.map]
  | ok a => simp [Functor.map, Except.map]

theorem map_eq_error_iff {x : Except ε α} {f : α → β} {e : ε} : f <$> x = .error e ↔ x = .error e := by
  cases x with
  | error e' => simp [Functor.map, Except.map]
  | ok a => simp [Functor.map, Except.map]

theorem exists_map_eq_ok_iff {x : Except ε α} {f : α → β} : (∃ b, f <$> x = .ok b) ↔ ∃ a, x = .ok a := by
  cases x with
  | error e => simp [Functor.map, Except.map]
  | ok a => simp [Functor.map, Except.map]

theorem mapError_eq_ok_iff {x : Except ε α} {f : ε → ε'} {a : α} : x.mapError f = .ok a ↔ x = .ok a := by
  cases x <;> simp [Except.mapError]

theorem mapError_map (x : Except ε α) (f : α → β) (g : ε → ε') : (f <$> x).mapError g = f <$> x.mapError g := by
  cases x <;> rfl

theorem mapError_bind (x : Except ε α) (f : α → Except ε β) (g : ε → ε') :
    (x >>= f).mapError g = x.mapError g >>= fun a => (f a).mapError g := by
  cases x <;> rfl

/-- Two lists of computations that differ in the faults only, entry by entry. -/
theorem mapM_eq_mapError {γ : Type} {f : α → Except ε γ} {f' : β → Except ε' γ} {g : ε → ε'} {as : List α} {bs : List β}
    (h : List.Forall₂ (fun a b => f' b = (f a).mapError g) as bs) : bs.mapM f' = (as.mapM f).mapError g := by
  induction h with
  | nil => rfl
  | cons first _ ih =>
    rw [List.mapM_cons, List.mapM_cons, first, ih, mapError_bind]
    refine congrArg _ (funext fun c => ?_)
    rw [mapError_bind]
    rfl

/-- What follows a refusal succeeds if nothing is refused. -/
theorem refuse_eq_ok_iff {c : Prop} [Decidable c] {e : ε} {next : PUnit → Except ε α} {a : α} :
    (if c then throw e >>= next else next ⟨⟩) = .ok a ↔ ¬ c ∧ next ⟨⟩ = .ok a := by
  by_cases h : c
  · simp only [h, if_true, not_true, false_and, iff_false]
    exact nofun
  · simp only [h, if_false, not_false_eq_true, true_and]

/-- A list of computations succeeds if all of them do, each with its own result. -/
theorem mapM_eq_ok_iff {f : α → Except ε β} {as : List α} {bs : List β} :
    as.mapM f = .ok bs ↔ List.Forall₂ (fun a b => f a = .ok b) as bs := by
  induction as generalizing bs with
  | nil => simp [pure, Except.pure, eq_comm]
  | cons a as ih =>
    simp only [List.mapM_cons, bind_eq_ok_iff, ih, List.forall₂_cons_left_iff]
    constructor
    · intro h
      obtain ⟨b, hb, rest, hrest, e⟩ := h
      cases e
      exact ⟨b, rest, hb, hrest, rfl⟩
    · intro h
      obtain ⟨b, rest, hb, hrest, rfl⟩ := h
      exact ⟨b, hb, rest, hrest, rfl⟩

/-- A list of checks succeeds if all of them do. -/
theorem forM_eq_ok_iff {check : α → Except ε Unit} {as : List α} :
    as.forM check = .ok () ↔ ∀ a ∈ as, check a = .ok () := by
  induction as with
  | nil => simp [List.forM, pure, Except.pure]
  | cons a as ih =>
    rw [List.forM, bind_eq_ok_iff, List.forall_mem_cons, ← ih]
    constructor
    · rintro ⟨⟨⟩, first, others⟩
      exact ⟨first, others⟩
    · rintro ⟨first, others⟩
      exact ⟨(), first, others⟩

/-- Of the results, the first failure is `e`. -/
def FirstError (results : List (Except ε α)) (e : ε) : Prop :=
  ∃ before after, results = before ++ .error e :: after ∧ ∀ r ∈ before, ∃ a, r = .ok a

theorem not_firstError_nil {e : ε} : ¬ FirstError ([] : List (Except ε α)) e := by
  intro h
  obtain ⟨before, after, split, -⟩ := h
  simp at split

theorem firstError_cons_iff {r : Except ε α} {results : List (Except ε α)} {e : ε} :
    FirstError (r :: results) e ↔ r = .error e ∨ (∃ a, r = .ok a) ∧ FirstError results e := by
  constructor
  · intro h
    obtain ⟨_ | ⟨first, before⟩, after, split, ok⟩ := h
    · exact .inl (List.cons.inj split).1
    · obtain ⟨rfl, rfl⟩ := List.cons.inj split
      rw [List.forall_mem_cons] at ok
      exact .inr ⟨ok.1, before, after, rfl, ok.2⟩
  · intro h
    rcases h with rfl | ⟨⟨a, rfl⟩, before, after, rfl, ok⟩
    · exact ⟨[], results, rfl, by simp⟩
    · refine ⟨.ok a :: before, after, rfl, ?_⟩
      rw [List.forall_mem_cons]
      exact ⟨⟨a, rfl⟩, ok⟩

theorem sequence_eq_ok_iff {results : List (Except ε α)} {as : List α} :
    results.mapM id = .ok as ↔ results = as.map .ok := by
  rw [mapM_eq_ok_iff]
  constructor
  · intro h
    induction h with
    | nil => rfl
    | cons e _ ih => rw [List.map_cons, ← ih, ← e, id]
  · rintro rfl
    induction as with
    | nil => exact .nil
    | cons a as ih => exact .cons rfl ih

/-- Results taken in order stop at the first failure. -/
theorem sequence_eq_error_iff {results : List (Except ε α)} {e : ε} :
    results.mapM id = .error e ↔ FirstError results e := by
  induction results with
  | nil => simp [not_firstError_nil, pure, Except.pure]
  | cons r results ih =>
    rw [List.mapM_cons, firstError_cons_iff, ← ih]
    cases r with
    | error e' => simp [bind, Except.bind]
    | ok a => cases results.mapM id <;> simp [bind, Except.bind, pure, Except.pure]

/-- A list of computations fails as the first of them does that fails. -/
theorem mapM_eq_error_iff {f : α → Except ε β} {as : List α} {e : ε} :
    as.mapM f = .error e ↔ FirstError (as.map f) e := by
  rw [← sequence_eq_error_iff, List.mapM_map, Function.id_comp]

/-! ### Lists that are gathered -/

private theorem exists_forall₂_iff {R : α → β → Prop} {as : List α} :
    (∃ bs, List.Forall₂ R as bs) ↔ ∀ a ∈ as, ∃ b, R a b := by
  induction as with
  | nil => simp
  | cons a as ih =>
    simp only [List.forall₂_cons_left_iff, List.forall_mem_cons, ← ih]
    constructor
    · intro h
      obtain ⟨_, b, bs, hb, hbs, rfl⟩ := h
      exact ⟨⟨b, hb⟩, bs, hbs⟩
    · intro h
      obtain ⟨⟨b, hb⟩, bs, hbs⟩ := h
      exact ⟨b :: bs, b, bs, hb, hbs, rfl⟩

/-- The computation succeeds exactly if `ready` holds, and the members of its list are then those with a property. -/
structure Collects (x : Except ε (List α)) (ready : Prop) (member : α → Prop) : Prop where
  succeeds_iff : (∃ l, x = .ok l) ↔ ready
  mem_iff : ∀ l, x = .ok l → ∀ a, a ∈ l ↔ member a

theorem Collects.ok {l : List α} {ready : Prop} {member : α → Prop} (holds : ready) (h : ∀ a, a ∈ l ↔ member a) :
    Collects (.ok l : Except ε (List α)) ready member where
  succeeds_iff := iff_of_true ⟨l, rfl⟩ holds
  mem_iff := by
    rintro _ ⟨⟩
    exact h

theorem Collects.error {e : ε} {ready : Prop} {member : α → Prop} (fails : ¬ ready) :
    Collects (.error e : Except ε (List α)) ready member where
  succeeds_iff := iff_of_false nofun fails
  mem_iff := nofun

/-- A list that is put in another order has the same members. -/
theorem Collects.rearranged {x : Except ε (List α)} {ready : Prop} {member : α → Prop} (h : Collects x ready member)
    {f : List α → List α} (same : ∀ l a, a ∈ f l ↔ a ∈ l) : Collects (f <$> x) ready member where
  succeeds_iff := exists_map_eq_ok_iff.trans h.succeeds_iff
  mem_iff := by
    intro l hl a
    obtain ⟨l, given, rfl⟩ := map_eq_ok_iff.1 hl
    rw [same, h.mem_iff l given]

/-- What is gathered first stands before what is gathered then. -/
theorem Collects.append {x y : Except ε (List α)} {ready ready' : Prop} {member member' : α → Prop}
    (h : Collects x ready member) (h' : Collects y ready' member') :
    Collects (x >>= fun l => (l ++ ·) <$> y) (ready ∧ ready') fun a => member a ∨ member' a where
  succeeds_iff := by
    rw [← h.succeeds_iff, ← h'.succeeds_iff]
    simp only [bind_eq_ok_iff, map_eq_ok_iff]
    constructor
    · intro hx
      obtain ⟨_, l, hl, l', hl', -⟩ := hx
      exact ⟨⟨l, hl⟩, l', hl'⟩
    · intro hx
      obtain ⟨⟨l, hl⟩, l', hl'⟩ := hx
      exact ⟨_, l, hl, l', hl', rfl⟩
  mem_iff := by
    intro both hboth a
    simp only [bind_eq_ok_iff, map_eq_ok_iff] at hboth
    obtain ⟨l, hl, l', hl', rfl⟩ := hboth
    rw [List.mem_append, h.mem_iff l hl, h'.mem_iff l' hl']

/-- A computation whose results are told by a relation. -/
theorem Collects.of_relation {x : Except ε (List α)} {R : List α → Prop} (h : ∀ l, x = .ok l ↔ R l) :
    Collects x (∃ l, R l) fun a => ∃ l, R l ∧ a ∈ l where
  succeeds_iff := exists_congr h
  mem_iff := by
    intro l hl a
    constructor
    · exact fun mem => ⟨l, (h l).1 hl, mem⟩
    · intro hx
      obtain ⟨l', hl', mem⟩ := hx
      obtain rfl : l = l' := Except.ok.inj (hl.symm.trans ((h l').2 hl'))
      exact mem

/-- One gathering for each entry of a list, and all of them joined. -/
theorem Collects.mapM {f : α → Except ε (List β)} {ready : α → Prop} {member : α → β → Prop} {as : List α}
    (h : ∀ a ∈ as, Collects (f a) (ready a) (member a)) :
    Collects (List.flatten <$> as.mapM f) (∀ a ∈ as, ready a) fun b => ∃ a ∈ as, member a b where
  succeeds_iff := by
    have all : (∃ parts, as.mapM f = .ok parts) ↔ ∀ a ∈ as, ready a := by
      simp only [mapM_eq_ok_iff, exists_forall₂_iff]
      exact forall₂_congr fun a mem => (h a mem).succeeds_iff
    rw [← all]
    constructor
    · intro hx
      obtain ⟨l, hl⟩ := hx
      obtain ⟨parts, hparts, -⟩ := map_eq_ok_iff.1 hl
      exact ⟨parts, hparts⟩
    · intro hx
      obtain ⟨parts, hparts⟩ := hx
      exact ⟨_, map_eq_ok_iff.2 ⟨parts, hparts, rfl⟩⟩
  mem_iff := by
    intro l hl b
    obtain ⟨parts, hparts, rfl⟩ := map_eq_ok_iff.1 hl
    rw [mapM_eq_ok_iff] at hparts
    clear hl
    -- entry by entry, each with the part that comes from it
    induction hparts with
    | nil => simp
    | @cons a part as parts ha _ ih =>
      rw [List.flatten_cons, List.mem_append, (h a List.mem_cons_self).mem_iff part ha,
        ih fun a mem => h a (List.mem_cons_of_mem _ mem)]
      simp

end Except

namespace StateM

/-- One computation on a state after another. -/
theorem bind_apply {σ α β : Type} (x : StateM σ α) (f : α → StateM σ β) (state : σ) :
    (x >>= f) state = f (x state).1 (x state).2 :=
  rfl

/-- The first computation has a result and leaves a state, on which the second goes on. -/
theorem bind_eq_iff {σ α β : Type} {x : StateM σ α} {f : α → StateM σ β} {state after : σ} {b : β} :
    (x >>= f) state = (b, after) ↔ ∃ a middle, x state = (a, middle) ∧ f a middle = (b, after) := by
  rw [bind_apply]
  constructor
  · exact fun h => ⟨_, _, rfl, h⟩
  · intro h
    obtain ⟨a, middle, first, second⟩ := h
    rw [first, second]

/-- The result has the property, whatever the state is. -/
def Gives {σ α : Type} (P : α → Prop) (x : StateM σ α) : Prop :=
  ∀ state, P (x state).1

section Gives

variable {σ α β : Type} {P : α → Prop} {Q : β → Prop}

theorem Gives.pure {a : α} (h : P a) : Gives P (Pure.pure a : StateM σ α) :=
  fun _ => h

theorem Gives.bind {x : StateM σ α} {f : α → StateM σ β} (h : Gives P x) (h' : ∀ a, P a → Gives Q (f a)) :
    Gives Q (x >>= f) :=
  fun state => h' _ (h state) _

/-- What is computed first does not matter. -/
theorem Gives.after {x : StateM σ α} {f : α → StateM σ β} (h : ∀ a, Gives Q (f a)) : Gives Q (x >>= f) :=
  fun _ => h _ _

theorem Gives.mapM {f : β → StateM σ α} (h : ∀ b, Gives P (f b)) (bs : List β) :
    Gives (∀ a ∈ ·, P a) (bs.mapM f) := by
  induction bs with
  | nil => exact .pure (by simp)
  | cons b bs ih =>
    rw [List.mapM_cons]
    exact (h b).bind fun a ha => ih.bind fun as has => .pure (List.forall_mem_cons.2 ⟨ha, has⟩)

end Gives

end StateM
