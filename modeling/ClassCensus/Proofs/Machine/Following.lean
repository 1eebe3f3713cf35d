import ClassCensus.Proofs.Machine.Operation

/-!
# Readings that follow one another

A `Reading` moves the state of a machine and may fault.  It *follows* a total reading if, from each state that stands
for a cursor, it ends without a fault and just as the total reading ends: with the same result and a state that stands
for the cursor left behind, or with the report of the same failure.

* (views) a `View` says which states stand for which cursors, and how a failure is reported;
* (rules) there is one rule for each way to build a reading; `FollowsAt` is about one cursor, for the places where what
  has been read so far matters, and `Follows` about all of them;
* (operations) a machine goes on after an operation inside its domain as if it were no operation
  (`FollowsAt.operation`).
-/

namespace ClassCensus.Machine

/-- A computation of a machine that reads. -/
abbrev Reading (σ : Type) := StateT σ Checked

/-- How the states of a machine stand for cursors, and its reports for failures. -/
structure View (ε τ σ : Type) where
  state : τ → σ
  /-- The cursor is at a place that a state stands for. -/
  Valid : τ → Prop
  report : ε → τ → FormatError

namespace View

variable {ε τ σ α β : Type} (V : View ε τ σ)

/-- From the cursor on, the reading ends without a fault and as the total reading does. -/
def FollowsAt (m : Reading σ α) (d : EStateM ε τ α) (cursor : τ) : Prop :=
  match d cursor with
  | .ok a after => V.Valid after ∧ m (V.state cursor) = pure (a, V.state after)
  | .error e after => m (V.state cursor) = throw (V.report e after)

/-- Everywhere, the reading ends without a fault and as the total reading does. -/
def Follows (m : Reading σ α) (d : EStateM ε τ α) : Prop :=
  ∀ cursor, V.Valid cursor → V.FollowsAt m d cursor

variable {V} {m m' : Reading σ α} {d d' : EStateM ε τ α} {cursor : τ}

theorem followsAt_of_ok {a : α} {after : τ} (run : d cursor = .ok a after) (valid : V.Valid after)
    (h : m (V.state cursor) = pure (a, V.state after)) : V.FollowsAt m d cursor := by
  rw [FollowsAt, run]
  exact ⟨valid, h⟩

theorem followsAt_of_error {e : ε} {after : τ} (run : d cursor = .error e after)
    (h : m (V.state cursor) = throw (V.report e after)) : V.FollowsAt m d cursor := by
  rw [FollowsAt, run]
  exact h

theorem FollowsAt.valid (h : V.FollowsAt m d cursor) {a : α} {after : τ} (run : d cursor = .ok a after) :
    V.Valid after := by
  rw [FollowsAt, run] at h
  exact h.1

theorem FollowsAt.eq_pure (h : V.FollowsAt m d cursor) {a : α} {after : τ} (run : d cursor = .ok a after) :
    m (V.state cursor) = pure (a, V.state after) := by
  rw [FollowsAt, run] at h
  exact h.2

theorem FollowsAt.eq_throw (h : V.FollowsAt m d cursor) {e : ε} {after : τ} (run : d cursor = .error e after) :
    m (V.state cursor) = throw (V.report e after) := by
  rw [FollowsAt, run] at h
  exact h

theorem FollowsAt.congr (h : V.FollowsAt m d cursor) (e : d' cursor = d cursor) : V.FollowsAt m d' cursor := by
  rw [FollowsAt, e]
  exact h

/-! ### Ends -/

theorem FollowsAt.pure (a : α) (valid : V.Valid cursor) : V.FollowsAt (Pure.pure a) (Pure.pure a) cursor :=
  ⟨valid, rfl⟩

theorem Follows.pure (a : α) : V.Follows (Pure.pure a) (Pure.pure a) :=
  fun _ valid => FollowsAt.pure a valid

/-! ### Sequences -/

theorem FollowsAt.bind {k : α → Reading σ β} {f : α → EStateM ε τ β} (first : V.FollowsAt m d cursor)
    (next : ∀ a after, d cursor = .ok a after → V.Valid after → V.FollowsAt (k a) (f a) after) :
    V.FollowsAt (m >>= k) (d >>= f) cursor := by
  have sequence : (d >>= f) cursor = EStateM.bind d f cursor := rfl
  have reading : (m >>= k) (V.state cursor) = m (V.state cursor) >>= fun p => k p.1 p.2 := rfl
  rw [FollowsAt, sequence, reading, EStateM.bind]
  cases run : d cursor with
  | ok a after =>
    rw [first.eq_pure run, pure_bind]
    exact next a after run (first.valid run)
  | error e after =>
    rw [first.eq_throw run]
    rfl

theorem Follows.bind {k : α → Reading σ β} {f : α → EStateM ε τ β} (first : V.Follows m d)
    (next : ∀ a, V.Follows (k a) (f a)) : V.Follows (m >>= k) (d >>= f) :=
  fun cursor valid => (first cursor valid).bind fun a after _ valid => next a after valid

theorem Follows.map (g : α → β) (h : V.Follows m d) : V.Follows (g <$> m) (g <$> d) := by
  intro cursor valid
  have h := h cursor valid
  have total : (g <$> d) cursor = EStateM.map g d cursor := rfl
  have reading : (g <$> m) (V.state cursor) = (fun p => (g p.1, p.2)) <$> m (V.state cursor) := rfl
  rw [FollowsAt, total, reading, EStateM.map]
  cases run : d cursor with
  | ok a after =>
    rw [h.eq_pure run, map_pure]
    exact ⟨h.valid run, rfl⟩
  | error e after =>
    rw [h.eq_throw run]
    rfl

/-! ### Choices -/

theorem FollowsAt.ite {c : Prop} [Decidable c] (yes : c → V.FollowsAt m d cursor)
    (no : ¬ c → V.FollowsAt m' d' cursor) :
    V.FollowsAt (if c then m else m') (if c then d else d') cursor := by
  by_cases h : c
  · rw [if_pos h, if_pos h]
    exact yes h
  · rw [if_neg h, if_neg h]
    exact no h

theorem Follows.ite {c : Prop} [Decidable c] (yes : c → V.Follows m d) (no : ¬ c → V.Follows m' d') :
    V.Follows (if c then m else m') (if c then d else d') :=
  fun cursor valid => .ite (fun h => yes h cursor valid) fun h => no h cursor valid

/-! ### Operations -/

theorem FollowsAt.get {k : σ → Reading σ α} (h : V.FollowsAt (k (V.state cursor)) d cursor) :
    V.FollowsAt (MonadState.get >>= k) d cursor :=
  h

/-- An operation inside its domain. -/
theorem FollowsAt.operation {x : Checked β} {b : β} {k : β → Reading σ α} (inside : x = Pure.pure b)
    (h : V.FollowsAt (k b) d cursor) : V.FollowsAt (monadLift x >>= k) d cursor := by
  subst inside
  exact h

theorem Follows.operation {x : Checked β} {b : β} {k : β → Reading σ α} (inside : x = Pure.pure b)
    (h : V.Follows (k b) d) : V.Follows (monadLift x >>= k) d :=
  fun cursor valid => .operation inside (h cursor valid)

end View

end ClassCensus.Machine
