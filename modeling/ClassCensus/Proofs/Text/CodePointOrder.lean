import ClassCensus.Proofs.Text.Utf8

/-!
# Order of texts in UTF-8

Texts compare by code points as their bytes in UTF-8 compare, shorter prefixes first (`encode_lt_iff`).  The reason is
that of two characters the one with the greater number has, at the first place where the bytes differ, the greater byte
(`encodeChar_append_lt`): longer forms have greater lead bytes, and forms of one length hold the number from its most
significant digit on.
-/

namespace ClassCensus.Text.Utf8

/-- The numbers of the characters of a text. -/
def codePoints (chars : List Char) : List Nat :=
  chars.map Char.toNat

/-- Bytes with the numbers `m` and `n` are compared by these numbers. -/
private theorem cons_lt_cons_iff {m n : Nat} (hm : m < 256) (hn : n < 256) {left right : List UInt8} :
    UInt8.ofNat m :: left < UInt8.ofNat n :: right ↔ m < n ∨ m = n ∧ left < right := by
  have byte {k : Nat} (h : k < 256) : (UInt8.ofNat k).toNat = k := UInt8.toNat_ofNat_of_lt' h
  rw [List.cons_lt_cons_iff, UInt8.lt_iff_toNat_lt, ← UInt8.toNat_inj, byte hm, byte hn]

/-- A number by its digits to the base 64, the first of which may be greater. -/
private theorem exists_digits (k : Nat) : ∃ a b c d, k = 64 * (64 * (64 * a + b) + c) + d ∧ b < 64 ∧ c < 64 ∧ d < 64 ∧
    k / 262144 = a ∧ k / 4096 = 64 * a + b ∧ k / 64 = 64 * (64 * a + b) + c ∧ k % 64 = d :=
  ⟨k / 262144, k / 4096 % 64, k / 64 % 64, k % 64, by omega, by omega, by omega, by omega, rfl, by omega, by omega, rfl⟩

theorem encodeChar_append_lt {c d : Char} (h : c < d) (left right : List UInt8) :
    String.utf8EncodeChar c ++ left < String.utf8EncodeChar d ++ right := by
  have less : c.val.toNat < d.val.toNat := h
  have top : d.val.toNat < 0x110000 := by
    have := d.valid
    unfold UInt32.isValidChar Nat.isValidChar at this
    omega
  unfold String.utf8EncodeChar
  dsimp only
  generalize c.val.toNat = m at less
  generalize d.val.toNat = n at less top
  obtain ⟨m₃, m₂, m₁, m₀, hm, hm₂, hm₁, hm₀, em₃, em₂, em₁, em₀⟩ := exists_digits m
  obtain ⟨n₃, n₂, n₁, n₀, hn, hn₂, hn₁, hn₀, en₃, en₂, en₁, en₀⟩ := exists_digits n
  rw [em₃, em₂, em₁, em₀, en₃, en₂, en₁, en₀]
  clear em₃ em₂ em₁ em₀ en₃ en₂ en₁ en₀
  have m₃_le : m₃ < 8 := by omega
  have n₃_le : n₃ < 8 := by omega
  simp only [Nat.mul_add_mod_self_left, Nat.mod_eq_of_lt, m₃_le, n₃_le, hm₂, hm₁, hn₂, hn₁]
  -- one case for each pair of lengths; the first bytes differ unless the lengths are the same
  split_ifs
  all_goals
    simp only [List.cons_append, List.nil_append]
    repeat rw [cons_lt_cons_iff (by omega) (by omega)]
    omega

/-- A map of texts that keeps the order also tells it. -/
private theorem lt_iff_of_mono {α : Type} [LT α] [Std.Asymm (α := α) (· < ·)] {f : List Char → List α}
    (mono : ∀ {left right : List Char}, left < right → f left < f right) {left right : List Char} :
    f left < f right ↔ left < right := by
  constructor
  · intro h
    by_contra not
    rcases List.le_iff_lt_or_eq.1 (List.not_lt.1 not) with less | rfl
    · exact List.lt_asymm h (mono less)
    · exact List.lt_asymm h h
  · exact mono

theorem codePoints_lt_iff {left right : List Char} : codePoints left < codePoints right ↔ left < right :=
  lt_iff_of_mono (f := codePoints) (List.map_lt fun _ _ h => h)

private theorem encode_mono {left right : List Char} (h : left < right) : encode left < encode right := by
  induction h with
  | @nil d right =>
    obtain ⟨b, bytes, some⟩ := List.exists_cons_of_ne_nil (encode_ne_nil (List.cons_ne_nil d right))
    rw [encode_nil, some]
    exact List.nil_lt_cons b bytes
  | rel less => exact encodeChar_append_lt less _ _
  | cons _ ih => exact List.append_left_lt ih

/-- The order of bytes is that of code points. -/
theorem encode_lt_iff {left right : List Char} : encode left < encode right ↔ codePoints left < codePoints right := by
  rw [codePoints_lt_iff, lt_iff_of_mono encode_mono]

end ClassCensus.Text.Utf8
