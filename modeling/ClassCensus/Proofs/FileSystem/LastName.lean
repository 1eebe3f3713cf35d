import ClassCensus.FileSystem.Tree
import Mathlib.Data.List.Basic

/-!
# The last name of a path

A text without slashes that is put at the end of a path makes its last name longer and leaves the others as they are.
-/

namespace ClassCensus

namespace Path

theorem piecesOf_slash (chars : List Char) : piecesOf ('/' :: chars) = [] :: piecesOf chars := by
  rw [piecesOf, if_pos rfl]

theorem piecesOf_char {c : Char} {chars piece : List Char} {pieces : List (List Char)} (hc : c ≠ '/')
    (h : piecesOf chars = piece :: pieces) : piecesOf (c :: chars) = (c :: piece) :: pieces := by
  rw [piecesOf, if_neg hc, h]

theorem piecesOf_plain {chars : List Char} (h : '/' ∉ chars) : piecesOf chars = [chars] := by
  induction chars with
  | nil => rfl
  | cons c chars ih =>
    rw [List.mem_cons, not_or] at h
    exact piecesOf_char (Ne.symm h.1) (ih h.2)

/-- The last piece of a text, which grows with the text and is empty only for a text that ends in a slash. -/
theorem exists_lastPiece (chars : List Char) : ∃ pieces last, piecesOf chars = pieces ++ [last] ∧
    (last = [] → chars = [] ∨ chars.getLast? = some '/') ∧
      ∀ more, '/' ∉ more → piecesOf (chars ++ more) = pieces ++ [last ++ more] := by
  induction chars with
  | nil => exact ⟨[], [], rfl, fun _ => .inl rfl, fun more plain => piecesOf_plain plain⟩
  | cons c chars ih =>
    obtain ⟨pieces, last, whole, ends, longer⟩ := ih
    by_cases hc : c = '/'
    · subst hc
      refine ⟨[] :: pieces, last, by rw [piecesOf_slash, whole, List.cons_append], fun none => .inr ?_, ?_⟩
      · rcases ends none with rfl | slash
        · rfl
        · rw [List.getLast?_cons, slash]
          rfl
      · intro more plain
        rw [List.cons_append, piecesOf_slash, longer more plain, List.cons_append]
    · cases pieces with
      | nil =>
        refine ⟨[], c :: last, piecesOf_char hc whole, nofun, fun more plain => ?_⟩
        exact piecesOf_char hc (longer more plain)
      | cons piece pieces =>
        refine ⟨(c :: piece) :: pieces, last, piecesOf_char hc whole, fun none => .inr ?_, fun more plain => ?_⟩
        · rcases ends none with rfl | slash
          · simp [piecesOf] at whole
          · rw [List.getLast?_cons, slash]
            rfl
        · exact piecesOf_char hc (longer more plain)

end Path

namespace FileTree

end FileTree

end ClassCensus
