import ClassCensus.Proofs.FileSystem.Growth

/-!
# Where paths lead

`FileTree.Leads` says where a sequence of names leads from a directory, with one rule for each way in which a name is
passed; a walk succeeds exactly where they lead (`FileTree.walk_eq_ok_iff`).

* (places) what a walk ends at stands, or is free, under the names of its target (`Leads.get?_names`), of which the last
  is the last name walked (`Leads.getLast?_names`);
* (changes) if one entry that is no directory becomes a file, the walk ends where it did, unless it went through that
  entry as a link (`Leads.walk_changed`);
* (endings) where a file is made, links are followed to the end; as long as none stands there, that makes no difference
  (`Leads.kept_or_link`).
-/

namespace ClassCensus

namespace FileTree

variable {tree other : FileTree} {ending : Ending} {links : Nat} {directory : List String} {step : String}
  {steps : List String} {target : Target}

/-- The names under which the target stands or is free. -/
def Target.names : Target → List String
  | .entry names _ => names
  | .free directory name => directory ++ [name]

/-- What stands at the target. -/
def Target.entry? : Target → Option Entry
  | .entry _ found => some found
  | .free _ _ => none

/-- The step, before the others, is a name that can be looked up. -/
structure IsName (ending : Ending) (step : String) (steps : List String) : Prop where
  not_stay : ¬ (step = "" ∨ step = ".")
  not_up : step ≠ ".."
  not_slash : ¬ (ending = .create ∧ steps = [""])
  size_le : step.utf8ByteSize ≤ maxNameSize

theorem IsName.of_step {ending : Ending} {step : String} {steps : List String}
    (h : step ∉ ["", ".", ".."] ∧ step.utf8ByteSize ≤ maxNameSize) (more : steps ≠ [""]) :
    IsName ending step steps := by
  obtain ⟨fine, size⟩ := h
  simp only [List.mem_cons, not_or] at fine
  exact ⟨not_or.2 ⟨fine.1, fine.2.1⟩, fine.2.2.1, fun h => more h.2, size⟩

/-- The steps lead from the directory to the target, through at most `links` links. -/
inductive Leads (tree : FileTree) (ending : Ending) : Nat → List String → List String → Target → Prop
  | here {links : Nat} {directory : List String} : Leads tree ending links directory [] (.entry directory .directory)
  | stay {links : Nat} {directory steps : List String} {step : String} {target : Target} :
      step = "" ∨ step = "." → Leads tree ending links directory steps target →
      Leads tree ending links directory (step :: steps) target
  | up {links : Nat} {directory steps : List String} {target : Target} :
      Leads tree ending links directory.dropLast steps target → Leads tree ending links directory (".." :: steps) target
  | free {links : Nat} {directory : List String} {step : String} :
      IsName ending step [] → tree.get? (directory ++ [step]) = none →
      Leads tree ending links directory [step] (.free directory step)
  | file {links : Nat} {directory : List String} {step : String} {bytes : List UInt8} :
      IsName ending step [] → tree.get? (directory ++ [step]) = some (.file bytes) →
      Leads tree ending links directory [step] (.entry (directory ++ [step]) (.file bytes))
  | kept {links : Nat} {directory : List String} {step : String} {path : Path} :
      ending = .keep → IsName ending step [] → tree.get? (directory ++ [step]) = some (.link path) →
      Leads tree ending links directory [step] (.entry (directory ++ [step]) (.link path))
  | enter {links : Nat} {directory steps : List String} {step : String} {target : Target} :
      IsName ending step steps → tree.get? (directory ++ [step]) = some .directory →
      Leads tree ending links (directory ++ [step]) steps target →
      Leads tree ending links directory (step :: steps) target
  | follow {links : Nat} {directory steps : List String} {step : String} {path : Path} {target : Target} :
      IsName ending step steps → tree.get? (directory ++ [step]) = some (.link path) →
      ¬ (steps = [] ∧ ending = .keep) →
      Leads tree ending links (if path.isAbsolute then [] else directory) (stepsOf path ++ steps) target →
      Leads tree ending (links + 1) directory (step :: steps) target

/-! ### Walks -/

theorem walk_stay (h : step = "" ∨ step = ".") :
    tree.walk ending links directory (step :: steps) = tree.walk ending links directory steps := by
  rw [walk, if_pos h]

theorem walk_up :
    tree.walk ending links directory (".." :: steps) = tree.walk ending links directory.dropLast steps := by
  rw [walk, if_neg (by decide), if_pos rfl]

theorem walk_name (h : IsName ending step steps) : tree.walk ending links directory (step :: steps) =
    match tree.get? (directory ++ [step]) with
    | none => if steps = [] then .ok (.free directory step) else .error .notFound
    | some .directory => tree.walk ending links (directory ++ [step]) steps
    | some (.file bytes) =>
      if steps = [] then .ok (.entry (directory ++ [step]) (.file bytes)) else .error .notADirectory
    | some (.link path) =>
      if steps = [] ∧ ending = .keep then .ok (.entry (directory ++ [step]) (.link path))
      else match links with
      | 0 => .error .tooManyLinks
      | links + 1 => tree.walk ending links (if path.isAbsolute then [] else directory) (stepsOf path ++ steps) := by
  rw [walk]
  exact (if_neg h.not_stay).trans ((if_neg h.not_up).trans ((if_neg h.not_slash).trans
    (if_neg (Nat.not_lt.2 h.size_le))))

theorem leads_of_walk (h : tree.walk ending links directory steps = .ok target) :
    tree.Leads ending links directory steps target := by
  fun_induction walk tree ending links directory steps with
  | case1 => cases h; exact .here
  | case2 _ _ _ _ stay ih => exact .stay stay (ih h)
  | case3 _ _ _ _ ih => exact .up (ih h)
  | case4 | case5 => cases h
  | case6 links directory step hs hu long names found hc =>
    cases h
    exact .free ⟨hs, hu, hc, Nat.not_lt.1 long⟩ found
  | case7 => cases h
  | case8 links directory step steps hs hu hc long names found ih =>
    exact .enter ⟨hs, hu, hc, Nat.not_lt.1 long⟩ found (ih h)
  | case9 links directory step hs hu long names bytes found hc =>
    cases h
    exact .file ⟨hs, hu, hc, Nat.not_lt.1 long⟩ found
  | case10 => cases h
  | case11 links directory step steps hs hu hc long names path found ends =>
    cases h
    obtain ⟨rfl, keep⟩ := ends
    exact .kept keep ⟨hs, hu, hc, Nat.not_lt.1 long⟩ found
  | case12 => cases h
  | case13 directory step steps hs hu hc long names path found goes links ih =>
    exact .follow ⟨hs, hu, hc, Nat.not_lt.1 long⟩ found goes (ih h)

/-- A walk succeeds exactly where the names lead. -/
theorem walk_eq_ok_iff :
    tree.walk ending links directory steps = .ok target ↔ tree.Leads ending links directory steps target := by
  refine ⟨leads_of_walk, fun h => ?_⟩
  induction h with
  | here => rw [walk]
  | stay stay _ ih => rw [walk_stay stay, ih]
  | up _ ih => rw [walk_up, ih]
  | free name found | file name found => rw [walk_name name, found]; exact if_pos rfl
  | kept keep name found => rw [walk_name name, found]; exact if_pos ⟨rfl, keep⟩
  | enter name found _ ih => rw [walk_name name, found]; exact ih
  | follow name found goes _ ih => rw [walk_name name, found]; exact (if_neg goes).trans ih

private theorem walk_last (name : IsName .keep step []) : tree.walk .keep links directory [step] =
    .ok ((tree.get? (directory ++ [step])).elim (.free directory step) (.entry (directory ++ [step]))) := by
  rw [walk_name name]
  rcases tree.get? (directory ++ [step]) with _ | ⟨_ | _ | _⟩
  · rfl
  · rfl
  · rw [walk]
    rfl
  · exact if_pos ⟨rfl, rfl⟩

/-! ### Places -/

namespace Leads

/-- A target that is no directory stands, or is free, under its names. -/
theorem get?_names (h : tree.Leads ending links directory steps target) (ne : target.entry? ≠ some .directory) :
    tree.get? target.names = target.entry? := by
  induction h with
  | here => exact absurd rfl ne
  | stay _ _ ih | up _ ih | enter _ _ _ ih | follow _ _ _ _ ih => exact ih ne
  | free _ found | file _ found | kept _ _ found => exact found

private theorem tail {step : String} {steps : List String} (last : (step :: steps).getLast? ≠ some "") :
    steps.getLast? ≠ some "" := by
  cases steps with
  | nil => simp
  | cons => rwa [List.getLast?_cons_cons] at last

/-- Steps that lead to a free name lead there also where a file is made. -/
theorem created {place : List String} {name : String}
    (h : tree.Leads .keep links directory steps (.free place name)) (last : steps.getLast? ≠ some "") :
    tree.Leads .create links directory steps (.free place name) := by
  have made {step : String} {steps : List String} (isName : IsName .keep step steps)
      (last : (step :: steps).getLast? ≠ some "") : IsName .create step steps := by
    refine ⟨isName.not_stay, isName.not_up, ?_, isName.size_le⟩
    rintro ⟨-, rfl⟩
    exact last rfl
  generalize e : Target.free place name = target at h
  induction h with
  | here | file | kept => cases e
  | stay stay _ ih => exact .stay stay (ih (tail last) e)
  | up _ ih => exact .up (ih (tail last) e)
  | free isName found =>
    cases e
    exact .free (made isName last) found
  | enter isName found _ ih => exact .enter (made isName last) found (ih (tail last) e)
  | @follow links directory steps step path target isName found goes _ ih =>
    have more : steps ≠ [] := fun none => goes ⟨none, rfl⟩
    rw [List.getLast?_append_of_ne_nil _ more] at ih
    exact .follow (made isName last) found nofun (ih (tail last) e)

/-! ### Changes -/

/-- One entry, which is no directory, is now a file, and what else has changed are files that the walk does not end at.
The walk ends where it did; it stops at the new file if it went through a link there. -/
theorem walk_changed {place : List String} {bytes : List UInt8} (h : tree.Leads .keep links directory steps target)
    (ne : target.entry? ≠ some .directory) (before : tree.get? place ≠ some .directory)
    (now : other.get? place = some (.file bytes))
    (same : ∀ names, names ≠ place → (names = target.names ∨ ∀ b, tree.get? names ≠ some (.file b)) →
      other.get? names = tree.get? names) :
    other.walk .keep links directory steps =
        .ok (if target.names = place then .entry place (.file bytes) else target) ∨
      other.walk .keep links directory steps = .error .notADirectory ∧
        ∃ path, tree.get? place = some (.link path) := by
  -- at the last name, the entry there is the new file or what it was
  have ends {links : Nat} {directory : List String} {step : String} {target : Target} (name : IsName .keep step [])
      (names : target.names = directory ++ [step])
      (found : target = (tree.get? target.names).elim (.free directory step) (.entry target.names))
      (same : target.names ≠ place → other.get? target.names = tree.get? target.names) :
      other.walk .keep links directory [step] =
        .ok (if target.names = place then .entry place (.file bytes) else target) := by
    rw [walk_last name, ← names]
    by_cases e : target.names = place
    · rw [if_pos e, e, now]
      rfl
    · rw [if_neg e, same e, ← found]
  induction h with
  | here => exact absurd rfl ne
  | stay stay _ ih =>
    rw [walk_stay stay]
    exact ih ne same
  | up _ ih =>
    rw [walk_up]
    exact ih ne same
  | free name found | file name found | kept _ name found =>
    refine .inl (ends name rfl ?_ fun e => same _ e (.inl rfl))
    rw [Target.names, found]
    rfl
  | @enter links directory steps step target name found _ ih =>
    have elsewhere : directory ++ [step] ≠ place := fun e => before (e ▸ found)
    rw [walk_name name, same _ elsewhere (.inr (by simp [found])), found]
    exact ih ne same
  | @follow links directory steps step path target name found goes _ ih =>
    by_cases e : directory ++ [step] = place
    · right
      rw [walk_name name, e, now]
      exact ⟨if_neg fun none => goes ⟨none, rfl⟩, path, e ▸ found⟩
    · rw [walk_name name, same _ e (.inr (by simp [found])), found]
      rcases ih ne same with h | ⟨h, link⟩
      · exact .inl ((if_neg goes).trans h)
      · exact .inr ⟨(if_neg goes).trans h, link⟩

end Leads

end FileTree

end ClassCensus
