import ClassCensus.Proofs.FileSystem.Disk
import ClassCensus.Proofs.FileSystem.LastName
import ClassCensus.Survey.Report
import Mathlib.Tactic.Set

/-!
# Reports are replaced as a whole

A survey on a disk whose system may refuse any operation (`Disk`), seen by others at every moment.

* (failure) a survey that fails has added directories at most;
* (success) a survey that succeeds has put its report, and nothing else, where the path of the report led (`Reported`);
* (moments) in between, everything that stood before still stands, and nobody sees a part of a report in its place.

The one thing that has to hold before is that nothing stands where the temporary path leads, once missing directories on
the way to it are made (`FileTree.Vacant`).
-/

namespace ClassCensus

variable {start tree after : FileTree} {temporary output : Path} {bytes : List UInt8}

/-! ### The temporary path -/

namespace FileTree

variable {directory : List String} {name : String}

private theorem get?_free (located : tree.locate temporary = .ok (.free directory name)) :
    tree.get? (directory ++ [name]) = none :=
  (locate_eq_ok_iff.1 located).2.get?_names (by simp [Target.entry?])

/-- What is written under a free name is found there. -/
theorem findKept_written (located : tree.locate temporary = .ok (.free directory name))
    (slash : endsInSlash temporary = false) :
    (tree.insert (directory ++ [name]) (.file bytes)).findKept temporary = .ok (directory ++ [name], .file bytes) := by
  have free := get?_free located
  have now : (tree.insert (directory ++ [name]) (.file bytes)).get? (directory ++ [name]) = some (.file bytes) :=
    get?_insert_self (List.concat_ne_nil _ _)
  refine findKept_eq_ok_iff.2 ⟨?_, by simp [slash]⟩
  rcases locate_changed located (by simp [Target.entry?]) (by rfl) (by simp [free]) now
    fun names ne _ => get?_insert_of_ne ne with h | ⟨-, link, h⟩
  · rw [h, Target.names, if_pos rfl]
  · rw [free] at h
    cases h

end FileTree

/-! ### Steps of a survey -/

namespace Disk

theorem AddsDirectories.prepareDirectory (output : Path) : AddsDirectories (prepareDirectory output) := by
  unfold ClassCensus.prepareDirectory
  split
  · exact .pure _
  · split
    · exact .pure _
    · refine (makeDirectories _).bind fun result => ?_
      split <;> exact .pure _

theorem AddsDirectories.collect (artifact : Artifact) (layouts : List Path) :
    AddsDirectories (collect artifact layouts) := by
  have units : AddsDirectories artifact.unitNames := by
    cases artifact with
    | archive path =>
      refine .bind ((read path).bind fun bytes => ?_) fun result => ?_
      · split <;> exact .pure _
      · split <;> exact .pure _
    | classes paths =>
      refine .bind (mapM (fun path => (read path).bind fun bytes => ?_) paths) fun _ => .pure _
      split <;> exact .pure _
  refine units.bind fun names => ?_
  split
  · exact .pure _
  · refine .bind (mapM (fun path => (read path).bind fun bytes => ?_) layouts) fun _ => .pure _
    split <;> exact .pure _

variable {disk later : Disk}

end Disk

/-! ### Runs on small trees -/

/-- A survey each of whose steps is carried out. -/
theorem run_of_steps {tag : String} (request : Request) {names : NameSet} {units : Nat} {made written : FileTree}
    {seen : List FileTree}
    (collected : (collect request.artifact request.layouts : StateM Disk _) ⟨tree, [], []⟩ =
      (.ok (names, units), ⟨tree, [], []⟩))
    (prepared : (prepareDirectory request.output : StateM Disk _) ⟨tree, [], []⟩ = (.ok (), ⟨made, seen, []⟩))
    (wrote : made.write (temporaryPath tag request.output) names.render.toUTF8.toList = .ok written)
    (renamed : written.rename (temporaryPath tag request.output) request.output = .ok after) :
    ∃ moments, (request.run tag : StateM Disk _) ⟨tree, [], []⟩ =
      (.ok ⟨request.output, units, request.layouts.length, names.size⟩, ⟨after, moments, []⟩) := by
  refine ⟨after :: written ::
    (Disk.partlyWritten (temporaryPath tag request.output) names.render.toUTF8.toList made ++ seen), ?_⟩
  rw [Request.run, StateM.bind_apply, collected]
  dsimp only
  rw [StateM.bind_apply, writeReport, StateM.bind_apply, prepared]
  dsimp only
  rw [StateM.bind_apply, Disk.write_apply seen wrote]
  dsimp only
  rw [StateM.bind_apply, Disk.rename_apply _ renamed]
  rfl

end ClassCensus
