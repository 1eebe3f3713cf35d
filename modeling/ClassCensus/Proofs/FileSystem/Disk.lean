import ClassCensus.Proofs.FileSystem.Operations

/-!
# Disks

A disk is a file tree under a system that may refuse operations, watched by others while a program works on it.

* (refusals) the system may refuse any operation, for any reason, and then nothing happens; only the removal of a file
  is never refused (`Disk.refusals`);
* (moments) every tree that others could see is kept, also those in which a file is written only in part (`Disk.seen`);
* (growth) programs that read and make directories do no more to a disk than to add directories
  (`Disk.AddsDirectories`).
-/

namespace ClassCensus

/-- A file tree that a program works on. -/
structure Disk where
  tree : FileTree
  /-- The trees that could be seen so far, the latest first. -/
  seen : List FileTree
  /-- For the operations to come, the errors with which they are refused, if they are; later ones are not refused. -/
  refusals : List (Option OsError)

namespace Disk

variable {α β : Type}

/-- The result of an operation that the system may refuse. -/
def ask (operation : StateM Disk (Except OsError α)) : StateM Disk (Except OsError α) := fun disk =>
  match disk.refusals with
  | [] => operation disk
  | none :: refusals => operation { disk with refusals }
  | some e :: refusals => (.error e, { disk with refusals })

/-- An operation that leaves the tree as it is. -/
def query (operation : FileTree → Except OsError α) : StateM Disk (Except OsError α) := fun disk =>
  (operation disk.tree, disk)

/-- An operation that changes the tree, by way of other trees, unless it fails. -/
def change (partways : FileTree → List FileTree) (operation : FileTree → Except OsError FileTree) :
    StateM Disk (Except OsError Unit) := fun disk =>
  match operation disk.tree with
  | .error e => (.error e, disk)
  | .ok tree => (.ok (), { disk with tree, seen := tree :: (partways disk.tree ++ disk.seen) })

/-- The trees in which a file holds only the first bytes of what is written to it. -/
def partlyWritten (p : Path) (bytes : List UInt8) (tree : FileTree) : List FileTree :=
  (List.range bytes.length).filterMap fun k => (tree.write p (bytes.take k)).toOption

instance : Files (StateM Disk) where
  kind p := ask (query (·.kind p))
  read p := ask (query (·.read p))
  filesBelow p := ask (query (·.filesBelow p))
  makeDirectory p := ask (change (fun _ => []) (·.makeDirectory p))
  write p bytes := ask (change (partlyWritten p bytes) (·.write p bytes))
  rename p q := ask (change (fun _ => []) (·.rename p q))
  remove p := change (fun _ => []) (·.remove p)

section NotRefused

variable {tree after : FileTree} {p q : Path} {names : List String} {bytes : List UInt8} {e : OsError}
  (seen : List FileTree)

theorem write_apply (h : tree.write p bytes = .ok after) : (Files.write p bytes : StateM Disk _) ⟨tree, seen, []⟩ =
    (.ok (), ⟨after, after :: (partlyWritten p bytes tree ++ seen), []⟩) := by
  show change (partlyWritten p bytes) (·.write p bytes) ⟨tree, seen, []⟩ = _
  rw [change, h]

theorem rename_apply (h : tree.rename p q = .ok after) :
    (Files.rename p q : StateM Disk _) ⟨tree, seen, []⟩ = (.ok (), ⟨after, after :: seen, []⟩) := by
  show change (fun _ => []) (·.rename p q) ⟨tree, seen, []⟩ = _
  rw [change, h]
  rfl

end NotRefused

/-! ### Growth -/

/-- The tree has gained directories at most, and so has every tree that could be seen in between. -/
structure Gains (disk later : Disk) : Prop where
  tree : disk.tree.Gains later.tree
  seen : ∀ tree ∈ later.seen, tree ∈ disk.seen ∨ disk.tree.Gains tree

namespace Gains

theorem refl (disk : Disk) : disk.Gains disk :=
  ⟨.refl _, fun _ => .inl⟩

theorem trans {disk later last : Disk} (h : disk.Gains later) (h' : later.Gains last) : disk.Gains last where
  tree := h.tree.trans h'.tree
  seen tree mem := by
    rcases h'.seen tree mem with mem | gains
    · exact h.seen tree mem
    · exact .inr (h.tree.trans gains)

end Gains

/-- The program adds at most directories to a disk, whatever it is. -/
def AddsDirectories (program : StateM Disk α) : Prop :=
  ∀ disk : Disk, disk.Gains (program disk).2

namespace AddsDirectories

theorem pure (a : α) : AddsDirectories (Pure.pure a) :=
  fun disk => .refl disk

theorem bind {program : StateM Disk α} {next : α → StateM Disk β} (h : AddsDirectories program)
    (h' : ∀ a, AddsDirectories (next a)) : AddsDirectories (program >>= next) :=
  fun disk => (h disk).trans (h' _ _)

theorem mapM {γ : Type} {program : γ → StateM Disk α} (h : ∀ c, AddsDirectories (program c)) (cs : List γ) :
    AddsDirectories (cs.mapM program) := by
  induction cs with
  | nil => exact .pure _
  | cons c cs ih =>
    rw [List.mapM_cons]
    exact (h c).bind fun _ => ih.bind fun _ => .pure _

theorem ask {operation : StateM Disk (Except OsError α)} (h : AddsDirectories operation) :
    AddsDirectories (ask operation) := by
  intro disk
  unfold Disk.ask
  split
  · exact h disk
  · rename_i refusals _
    have gains := h { disk with refusals }
    exact ⟨gains.tree, gains.seen⟩
  · exact ⟨.refl _, fun _ => .inl⟩

theorem query (operation : FileTree → Except OsError α) : AddsDirectories (query operation) :=
  fun disk => .refl disk

theorem read (p : Path) : AddsDirectories (Files.read p) :=
  (query _).ask

theorem isDirectory (p : Path) : AddsDirectories (Files.isDirectory p) := by
  refine (query _).ask.bind fun kind => ?_
  split <;> exact .pure _

theorem makeDirectory (p : Path) : AddsDirectories (Files.makeDirectory p) := by
  refine ask fun disk => ?_
  unfold Disk.change
  split
  · exact .refl disk
  · rename_i tree made
    have gains := FileTree.gains_makeDirectory made
    refine ⟨gains, fun seen mem => ?_⟩
    rcases List.mem_cons.1 mem with rfl | mem
    · exact .inr gains
    · exact .inl mem

theorem makeDirectories (paths : List Path) : AddsDirectories (Files.makeDirectories paths) := by
  have made (p : Path) (result : Except OsError Unit) : AddsDirectories (Files.makeDirectories.made p result) := by
    unfold Files.makeDirectories.made
    split
    · exact .pure _
    · refine (isDirectory p).bind fun dir => ?_
      split <;> exact .pure _
  induction paths with
  | nil => exact .pure _
  | cons p above ih =>
    unfold Files.makeDirectories
    split
    · exact .pure _
    · refine (makeDirectory p).bind fun result => ?_
      split
      · exact .pure _
      · refine ih.bind fun result => ?_
        split
        · exact .pure _
        · exact (makeDirectory p).bind fun result => made p result
      · exact made p _

end AddsDirectories

end Disk

end ClassCensus
