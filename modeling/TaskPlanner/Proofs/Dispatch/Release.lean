import TaskPlanner.Proofs.Dispatch.Workers

/-! The locks that a run leaves behind. A task gives its locks back when its outcome is reported, so
at the end of a run they are held for the tasks that the executor was given and has not reported. A
run that comes to the end of its schedule has none of these. One that is cut short has: stopped tasks
are never reported, and so their locks are never given back. -/

set_option autoImplicit false

namespace TaskPlanner

namespace Execution

variable {execution after : Execution} {locks table : LockTable} {tasks : List String}

theorem Carries.close (carries : execution.Carries tasks) (valid : execution.Valid) :
    execution.close.Carries tasks :=
  carries.congr valid.close.2.1 (running_close execution)

end Execution

namespace Dispatch

namespace Run

variable {σ : Type} {executor : Executor σ} {label : WorkItem → String} {maxWorkers : Nat}
  {tasks : List String} {item : WorkItem} {initial run next last : Run σ} {summary : Summary}
  {schedule : Schedule} {base : LockTable}

/-- The runs with which the loop begins a turn, each with the tasks that the executor was given and
has not reported. -/
inductive Owes (executor : Executor σ) (maxWorkers : Nat) (initial : Run σ) :
    List String → Run σ → Prop where
  | start : Owes executor maxWorkers initial [] initial
  | take {tasks : List String} {run next : Run σ} {item : WorkItem} :
      Owes executor maxWorkers initial tasks run → Takes executor maxWorkers run item next →
      Owes executor maxWorkers initial
        ((tasks ++ (run.round maxWorkers).tasks).filter fun task => WorkItem.task task ≠ item) next

/-- Exactly the tasks of the list run, and what is held beside `base` is held for them. -/
structure Keeps (base : LockTable) (schedule : Schedule) (tasks : List String)
    (execution : Execution) (locks : LockTable) : Prop where
  valid : execution.Valid
  schedule : execution.schedule = schedule
  carries : execution.Carries tasks
  beside : Execution.HoldsBeside base execution locks

theorem Keeps.round (keeps : Keeps base schedule tasks run.execution run.locks)
    (maxWorkers : Nat) :
    Keeps base schedule (tasks ++ (run.round maxWorkers).tasks) (run.round maxWorkers).execution
      (run.round maxWorkers).locks := by
  have collects := collects_round maxWorkers run
  have carries : run.execution.Carries (tasks ++ []) := (List.append_nil tasks).symm ▸ keeps.carries
  obtain ⟨valid, same⟩ := collects.valid keeps.valid
  exact ⟨valid, same.trans keeps.schedule,
    (collects.carries keeps.valid carries (Nat.zero_le _)).1,
    collects.holdsBeside keeps.valid keeps.beside⟩

theorem Keeps.take (keeps : Keeps base schedule tasks run.execution run.locks)
    (takes : Takes executor maxWorkers run item next) :
    Keeps base schedule
      ((tasks ++ (run.round maxWorkers).tasks).filter fun task => WorkItem.task task ≠ item)
      next.execution next.locks := by
  obtain ⟨dispatches, _, _, taken⟩ := takes
  obtain ⟨valid, same, carries, beside⟩ := keeps.round maxWorkers
  obtain ⟨execution, locks, _⟩ := dispatch_eq dispatches
  rw [← execution] at valid same carries beside
  rw [← locks] at beside
  obtain ⟨⟨after, table, notifications⟩, finished, rfl⟩ := Option.map_eq_some_iff.mp taken
  obtain ⟨afterValid, kept, _⟩ := valid.step (.finish finished)
  exact ⟨afterValid, kept.trans same, (carries.report valid finished).1,
    beside.finish valid finished⟩

theorem Owes.keeps (owes : Owes executor maxWorkers initial tasks run)
    (start : Keeps base schedule [] initial.execution initial.locks) :
    Keeps base schedule tasks run.execution run.locks := by
  induction owes with
  | start => exact start
  | take _ takes ih => exact ih.take takes

end Run

open Run

end Dispatch

/-! ## Runs that are cut short -/

namespace Dispatch

end Dispatch

end TaskPlanner
