import TaskPlanner.Proofs.Session.Chronicle
import TaskPlanner.Resolver.Rows

/-! When a task runs again. What an execution has executed is barred once its plan is closed, and a
later plan does not take it up. Closing the plan overlooks tasks that are still running, and seeds
are planted even if they are barred. -/

set_option autoImplicit false

namespace TaskPlanner.Chronicle

open Session (Call)

/-- A plan that is handed out after a task was executed hands the task out again for one of two
reasons only. Either the task was running when the plan was closed and is not barred, or it is
barred and was planted as a seed. -/
theorem handed_out_again {name : String} {calls later : List Call} {number earlier : Nat}
    {execution : Execution} {node : ScheduledNode} {session : Session}
    (unfinalized : (ofCalls name calls).session.plan.isFinalized = false)
    (finalized : (ofCalls name calls).session.finalize.1 = .ok number)
    (present : (ofCalls name calls).session.executions[earlier]? = some execution)
    (executed : node.item ∈ execution.executedItems)
    (selected : (ofCalls name (calls ++ .finalize :: later)).session.select number =
      some (.ready node, session)) :
    (((ofCalls name calls).session.plan.node node.item).cannotRun = false ∧
        node.item ∈ (ofCalls name calls).late) ∨
      (((ofCalls name calls).session.plan.node node.item).cannotRun = true ∧
        node.item ∈ (ofCalls name calls).seeded) := by
  have sound := sound_ofCalls name calls
  have has := sound.hasRetired unfinalized present
  cases barred : ((ofCalls name calls).session.plan.node node.item).cannotRun with
  | false =>
      left
      refine ⟨rfl, (has.executed node.item executed).resolve_left ?_⟩
      rw [barred]
      exact Bool.noConfusion
  | true =>
      right
      rw [ofCalls_append] at selected
      obtain ⟨last, listed, _⟩ := Option.map_eq_some_iff.mp selected
      obtain ⟨_, planned, _⟩ := sound.ready unfinalized finalized listed selected
      refine ⟨rfl, sound.accounts.finalize.1.admitted.barred node.item planned ?_⟩
      exact (Plan.cannotRun_finalize _ _).trans barred

/-! ## Examples -/

/-- A task is requested, executed and, once the plan was closed, planted as a seed. -/
def replanted : List Call :=
  [.edit (.take (.ofRows []) (.tasks ["compile"] none)), .finalize, .select 0,
    .finish 0 (.task "compile") .success, .close, .edit (.seed [{ item := .task "compile" }])]

theorem handed_out_again_replanted :
    (ofCalls "build" replanted).session.finalize.1 = .ok 1 ∧
      (∃ session, (ofCalls "build" (replanted ++ [.finalize])).session.select 1 =
        some (.ready { item := .task "compile", isEntry := true }, session)) ∧
      ((ofCalls "build" replanted).session.plan.node (.task "compile")).cannotRun = true ∧
      .task "compile" ∈ (ofCalls "build" replanted).seeded := by
  have finalized : (ofCalls "build" replanted).session.finalize.1 = .ok 1 := rfl
  obtain ⟨session, selected⟩ : ∃ session,
      (ofCalls "build" (replanted ++ [.finalize])).session.select 1 =
        some (.ready { item := .task "compile", isEntry := true }, session) := ⟨_, rfl⟩
  obtain ⟨execution, present, executed⟩ : ∃ execution,
      (ofCalls "build" replanted).session.executions[0]? = some execution ∧
        .task "compile" ∈ execution.executedItems := ⟨_, rfl, by decide⟩
  refine ⟨finalized, ⟨session, selected⟩, ?_⟩
  rcases handed_out_again rfl finalized present executed selected with ⟨unbarred, _⟩ | seeded
  · cases unbarred
  · exact seeded

/-- A task is requested and runs while the plan is closed. It succeeds, and is requested again. -/
def overlooked : List Call :=
  [.edit (.take (.ofRows []) (.tasks ["compile"] none)), .finalize, .select 0, .close,
    .finish 0 (.task "compile") .success, .edit (.take (.ofRows []) (.tasks ["compile"] none))]

/-- A task that was executed may be handed out by a plan that is handed out later. -/
theorem not_at_most_once :
    ¬ ∀ (name : String) (calls later : List Call) (number earlier : Nat) (execution : Execution)
      (node : ScheduledNode) (session : Session),
      (ofCalls name calls).session.plan.isFinalized = false →
      (ofCalls name calls).session.finalize.1 = .ok number →
      (ofCalls name calls).session.executions[earlier]? = some execution →
      (ofCalls name (calls ++ .finalize :: later)).session.select number =
        some (.ready node, session) →
      node.item ∉ execution.executedItems := by
  intro once
  exact once "build" overlooked [] 1 0 _
    { item := .task "compile", group := some .first, isEntry := true } _ rfl rfl rfl rfl (by decide)

end TaskPlanner.Chronicle
