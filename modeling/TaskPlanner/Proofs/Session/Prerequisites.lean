import TaskPlanner.Proofs.Session.Chronicle
import TaskPlanner.Resolver.Rows

/-! What became of the dependencies of an item that is handed out. A plan remembers of the plans
before it only what was executed, so there a dependency that failed counts like one that
succeeded. -/

set_option autoImplicit false

namespace TaskPlanner.Chronicle

open Session (Call)

/-- When a plan hands out an item that it did not get as a seed, each dependency of the item has
succeeded in this plan, or is not in this plan for a reason: the filter rejects it, an earlier plan
executed it, or it was lost, that is, a request asked about it in vain or it was cut off. -/
theorem dependency_cases {name : String} {calls later : List Call} {number : Nat}
    {execution : Execution} {node : ScheduledNode} {session : Session} {dependency : WorkItem}
    (unfinalized : (ofCalls name calls).session.plan.isFinalized = false)
    (finalized : (ofCalls name calls).session.finalize.1 = .ok number)
    (unseeded : node.item ∉ (ofCalls name calls).seeded)
    (related : dependency ∈
      ((ofCalls name calls).session.plan.relations node.item).dependencies)
    (present : (ofCalls name (calls ++ .finalize :: later)).session.executions[number]? =
      some execution)
    (selected : (ofCalls name (calls ++ .finalize :: later)).session.select number =
      some (.ready node, session)) :
    execution.state dependency = .succeeded ∨
      dependency ∉ (ofCalls name calls).session.plan.index ∧
        (dependency ∈ (ofCalls name calls).session.plan.filtered ∨
          (∃ (earlier : Nat) (former : Execution),
            (ofCalls name calls).session.executions[earlier]? = some former ∧
              dependency ∈ former.executedItems) ∨
          dependency ∈ (ofCalls name calls).lost) := by
  have sound := sound_ofCalls name calls
  rw [ofCalls_append] at present selected
  obtain ⟨unmarked, planned, awaited⟩ := sound.ready unfinalized finalized present selected
  obtain ⟨ordinals, marks⟩ := (ofCalls name calls).session.plan.exists_marks_finalize
  have indexed : node.item ∈ (ofCalls name calls).session.plan.index := by
    rcases (marks.index node.item).mp planned with before | ⟨ordinal, _, same⟩
    · exact before
    · rw [same] at unmarked
      cases unmarked
  by_cases listed : dependency ∈ (ofCalls name calls).session.plan.index
  · left
    apply awaited dependency ((marks.index dependency).mpr (.inl listed))
    exact (congrArg (dependency ∈ ·.dependencies) (marks.relations node.item)).mpr related
  · right
    refine ⟨listed, ?_⟩
    rcases sound.accounts.awaits node.item indexed unseeded unmarked dependency related with
      known | rejected | barred | lost
    · exact absurd known listed
    · exact .inl rejected
    · exact .inr (.inl (sound.barred dependency barred))
    · exact .inr (.inr lost)

/-! ## Examples -/

def testResolver : Resolver := .ofDeclarations [.dependency "test" "compile"]

def requestTest : Call := .edit (.take testResolver (.tasks ["test"] none))

/-- The tests in the schedule of a plan without compiling. -/
def testNode : ScheduledNode where
  item := .task "test"
  group := some .first
  isEntry := true

/-- The calls that execute the first task of a plan. -/
def compileTurn (outcome : TaskOutcome) : List Call :=
  [.select 0, .finish 0 (.task "compile") outcome]

/-- A plan that is only to compile is executed and closed. Then the tests are requested, which need
compiling. -/
def afterCompiling (outcome : TaskOutcome) : List Call :=
  [.edit (.take testResolver (.tasks ["compile"] none)), .finalize] ++ compileTurn outcome ++
    [.close, requestTest]

/-- The second plan hands out the tests without compiling, which the first one did. -/
theorem dependency_cases_test :
    (ofCalls "build" (afterCompiling .success)).session.finalize.1 = .ok 1 ∧
      ∃ former, (ofCalls "build" (afterCompiling .success)).session.executions[0]? = some former ∧
        .task "compile" ∈ former.executedItems := by
  have finalized : (ofCalls "build" (afterCompiling .success)).session.finalize.1 = .ok 1 := rfl
  obtain ⟨execution, present, unstarted⟩ : ∃ execution,
      (ofCalls "build" (afterCompiling .success ++ [.finalize])).session.executions[1]? =
        some execution ∧ execution.state (.task "compile") ≠ .succeeded := ⟨_, rfl, by decide⟩
  obtain ⟨session, selected⟩ : ∃ session,
      (ofCalls "build" (afterCompiling .success ++ [.finalize])).session.select 1 =
        some (.ready testNode, session) := ⟨_, rfl⟩
  have related : .task "compile" ∈ ((ofCalls "build"
      (afterCompiling .success)).session.plan.relations testNode.item).dependencies := by
    decide
  refine ⟨finalized, ?_⟩
  rcases dependency_cases rfl finalized (by decide) related present selected with
    succeeded | ⟨_, rejected | ⟨earlier, former, listed, executed⟩ | lost⟩
  · exact absurd succeeded unstarted
  · exact absurd rejected (by decide)
  · cases earlier with
    | zero => exact ⟨former, listed, executed⟩
    | succ earlier => cases listed
  · exact absurd lost (by decide)

/-- A task may be handed out though a dependency of it failed, and never succeeded. -/
theorem not_all_succeeded :
    ¬ ∀ (name : String) (calls later : List Call) (number : Nat) (execution : Execution)
      (node : ScheduledNode) (session : Session) (dependency : WorkItem),
      (ofCalls name calls).session.plan.isFinalized = false →
      (ofCalls name calls).session.finalize.1 = .ok number →
      node.item ∉ (ofCalls name calls).seeded →
      dependency ∈ ((ofCalls name calls).session.plan.relations node.item).dependencies →
      dependency ∉ (ofCalls name calls).session.plan.filtered →
      (ofCalls name (calls ++ .finalize :: later)).session.executions[number]? = some execution →
      (ofCalls name (calls ++ .finalize :: later)).session.select number =
        some (.ready node, session) →
      execution.state dependency = .succeeded ∨ ∃ (earlier : Nat) (former : Execution),
        earlier < number ∧
        (ofCalls name (calls ++ .finalize :: later)).session.executions[earlier]? = some former ∧
        former.state dependency = .succeeded := by
  intro all
  rcases all "build" (afterCompiling (.failed 1)) [] 1 _ testNode _ (.task "compile") rfl rfl
    (by decide) (by decide) (by decide) rfl rfl with
    succeeded | ⟨earlier, former, before, listed, succeeded⟩
  · cases succeeded
  · obtain rfl := Nat.lt_one_iff.mp before
    cases listed
    cases succeeded

/-- The tests need compiling, which a report finalizes, and a deployment of which nothing is known.
The report needs the tests. -/
def brokenRequest : Call :=
  .edit (.take (.ofDeclarations [.dependency "test" "compile", .dependency "test" "deploy",
    .finalizer "compile" "report", .dependency "report" "test", .failing "deploy"])
    (.tasks ["test"] none))

/-- The request fails, but not before compiling and its report were entered. The plan can be handed
out all the same, and hands out the report without the tests. -/
example :
    (ofCalls "build" [brokenRequest]).session.plan.index.items =
        [.task "compile", .task "report"] ∧
      .task "test" ∈ (ofCalls "build" [brokenRequest]).lost ∧
      ∃ session node, node.item = .task "report" ∧
        (ofCalls "build" ([brokenRequest] ++ .finalize :: compileTurn .success)).session.select 0 =
          some (.ready node, session) :=
  ⟨rfl, by decide, _, _, rfl, rfl⟩

end TaskPlanner.Chronicle
