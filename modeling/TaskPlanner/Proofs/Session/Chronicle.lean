import TaskPlanner.Proofs.Execution.Retirement
import TaskPlanner.Proofs.Plan.Editing
import TaskPlanner.Proofs.Session.Progress

/-! The life of a session. Its plan is filled, handed out, closed and filled again, while the
executions go on in any order. What was executed before the plan was closed is barred from later
plans, but nothing is known of what was still running then. -/

set_option autoImplicit false

namespace TaskPlanner

/-- The execution took one call or none. -/
def Execution.Becomes (execution next : Execution) : Prop :=
  next = execution ∨ ∃ node?, execution.Step node? next

theorem Execution.Valid.schedule_of_becomes {execution next : Execution} (valid : execution.Valid)
    (becomes : execution.Becomes next) : next.schedule = execution.schedule := by
  rcases becomes with rfl | ⟨_, step⟩
  · rfl
  · exact (valid.step step).2.1

theorem Execution.Valid.executedItems_subset_of_becomes {execution next : Execution}
    (valid : execution.Valid) (becomes : execution.Becomes next) :
    execution.executedItems ⊆ next.executedItems := by
  rcases becomes with rfl | ⟨_, step⟩
  · exact List.Subset.refl _
  · exact valid.executedItems_subset step

namespace Session

variable {session next before later : Session} {number : Nat} {execution : Execution}

/-! ## Calls -/

/-- A call of a session. -/
inductive Call where
  | edit (edit : Plan.Edit)
  | finalize
  | close
  | select (number : Nat)
  | finish (number : Nat) (item : WorkItem) (outcome : TaskOutcome)
  | stop (number : Nat)

/-- The session behind a call. A call of an execution that does not exist changes nothing. -/
def after (session : Session) : Call → Session
  | .edit edit => { session with plan := session.plan.edited edit }
  | .finalize => session.finalize.2
  | .close => session.close
  | .select number => ((session.select number).map (·.2)).getD session
  | .finish number item outcome => ((session.finish number item outcome).map (·.2)).getD session
  | .stop number => session.stop number

/-- The items that are running when the plan is closed. -/
def interrupted (session : Session) : List WorkItem :=
  if session.plan.isFinalized then
    (session.executions.getLast?.map (·.itemsIn .running)).getD []
  else []

theorem Reachable.after (reachable : session.Reachable) (call : Call) :
    (session.after call).Reachable := by
  cases call with
  | edit edit => exact .replan reachable (reachable.valid.plan.edited edit)
  | finalize => exact .finalize reachable
  | close => exact .close reachable
  | select number =>
      cases selected : session.select number with
      | none => simpa [Session.after, selected] using reachable
      | some result => simpa [Session.after, selected] using Reachable.select reachable selected
  | finish number item outcome =>
      cases finished : session.finish number item outcome with
      | none => simpa [Session.after, finished] using reachable
      | some result => simpa [Session.after, finished] using Reachable.finish reachable finished
  | stop number => exact .stop number reachable

/-- The executions are the same, but for a call of each. -/
structure Evolves (before later : Session) : Prop where
  length : later.executions.length = before.executions.length
  executions : ∀ (number : Nat) (execution : Execution),
    before.executions[number]? = some execution →
      ∃ next, later.executions[number]? = some next ∧ execution.Becomes next

theorem evolves_of_executions_eq (same : later.executions = before.executions) :
    before.Evolves later :=
  ⟨congrArg List.length same, fun _ execution present =>
    ⟨execution, same ▸ present, .inl rfl⟩⟩

theorem Evolves.exists_before (evolves : before.Evolves later)
    (present : later.executions[number]? = some execution) :
    ∃ earlier, before.executions[number]? = some earlier ∧ earlier.Becomes execution := by
  have inside := (List.getElem?_eq_some_iff.mp present).1
  rw [evolves.length] at inside
  obtain ⟨next, found, becomes⟩ :=
    evolves.executions number before.executions[number] (List.getElem?_eq_getElem inside)
  rw [present] at found
  cases found
  exact ⟨_, List.getElem?_eq_getElem inside, becomes⟩

theorem evolves_of_set {changed : Execution} (present : session.executions[number]? = some execution)
    (becomes : execution.Becomes changed)
    (same : later.executions = session.executions.set number changed) : session.Evolves later := by
  have inside := (List.getElem?_eq_some_iff.mp present).1
  constructor
  · rw [same, List.length_set]
  · intro other earlier listed
    rw [same]
    by_cases here : number = other
    · subst here
      rw [present] at listed
      cases listed
      exact ⟨changed, List.getElem?_set_self inside, becomes⟩
    · rw [List.getElem?_set_ne here]
      exact ⟨earlier, listed, .inl rfl⟩

theorem evolves_select (session : Session) (number : Nat) :
    session.Evolves (session.after (.select number)) ∧
      (session.after (.select number)).plan = session.plan := by
  cases selected : session.select number with
  | none =>
      have same : session.after (.select number) = session := by simp [Session.after, selected]
      rw [same]
      exact ⟨evolves_of_executions_eq rfl, rfl⟩
  | some answer =>
      simp only [Session.after, selected, Option.map_some, Option.getD_some]
      obtain ⟨execution, present, selects⟩ := Option.map_eq_some_iff.mp selected
      generalize outcome : execution.select session.locks = result at selects
      obtain ⟨chosen, changed, locks⟩ := result
      cases selects
      exact ⟨evolves_of_set present (.inr ⟨_, .select outcome⟩) rfl, rfl⟩

theorem evolves_finish (session : Session) (number : Nat) (item : WorkItem)
    (outcome : TaskOutcome) :
    session.Evolves (session.after (.finish number item outcome)) ∧
      (session.after (.finish number item outcome)).plan = session.plan := by
  cases finished : session.finish number item outcome with
  | none =>
      have same : session.after (.finish number item outcome) = session := by
        simp [Session.after, finished]
      rw [same]
      exact ⟨evolves_of_executions_eq rfl, rfl⟩
  | some answer =>
      simp only [Session.after, finished, Option.map_some, Option.getD_some]
      obtain ⟨execution, present, finishes⟩ := Option.map_eq_some_iff.mp finished
      split at finishes
      next =>
        cases finishes
        exact ⟨evolves_of_executions_eq rfl, rfl⟩
      next changed locks notifications done =>
        cases finishes
        exact ⟨evolves_of_set present (.inr ⟨_, .finish done⟩) rfl, rfl⟩

theorem evolves_stop (session : Session) (number : Nat) :
    session.Evolves (session.stop number) := by
  cases present : session.executions[number]? with
  | none =>
      apply evolves_of_executions_eq
      exact List.modify_eq_self (List.getElem?_eq_none_iff.mp present)
  | some execution =>
      refine evolves_of_set present (.inr ⟨_, .close⟩) ?_
      show session.executions.modify number Execution.close = _
      rw [List.modify_eq_set_getElem?, present]
      rfl

theorem evolves_close (session : Session) : session.Evolves session.close := by
  rcases session.close_cases with ⟨_, execution, present, closed⟩ | ⟨_, closed⟩
  · rw [closed]
    exact evolves_of_set present (.inr ⟨_, .close⟩) rfl
  · rw [closed]
    exact evolves_of_executions_eq rfl

theorem finalize_cases (unfinalized : session.plan.isFinalized = false) :
    session.finalize.2.plan = session.plan.finalize.plan ∧
      ((∃ error, session.plan.finalize.result = .error error ∧
          session.finalize.1 = .error error ∧
          session.finalize.2.executions = session.executions) ∨
        ∃ schedule, session.plan.finalize.result = .ok schedule ∧
          session.finalize.1 = .ok session.executions.length ∧
          session.finalize.2.executions = session.executions ++
            [Execution.start session.plan.finalize.plan.name schedule
              (.ofContinue session.plan.finalize.plan.continueOnFailure)
              session.plan.finalize.plan.handlers]) := by
  unfold Session.finalize
  rw [if_neg (Bool.eq_false_iff.mp unfinalized)]
  dsimp only
  split
  next error failed => exact ⟨rfl, .inl ⟨error, failed, rfl, rfl⟩⟩
  next schedule finalized => exact ⟨rfl, .inr ⟨schedule, finalized, rfl, rfl⟩⟩

/-- No call takes an execution away. -/
theorem exists_becomes (session : Session) (call : Call)
    (present : session.executions[number]? = some execution) :
    ∃ next, (session.after call).executions[number]? = some next ∧ execution.Becomes next := by
  cases call with
  | edit => exact ⟨execution, present, .inl rfl⟩
  | finalize =>
      show ∃ next, session.finalize.2.executions[number]? = some next ∧ execution.Becomes next
      cases unfinalized : session.plan.isFinalized with
      | true =>
          unfold Session.finalize
          rw [if_pos unfinalized]
          exact ⟨execution, present, .inl rfl⟩
      | false =>
          obtain ⟨_, ⟨_, _, _, same⟩ | ⟨_, _, _, grown⟩⟩ := finalize_cases unfinalized
          · exact ⟨execution, same ▸ present, .inl rfl⟩
          · have inside := (List.getElem?_eq_some_iff.mp present).1
            rw [grown, List.getElem?_append_left inside]
            exact ⟨execution, present, .inl rfl⟩
  | close => exact session.evolves_close.executions number execution present
  | select other => exact (session.evolves_select other).1.executions number execution present
  | finish other item outcome =>
      exact (session.evolves_finish other item outcome).1.executions number execution present
  | stop other => exact (session.evolves_stop other).executions number execution present

end Session

/-! ## Chronicles -/

/-- A session with what is told of its calls. -/
structure Chronicle where
  session : Session
  /-- The items that were running when the plan was closed. -/
  late : List WorkItem := []
  /-- The items that were planted as seeds since the plan was last closed. -/
  seeded : List WorkItem := []
  /-- The items that since then were asked about in vain or cut off. -/
  lost : List WorkItem := []

namespace Chronicle

open Session (Call)

variable {chronicle : Chronicle} {session : Session} {execution next : Execution}
  {number : Nat} {seeded lost : List WorkItem}

def after (chronicle : Chronicle) (call : Call) : Chronicle :=
  let session := chronicle.session.after call
  match call with
  | .edit edit =>
      { chronicle with
        session
        seeded := chronicle.seeded ++ chronicle.session.plan.seededBy edit
        lost := chronicle.lost ++ chronicle.session.plan.lostBy edit }
  | .close => { session, late := chronicle.late ++ chronicle.session.interrupted }
  | _ => { chronicle with session }

@[simp] theorem session_after (chronicle : Chronicle) (call : Call) :
    (chronicle.after call).session = chronicle.session.after call := by
  cases call <;> rfl

def afterAll (chronicle : Chronicle) (calls : List Call) : Chronicle := calls.foldl after chronicle

/-- The chronicle of a new session that takes the given calls. -/
def ofCalls (name : String) (calls : List Call) : Chronicle :=
  afterAll { session := { plan := { name } } } calls

/-- The plan has left the execution behind. What it has executed cannot run, and only the items that
were running when the plan was closed may be missing. -/
structure HasRetired (chronicle : Chronicle) (execution : Execution) : Prop where
  retired : execution.IsRetired
  running : execution.itemsIn .running ⊆ chronicle.late
  executed : ∀ item ∈ execution.executedItems,
    (chronicle.session.plan.node item).cannotRun = true ∨ item ∈ chronicle.late

/-- What holds of a session between two calls, in the light of the calls before. While the plan is
finalized, it has left all executions behind but the last one. -/
structure Sound (chronicle : Chronicle) : Prop where
  reachable : chronicle.session.Reachable
  accounts : chronicle.session.plan.Accounts chronicle.seeded chronicle.lost
  barred : ∀ item, (chronicle.session.plan.node item).cannotRun = true →
    ∃ (number : Nat) (execution : Execution),
      chronicle.session.executions[number]? = some execution ∧ item ∈ execution.executedItems
  stopped : ∀ (number : Nat) (execution : Execution),
    chronicle.session.executions[number]? = some execution →
      execution.isClosed = true → execution.IsRetired
  retired : ∀ (number : Nat) (execution : Execution),
    chronicle.session.executions[number]? = some execution →
      (chronicle.session.plan.isFinalized = true →
        number + 1 < chronicle.session.executions.length) → chronicle.HasRetired execution

theorem Sound.hasRetired (sound : chronicle.Sound)
    (unfinalized : chronicle.session.plan.isFinalized = false)
    (present : chronicle.session.executions[number]? = some execution) :
    chronicle.HasRetired execution := by
  apply sound.retired number execution present
  intro finalized
  rw [unfinalized] at finalized
  cases finalized

theorem HasRetired.becomes {later : Chronicle} (has : chronicle.HasRetired execution)
    (valid : execution.Valid) (becomes : execution.Becomes next)
    (barred : ∀ item, (chronicle.session.plan.node item).cannotRun = true →
      (later.session.plan.node item).cannotRun = true)
    (late : chronicle.late ⊆ later.late) : later.HasRetired next := by
  have known : ∀ item ∈ execution.executedItems,
      (later.session.plan.node item).cannotRun = true ∨ item ∈ later.late :=
    fun item executed => (has.executed item executed).imp (barred item) (late ·)
  rcases becomes with rfl | ⟨_, step⟩
  · exact ⟨has.retired, List.Subset.trans has.running late, known⟩
  · refine ⟨valid.isRetired_step step has.retired, ?_, ?_⟩
    · intro item running
      exact late (has.running (valid.running_subset step has.retired running))
    · intro item executed
      rcases valid.executedItems_cases step has.retired executed with earlier | running
      · exact known item earlier
      · exact .inr (late (has.running running))

theorem Sound.exists_executed (sound : chronicle.Sound)
    (evolves : chronicle.session.Evolves session) {item : WorkItem}
    (barred : (chronicle.session.plan.node item).cannotRun = true) :
    ∃ (number : Nat) (execution : Execution),
      session.executions[number]? = some execution ∧ item ∈ execution.executedItems := by
  obtain ⟨number, execution, present, executed⟩ := sound.barred item barred
  obtain ⟨next, found, becomes⟩ := evolves.executions number execution present
  have valid := sound.reachable.valid.executions_at present
  exact ⟨number, next, found, valid.executedItems_subset_of_becomes becomes executed⟩

theorem Sound.isRetired_of_isClosed (sound : chronicle.Sound)
    (evolves : chronicle.session.Evolves session)
    (present : session.executions[number]? = some next) (closed : next.isClosed = true) :
    next.IsRetired := by
  obtain ⟨execution, listed, becomes⟩ := evolves.exists_before present
  have stopped := sound.stopped number execution listed
  rcases becomes with rfl | ⟨_, step⟩
  · exact stopped closed
  · exact (sound.reachable.valid.executions_at listed).isRetired_of_isClosed step stopped closed

/-- What neither hands the plan out nor closes it leaves everything as it is. -/
theorem Sound.evolve (sound : chronicle.Sound) (reachable : session.Reachable)
    (evolves : chronicle.session.Evolves session) (accounts : session.plan.Accounts seeded lost)
    (cannotRun : ∀ item, (session.plan.node item).cannotRun =
      (chronicle.session.plan.node item).cannotRun)
    (isFinalized : session.plan.isFinalized = chronicle.session.plan.isFinalized) :
    Sound { session, late := chronicle.late, seeded, lost } := by
  refine ⟨reachable, accounts, ?_, ?_, ?_⟩
  · intro item barred
    exact sound.exists_executed evolves ((cannotRun item).symm.trans barred)
  · intro number next present
    exact sound.isRetired_of_isClosed evolves present
  · intro number next present past
    obtain ⟨execution, listed, becomes⟩ := evolves.exists_before present
    dsimp only at past
    rw [isFinalized, evolves.length] at past
    apply (sound.retired number execution listed past).becomes
      (sound.reachable.valid.executions_at listed) becomes
    · intro item barred
      exact (cannotRun item).trans barred
    · exact List.Subset.refl _

theorem Sound.edit (sound : chronicle.Sound) (edit : Plan.Edit) :
    (chronicle.after (.edit edit)).Sound := by
  apply sound.evolve
  · exact sound.reachable.after (.edit edit)
  · exact Session.evolves_of_executions_eq rfl
  · exact sound.accounts.edited sound.reachable.valid.plan edit
  · exact chronicle.session.plan.cannotRun_edited edit
  · exact chronicle.session.plan.isFinalized_edited edit

theorem Sound.execute (sound : chronicle.Sound) (reachable : session.Reachable)
    (evolves : chronicle.session.Evolves session) (same : session.plan = chronicle.session.plan) :
    Sound { chronicle with session } := by
  apply sound.evolve reachable evolves
  · rw [same]
    exact sound.accounts
  · intro item
    rw [same]
  · rw [same]

theorem Sound.finalize_in_vain (sound : chronicle.Sound)
    (unfinalized : chronicle.session.plan.isFinalized = false) {error : PlanError}
    (failed : chronicle.session.plan.finalize.result = .error error)
    (plan : chronicle.session.finalize.2.plan = chronicle.session.plan.finalize.plan)
    (executions : chronicle.session.finalize.2.executions = chronicle.session.executions) :
    (chronicle.after .finalize).Sound := by
  apply sound.evolve (sound.reachable.after .finalize)
  · exact Session.evolves_of_executions_eq executions
  · show chronicle.session.finalize.2.plan.Accounts chronicle.seeded chronicle.lost
    rw [plan]
    exact sound.accounts.finalize.1
  · intro item
    show (chronicle.session.finalize.2.plan.node item).cannotRun = _
    rw [plan]
    exact chronicle.session.plan.cannotRun_finalize item
  · show chronicle.session.finalize.2.plan.isFinalized = _
    rw [plan, unfinalized, ← Bool.not_eq_true]
    intro finalized
    obtain ⟨_, succeeded⟩ := (Plan.isFinalized_finalize unfinalized).mp finalized
    rw [failed] at succeeded
    cases succeeded

/-- The new execution comes last, so the plan has left behind all executions in front of it. -/
theorem Sound.hand_out (sound : chronicle.Sound)
    (unfinalized : chronicle.session.plan.isFinalized = false) {schedule : Schedule}
    (succeeded : chronicle.session.plan.finalize.result = .ok schedule)
    (plan : chronicle.session.finalize.2.plan = chronicle.session.plan.finalize.plan)
    (executions : chronicle.session.finalize.2.executions = chronicle.session.executions ++
      [Execution.start chronicle.session.plan.finalize.plan.name schedule
        (.ofContinue chronicle.session.plan.finalize.plan.continueOnFailure)
        chronicle.session.plan.finalize.plan.handlers]) : (chronicle.after .finalize).Sound := by
  have accounts := sound.accounts.finalize.1
  have cannotRun := chronicle.session.plan.cannotRun_finalize
  have finalized := (Plan.isFinalized_finalize unfinalized).mpr ⟨schedule, succeeded⟩
  rw [← plan] at accounts cannotRun finalized
  refine ⟨sound.reachable.after .finalize, accounts, ?_, ?_, ?_⟩
  · intro item barred
    obtain ⟨number, execution, present, executed⟩ :=
      sound.barred item ((cannotRun item).symm.trans barred)
    have inside := (List.getElem?_eq_some_iff.mp present).1
    refine ⟨number, execution, ?_, executed⟩
    show chronicle.session.finalize.2.executions[number]? = some execution
    rw [executions, List.getElem?_append_left inside]
    exact present
  · intro number execution present closed
    change chronicle.session.finalize.2.executions[number]? = some execution at present
    rw [executions, List.getElem?_append] at present
    split at present
    · exact sound.stopped number execution present closed
    · cases List.mem_singleton.mp (List.mem_of_getElem? present)
      rw [Execution.isClosed_start] at closed
      cases closed
  · intro number execution present past
    have inside := past finalized
    change chronicle.session.finalize.2.executions[number]? = some execution at present
    change number + 1 < chronicle.session.finalize.2.executions.length at inside
    rw [executions, List.length_append, List.length_singleton,
      Nat.add_lt_add_iff_right] at inside
    rw [executions, List.getElem?_append_left inside] at present
    apply (sound.hasRetired unfinalized present).becomes
      (sound.reachable.valid.executions_at present) (.inl rfl)
    · intro item barred
      exact (cannotRun item).trans barred
    · exact List.Subset.refl _

theorem Sound.finalize (sound : chronicle.Sound) : (chronicle.after .finalize).Sound := by
  cases unfinalized : chronicle.session.plan.isFinalized with
  | true =>
      have same : chronicle.after .finalize = chronicle := by
        simp [Chronicle.after, Session.after, Session.finalize, unfinalized]
      rw [same]
      exact sound
  | false =>
      obtain ⟨plan, ⟨_, failed, _, executions⟩ | ⟨_, succeeded, _, executions⟩⟩ :=
        Session.finalize_cases unfinalized
      · exact sound.finalize_in_vain unfinalized failed plan executions
      · exact sound.hand_out unfinalized succeeded plan executions

theorem hasRetired_close {later : Chronicle} (valid : execution.Valid)
    (stopped : execution.isClosed = true → execution.IsRetired)
    (barred : ∀ item ∈ execution.executedItems, (later.session.plan.node item).cannotRun = true)
    (late : execution.itemsIn .running ⊆ later.late) : later.HasRetired execution.close := by
  refine ⟨valid.isRetired_close stopped, ?_, ?_⟩
  · exact List.Subset.trans valid.running_close_subset late
  · intro item executed
    exact .inl (barred item (valid.executedItems_close_subset executed))

theorem interrupted_eq {session : Session} {execution : Execution}
    (finalized : session.plan.isFinalized = true)
    (present : session.executions[session.executions.length - 1]? = some execution) :
    session.interrupted = execution.itemsIn .running := by
  unfold Session.interrupted
  rw [if_pos finalized, List.getLast?_eq_getElem?, present]
  rfl

/-- Closing a plan that was not handed out closes no execution. -/
theorem Sound.close_unused (sound : chronicle.Sound)
    (unused : chronicle.session.plan.isFinalized = true → chronicle.session.executions = [])
    (closed : chronicle.session.close = { chronicle.session with
      plan := chronicle.session.plan.close [] }) : (chronicle.after .close).Sound := by
  have evolves : chronicle.session.Evolves (chronicle.after .close).session :=
    chronicle.session.evolves_close
  have barred : ∀ item, ((chronicle.after .close).session.plan.node item).cannotRun =
      (chronicle.session.plan.node item).cannotRun := by
    intro item
    show (chronicle.session.close.plan.node item).cannotRun = _
    rw [closed]
    exact Plan.cannotRun_close _ _ item
  refine ⟨sound.reachable.after .close, ?_, ?_, ?_, ?_⟩
  · show chronicle.session.close.plan.Accounts [] []
    rw [closed]
    exact sound.accounts.close nofun
  · intro item mark
    exact sound.exists_executed evolves ((barred item).symm.trans mark)
  · intro number next listed
    exact sound.isRetired_of_isClosed evolves listed
  · intro number next listed _
    obtain ⟨earlier, before, becomes⟩ := evolves.exists_before listed
    have has := sound.retired number earlier before fun finalized => by
      rw [unused finalized] at before
      cases before
    apply has.becomes (sound.reachable.valid.executions_at before) becomes
    · intro item mark
      exact (barred item).trans mark
    · exact List.subset_append_left _ _

/-- Closing a plan that was handed out closes its execution and bars what this has executed. -/
theorem Sound.close_handed_out (sound : chronicle.Sound)
    (finalized : chronicle.session.plan.isFinalized = true)
    (present : chronicle.session.executions[chronicle.session.executions.length - 1]? =
      some execution)
    (closed : chronicle.session.close = { chronicle.session with
      plan := chronicle.session.plan.close execution.executedItems
      executions := chronicle.session.executions.set (chronicle.session.executions.length - 1)
        execution.close }) : (chronicle.after .close).Sound := by
  have valid := sound.reachable.valid.executions_at present
  have evolves : chronicle.session.Evolves (chronicle.after .close).session :=
    chronicle.session.evolves_close
  have barred : ∀ item, ((chronicle.after .close).session.plan.node item).cannotRun =
      (decide (item ∈ execution.executedItems) ||
        (chronicle.session.plan.node item).cannotRun) := by
    intro item
    show (chronicle.session.close.plan.node item).cannotRun = _
    rw [closed]
    exact Plan.cannotRun_close _ _ item
  have inside := (List.getElem?_eq_some_iff.mp present).1
  refine ⟨sound.reachable.after .close, ?_, ?_, ?_, ?_⟩
  · show chronicle.session.close.plan.Accounts [] []
    rw [closed]
    exact sound.accounts.close fun item => Execution.isMarker_of_mem_executedItems
  · intro item mark
    rw [barred, Bool.or_eq_true, decide_eq_true_eq] at mark
    rcases mark with executed | earlier
    · obtain ⟨next, found, becomes⟩ := evolves.executions _ execution present
      exact ⟨_, next, found, valid.executedItems_subset_of_becomes becomes executed⟩
    · exact sound.exists_executed evolves earlier
  · intro number next listed
    exact sound.isRetired_of_isClosed evolves listed
  · intro number next listed _
    by_cases last : number = chronicle.session.executions.length - 1
    · subst last
      change chronicle.session.close.executions[_]? = some next at listed
      rw [closed] at listed
      dsimp only at listed
      rw [List.getElem?_set_self inside] at listed
      cases listed
      apply hasRetired_close valid (sound.stopped _ execution present)
      · intro item executed
        rw [barred, decide_eq_true executed, Bool.true_or]
      · intro item running
        rw [← interrupted_eq finalized present] at running
        exact List.mem_append_right _ running
    · obtain ⟨earlier, before, becomes⟩ := evolves.exists_before listed
      have listed := (List.getElem?_eq_some_iff.mp before).1
      apply (sound.retired number earlier before fun _ => by omega).becomes
        (sound.reachable.valid.executions_at before) becomes
      · intro item mark
        rw [barred, mark, Bool.or_true]
      · exact List.subset_append_left _ _

theorem Sound.close (sound : chronicle.Sound) : (chronicle.after .close).Sound := by
  rcases chronicle.session.close_cases with
    ⟨finalized, execution, present, closed⟩ | ⟨unused, closed⟩
  · exact sound.close_handed_out finalized present closed
  · exact sound.close_unused unused closed

theorem Sound.after (sound : chronicle.Sound) (call : Call) : (chronicle.after call).Sound := by
  have reachable := sound.reachable.after call
  cases call with
  | edit edit => exact sound.edit edit
  | finalize => exact sound.finalize
  | close => exact sound.close
  | select number =>
      obtain ⟨evolves, plan⟩ := chronicle.session.evolves_select number
      exact sound.execute reachable evolves plan
  | finish number item outcome =>
      obtain ⟨evolves, plan⟩ := chronicle.session.evolves_finish number item outcome
      exact sound.execute reachable evolves plan
  | stop number => exact sound.execute reachable (chronicle.session.evolves_stop number) rfl

theorem Sound.afterAll (sound : chronicle.Sound) (calls : List Call) :
    (chronicle.afterAll calls).Sound := by
  induction calls generalizing chronicle with
  | nil => exact sound
  | cons call rest ih => exact ih (sound.after call)

theorem sound_ofCalls (name : String) (calls : List Call) : (ofCalls name calls).Sound := by
  apply Sound.afterAll
  exact ⟨.new (.new name), Plan.accounts_new name, nofun, nofun, nofun⟩

theorem ofCalls_append (name : String) (calls later : List Call) (call : Call) :
    ofCalls name (calls ++ call :: later) = ((ofCalls name calls).after call).afterAll later :=
  List.foldl_append

/-! ## What is handed out -/

/-- An execution keeps its schedule. -/
theorem Sound.exists_afterAll (sound : chronicle.Sound)
    (present : chronicle.session.executions[number]? = some execution) (calls : List Call) :
    ∃ last, (chronicle.afterAll calls).session.executions[number]? = some last ∧
      last.schedule = execution.schedule := by
  induction calls generalizing chronicle execution with
  | nil => exact ⟨execution, present, rfl⟩
  | cons call rest ih =>
      obtain ⟨next, found, becomes⟩ := chronicle.session.exists_becomes call present
      rw [← session_after] at found
      have kept := (sound.reachable.valid.executions_at present).schedule_of_becomes becomes
      obtain ⟨last, listed, same⟩ := ih (sound.after call) found
      exact ⟨last, listed, same.trans kept⟩

/-- The schedule of an execution is that of its plan, whatever became of the plan since. -/
theorem Sound.keepsTo (sound : chronicle.Sound)
    (unfinalized : chronicle.session.plan.isFinalized = false)
    (finalized : chronicle.session.finalize.1 = .ok number) {calls : List Call}
    (present : ((chronicle.after .finalize).afterAll calls).session.executions[number]? =
      some execution) :
    execution.schedule.KeepsTo chronicle.session.plan.finalize.plan.toInventory := by
  obtain ⟨_, ⟨_, _, failed, _⟩ | ⟨schedule, planned, succeeded, executions⟩⟩ :=
    Session.finalize_cases unfinalized
  · rw [finalized] at failed
    cases failed
  · rw [finalized] at succeeded
    cases succeeded
    have valid := sound.reachable.valid
    have started := @List.getElem?_concat_length _ chronicle.session.executions
      (Execution.start chronicle.session.plan.finalize.plan.name schedule
        (.ofContinue chronicle.session.plan.finalize.plan.continueOnFailure)
        chronicle.session.plan.finalize.plan.handlers)
    rw [← executions] at started
    obtain ⟨last, listed, same⟩ := sound.finalize.exists_afterAll started calls
    rw [present] at listed
    cases listed
    rw [same, (Execution.valid_start (valid.plan.wellFormed_of_finalize planned) _ _ _).2.1]
    exact sound.accounts.finalize.2 schedule planned

/-- What an execution hands out was planned, and the dependencies that were planned as well have
succeeded. -/
theorem Sound.ready (sound : chronicle.Sound)
    (unfinalized : chronicle.session.plan.isFinalized = false)
    (finalized : chronicle.session.finalize.1 = .ok number) {calls : List Call}
    {node : ScheduledNode}
    (present : ((chronicle.after .finalize).afterAll calls).session.executions[number]? =
      some execution)
    (selected : ((chronicle.after .finalize).afterAll calls).session.select number =
      some (.ready node, session)) :
    node.item.isMarker = false ∧ node.item ∈ chronicle.session.plan.finalize.plan.index ∧
      ∀ dependency ∈ chronicle.session.plan.finalize.plan.index,
        dependency ∈ (chronicle.session.plan.finalize.plan.relations node.item).dependencies →
          execution.state dependency = .succeeded := by
  obtain ⟨other, listed, selects⟩ := Option.map_eq_some_iff.mp selected
  rw [present] at listed
  cases listed
  have valid := ((sound.finalize.afterAll calls).reachable.valid).executions_at present
  generalize outcome : execution.select _ = result at selects
  obtain ⟨chosen, changed, locks⟩ := result
  cases selects
  obtain ⟨member, _, _, ready, unmarked, _⟩ := valid.ready outcome
  obtain ⟨planned, waits⟩ := sound.keepsTo unfinalized finalized present node member
  refine ⟨unmarked, planned, ?_⟩
  intro dependency listed related
  have satisfied := Execution.isReady_iff.mp ready _ (waits dependency listed related)
  exact of_decide_eq_true satisfied

end Chronicle

end TaskPlanner
