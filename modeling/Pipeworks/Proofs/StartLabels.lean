import Pipeworks.Pipeline.Career

/-!
# Start labels

`start_label_for_one_run`: a start label is that of the next run that gets past sealing, and of no other.
The queue of a pipeline holds the label that was asked for last since the run before (`Career.Kept`); a
run takes it out, whatever becomes of the run (`Pipeline.Coherent.behind_run`).
-/

namespace Pipeworks
namespace Pipeline
variable {ω ι C : Type} {p q : Pipeline ω ι C} {d : Definition ω ι C}

/-- A start label sends the run through the addressed executor, whatever the settings say. -/
theorem executor_of_startLabel {label : String} (h : p.startLabel = some label) (plan : Plan ω ι C)
    (out : Option (Marker C)) :
    p.executor plan out =
      { Executor.addressed plan p.sink p.maxJumps p.sleeper with expectedOutput := out } := by
  simp only [executor, h, Option.isSome_some, Bool.or_true, Bool.true_or, if_true]

theorem executor_of_no_startLabel (h : p.startLabel = none) (plan : Plan ω ι C) (out : Option (Marker C)) :
    p.executor plan out =
      if p.jumpsEnabled || out.isSome then
        { Executor.addressed plan p.sink p.maxJumps p.sleeper with expectedOutput := out }
      else .phased plan p.sink := by
  simp only [executor, h, Option.isSome_none, Bool.or_false]

variable [Host ω] [LocalAction ω ι C]

theorem Defines.indexOf? (hd : p.Defines d) (hl : p.Labelled) {phase : Phase} {i : Nat}
    {spec : StepSpec ω ι C} {label : String} (hs : (p.specs.get phase)[i]? = some spec)
    (hlabel : spec.label = some label) :
    ∃ n step, (Plan.ofDefinition d).indexOf? label = some n ∧ (Plan.ofDefinition d).step? n = some step ∧
      spec.BindsAt p.site phase i step := by
  obtain ⟨step, hstep, hat⟩ := (hd.steps phase).getElem? hs
  rw [Nat.zero_add] at hat
  have hmem : step ∈ d.steps.flat := ByPhase.mem_flat.2 ⟨phase, List.mem_of_getElem? hstep⟩
  obtain ⟨n, hn⟩ := List.mem_iff_getElem?.1 hmem
  have hn : (Plan.ofDefinition d).step? n = some step := ((Plan.ofDefinition d).step?_eq n).trans hn
  have hnodup : (d.steps.flat.filterMap (·.label)).Nodup := hd.labels ▸ hl.nodup_steps
  exact ⟨n, step, Plan.indexOf?_of_step? hnodup hn (hat.label.trans hlabel), hn, hat⟩

theorem Defines.begins_at (hd : p.Defines d) (hl : p.Labelled) {x : Executor ω ι C}
    (hx : x.plan = .ofDefinition d) {phase : Phase} {i : Nat} {spec : StepSpec ω ι C} {label : String}
    (hs : (p.specs.get phase)[i]? = some spec) (hlabel : spec.label = some label) (input : C)
    (s : Store ω ι) :
    ∃ t, (x.trace (some label) input s).head? = some t ∧ spec.BindsAt p.site phase i t.step ∧
      t.cursor.value = input := by
  obtain ⟨n, step, hindex, hstep, hat⟩ := hd.indexOf? hl hs hlabel
  rw [← hx] at hindex hstep
  obtain ⟨t, ht, rfl, hval⟩ := Executor.head?_trace hindex hstep
  exact ⟨t, ht, hat, hval⟩

theorem Defines.fails_at (hd : p.Defines d) {x : Executor ω ι C} (hx : x.plan = .ofDefinition d)
    {label : String} (h : label ∉ StepSpec.labels p.specs.flat) (input : C) (s : Store ω ι) :
    x.trace (some label) input s = [] ∧
      (x.execute (some label) input s).1 = .failed (.jump (.unknownLabel p.name label)) := by
  have hindex : x.plan.indexOf? label = none := hx ▸ Plan.indexOf?_eq_none (hd.labels ▸ h)
  have hname : x.plan.name = p.name := hx ▸ hd.name
  obtain ⟨htrace, hend⟩ := Executor.trace_of_error (Executor.startAt_of_unknown hindex input _)
  rw [htrace, hend, hname]
  exact ⟨rfl, rfl⟩

theorem sealPlan_of_startLabel {plan : Plan ω ι C} {s s' : Store ω ι}
    (h : p.sealPlan s = (.ok (plan, q), s')) (start : Option String) :
    { p with startLabel := start }.sealPlan s = (.ok (plan, { q with startLabel := start }), s') := by
  rcases Option.eq_none_or_eq_some p.plan with hp | ⟨plan', hp⟩
  · rcases hb : Definition.bind p.site p.policy p.handler p.specs s with ⟨e | d, t⟩
    · rw [sealPlan_of_error hp hb] at h
      cases h
    · rw [sealPlan_of_bind hp hb] at h
      cases h
      have hp' : { p with startLabel := start }.plan = none := hp
      exact sealPlan_of_bind hp' hb
  · rw [sealPlan_of_plan hp] at h
    cases h
    have hp' : { p with startLabel := start }.plan = some plan := hp
    exact sealPlan_of_plan hp' s

end Pipeline

variable {ω ι C : Type} [Host ω] [LocalAction ω ι C]

/-- The law of start labels. The queue of a pipeline holds the label that was asked for last since the
last run that got past sealing. A run that cannot be sealed leaves it there; any other one uses it up, and
leaves what it would have left with any label or with none. Without a label a run goes through the
executor of the settings, from the first step of all. With one it goes through the addressed executor
whatever the settings are: the step that carries the label is begun first, in whatever phase it is, and if
there is none the run fails before any step is begun. The turns are those that account for the run. -/
theorem start_label_for_one_run (name : String) (config : Option EngineConfig)
    (calls : List (Pipeline.Call ω ι C)) (out : Option (Marker C)) (input : C) (s : Store ω ι) :
    let c := (Career.start name config).run calls
    let p := c.pipeline
    let ts := p.turns out input s
    let r := p.execute out input s
    p.startLabel = c.asked.getLast? ∧
    (∀ e s', p.sealPlan s = (.error e, s') → r.2.1 = p ∧ ts = []) ∧
    ∀ plan q s', p.sealPlan s = (.ok (plan, q), s') →
      r.2.1 = { p with plan := some plan, startLabel := none } ∧
      (∀ start, ({ p with startLabel := start }.execute out input s).2.1 = r.2.1) ∧
      (c.asked = [] →
        let x := if p.jumpsEnabled || out.isSome then
            { Executor.addressed plan p.sink p.maxJumps p.sleeper with expectedOutput := out }
          else .phased plan p.sink
        ts = x.trace none input s' ∧ r.1 = (x.execute none input s').1 ∧
          x.Account none input s' ts (r.1, r.2.2) ∧
          (ts.head?.map fun t => (t.step, t.cursor.value)) =
            plan.definition.steps.flat.head?.map (·, input)) ∧
      ∀ label, c.asked.getLast? = some label →
        let x := { Executor.addressed plan p.sink p.maxJumps p.sleeper with expectedOutput := out }
        ts = x.trace (some label) input s' ∧ r.1 = (x.execute (some label) input s').1 ∧
          x.Account (some label) input s' ts (r.1, r.2.2) ∧
          (label ∉ StepSpec.labels p.specs.flat →
            ts = [] ∧ r.1 = .failed (.jump (.unknownLabel p.name label))) ∧
          ∀ phase i (spec : StepSpec ω ι C), (p.specs.get phase)[i]? = some spec → spec.label = some label →
            ∃ t, ts.head? = some t ∧ spec.BindsAt p.site phase i t.step ∧ t.cursor.value = input := by
  intro c p ts r
  have hkept : c.Kept := Career.kept_run name config calls
  refine ⟨hkept.startLabel, fun e s' hs => ?_, fun plan q s' hs => ?_⟩
  · exact ⟨congrArg Prod.fst (Pipeline.execute_of_error out input hs), Pipeline.turns_of_error out input hs⟩
  · obtain ⟨hpipe, hturns, hend⟩ := hkept.coherent.behind_run hs out input
    have hacc := hkept.coherent.account_turns hs out input
    change ts = _ at hturns
    change r.1 = _ at hend
    change Executor.Account _ _ _ _ ts (r.1, r.2.2) at hacc
    refine ⟨hpipe, fun start => ?_, fun hasked => ?_, fun label hasked => ?_⟩
    · have hs' := Pipeline.sealPlan_of_startLabel hs start
      obtain ⟨rfl, -⟩ := Pipeline.sealPlan_eq_ok hkept.coherent hs
      rw [hpipe]
      exact (Pipeline.runs_of_sealPlan out input hs').2.2
    · have hnone : p.startLabel = none := by
        rw [hkept.startLabel, hasked]
        rfl
      rw [hnone, Pipeline.executor_of_no_startLabel hnone] at hturns hend hacc
      refine ⟨hturns, hend, hacc, ?_⟩
      rw [hturns, Executor.head?_trace_none]
      split <;> rfl
    · have hsome : p.startLabel = some label := hkept.startLabel.trans hasked
      rw [hsome, Pipeline.executor_of_startLabel hsome] at hturns hend hacc
      obtain ⟨d, rfl, hd⟩ := hkept.coherent.defines hs
      intro x
      change ts = x.trace (some label) input s' at hturns
      change r.1 = (x.execute (some label) input s').1 at hend
      refine ⟨hturns, hend, hacc, fun hunknown => ?_, fun phase i spec hspec hlabel => ?_⟩
      · rw [hturns, hend]
        exact hd.fails_at rfl hunknown input s'
      · rw [hturns]
        exact hd.begins_at hkept.labelled rfl hspec hlabel input s'

end Pipeworks
