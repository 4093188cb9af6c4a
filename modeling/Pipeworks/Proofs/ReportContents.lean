import Pipeworks.Keyed.Listing
import Pipeworks.Pipeline.Binding
import Pipeworks.Proofs.Agreement
import Pipeworks.Proofs.PhaseAbort
import Pipeworks.Run.Times

/-!
# Reports miss nothing

`report_misses_nothing`: the report of a step lists every step that was begun before it in its run, under its name
and with the time of its last invocation, and nothing else. The log has a timing for each turn
(`Executor.Course.timings`), and since no two steps of a plan go by one name (`Plan.position_of_name`), the
table of the report neither merges nor drops a step. A report of the last step has the errors and the flag of
the result.
-/

namespace Pipeworks

theorem Plan.position_of_name {ω ι C : Type} {d : Definition ω ι C} (hn : (d.steps.flat.map (·.name)).Nodup)
    {m n : Nat} {a b : BoundStep ω ι C} (ha : (ofDefinition d).step? m = some a)
    (hb : (ofDefinition d).step? n = some b) (hname : a.name = b.name) : m = n := by
  have hat {i : Nat} {step : BoundStep ω ι C} (h : (ofDefinition d).step? i = some step) :
      (d.steps.flat.map (·.name))[i]? = some step.name := by
    rw [List.getElem?_map, ← show _ = d.steps.flat[i]? from (ofDefinition d).step?_eq i, h]
    rfl
  have hlt : m < (d.steps.flat.map (·.name)).length := (List.getElem?_eq_some_iff.1 (hat ha)).1
  exact (List.getElem?_inj hlt hn).1 (by rw [hat ha, hat hb, hname])

/-- The latencies of a report are those of the turns: one entry for every step that was begun, under its name and
with the time of its last invocation. -/
structure Report.Lists {ω ι C : Type} (r : Report) (turns : List (Turn ω ι C)) : Prop where
  keys : ∀ k, k ∈ r.actionLatencyMs.keys ↔ ∃ u ∈ turns, u.step.name = k
  latest : ∀ before u after, turns = before ++ u :: after →
    (∀ v ∈ after, v.cursor.position ≠ u.cursor.position) →
    r.actionLatencyMs.get? u.step.name = some (milliseconds u.latency)

namespace Executor
variable {ω ι C : Type} {x : Executor ω ι C} {cur : Cursor C} {t : Turn ω ι C}
  {before after : List (Turn ω ι C)}

theorem position_of_name {d : Definition ω ι C} (hn : (d.steps.flat.map (·.name)).Nodup)
    (hplan : x.plan = .ofDefinition d) {u v : Turn ω ι C} (hu : x.Takes u) (hv : x.Takes v)
    (hname : u.step.name = v.step.name) : u.cursor.position = v.cursor.position := by
  have hsu := hu.step
  have hsv := hv.step
  rw [hplan] at hsu hsv
  exact Plan.position_of_name hn hsu hsv hname

theorem latencies_of_turns (before : List (Turn ω ι C)) :
    Report.latencies (before.map x.timed) =
      .ofList (before.map fun u => (u.step.name, Report.milliseconds u.latency)) := by
  rw [Report.latencies, List.map_map]
  rfl

theorem Course.lists {d : Definition ω ι C} (h : x.Course cur (before ++ t :: after))
    (hn : (d.steps.flat.map (·.name)).Nodup) (hplan : x.plan = .ofDefinition d)
    (hfresh : cur.control.timings = ∅) (name : String) (now : Nanos) :
    (Report.ofControl name t.begun now).Lists before := by
  have hlog : t.begun.timings.toList = before.map x.timed := by
    have hlog := h.timings
    rwa [hfresh, Trail.toList_empty, List.nil_append] at hlog
  have hlatencies : (Report.ofControl name t.begun now).actionLatencyMs =
      .ofList (before.map fun u => (u.step.name, Report.milliseconds u.latency)) := by
    rw [← latencies_of_turns (x := x), ← hlog]
    rfl
  refine ⟨fun k => ?_, fun l u r hsplit hlast => ?_⟩
  · rw [hlatencies, Keyed.mem_keys_ofList, List.map_map, List.mem_map]
    rfl
  · rw [hlatencies, hsplit, List.map_append, List.map_cons]
    refine Keyed.get?_ofList_of_last fun e he heq => ?_
    obtain ⟨v, hv, rfl⟩ := List.mem_map.1 he
    subst hsplit
    have htakes := h.takes
    exact hlast v hv (position_of_name hn hplan (htakes v (by simp [hv])) (htakes u (by simp)) heq)

theorem Course.led_of_mem (h : x.Course cur (before ++ t :: after)) {u : Turn ω ι C} (hu : u ∈ before) :
    ∃ next, u.led = .ok next := by
  obtain ⟨l, r, rfl⟩ := List.append_of_mem hu
  have hchain := h.isChain
  rw [List.append_assoc, List.cons_append] at hchain
  cases r with
  | nil => exact ⟨_, (List.isChain_cons_cons.1 hchain.right_of_append).1⟩
  | cons v r => exact ⟨_, (List.isChain_cons_cons.1 hchain.right_of_append).1⟩

theorem Course.pairwise_of_phased {ts : List (Turn ω ι C)} (h : x.Course cur ts)
    (hx : x.discipline = .phased) : ts.Pairwise fun t t' => t.cursor.position < t'.cursor.position :=
  h.pairwise (K := fun t cur => t.cursor.position < cur.position)
    (fun _ _ ht hl => ht.lt_of_phased hx hl)
    (fun _ _ _ ht hl hu => Nat.lt_trans hu (ht.lt_of_phased hx hl))

/-- A report in a phased run has one entry for each turn before it. -/
theorem Course.lists_of_phased {d : Definition ω ι C} {r : Report} (h : x.Course cur (before ++ t :: after))
    (hx : x.discipline = .phased) (hn : (d.steps.flat.map (·.name)).Nodup)
    (hplan : x.plan = .ofDefinition d) (hr : r.Lists before) :
    r.actionLatencyMs.keys.Perm (before.map (·.step.name)) ∧
      ∀ u ∈ before, r.actionLatencyMs.get? u.step.name = some (Report.milliseconds u.latency) := by
  have hlt : before.Pairwise fun t t' => t.cursor.position < t'.cursor.position :=
    (List.pairwise_append.1 (h.pairwise_of_phased hx)).1
  have htakes : ∀ u ∈ before, x.Takes u := fun u hu => h.takes u (List.mem_append_left _ hu)
  have hnodup : (before.map (·.step.name)).Nodup := by
    refine List.pairwise_map.2 (hlt.imp_of_mem fun hu hv hlt heq => ?_)
    exact Nat.ne_of_lt hlt (position_of_name hn hplan (htakes _ hu) (htakes _ hv) heq)
  refine ⟨(List.perm_ext_iff_of_nodup (Keyed.nodup_keys _) hnodup).2 fun k => ?_, fun u hu => ?_⟩
  · rw [hr.keys, List.mem_map]
  · obtain ⟨l, rest, hsplit⟩ := List.append_of_mem hu
    rw [hsplit] at hlt
    have hbehind := (List.pairwise_cons.1 (List.pairwise_append.1 hlt).2.1).1
    exact hr.latest l u rest hsplit fun v hv => Nat.ne_of_gt (hbehind v hv)

theorem Takes.led_of_next {v : C} (ht : x.Takes t) (ho : t.outcome = .next v) :
    ∃ next d, t.led = .ok next ∧ next.control = t.left.recordTiming d true := by
  obtain ⟨cur, step, o, m, led⟩ := t
  obtain rfl : o = .next v := ho
  cases hx : x.discipline with
  | phased =>
    have h : x.PhasedLead (cur.begun step) (cur.left step m) (.answered (.ok v)) led := ht.phasedLead hx
    cases h with
    | next v d => exact ⟨_, d, rfl, rfl⟩
  | addressed k sleeper =>
    have h : x.AddressedLead k sleeper (cur.left step m) (.answered (.ok v)) led := ht.addressedLead hx
    cases h with
    | next v d => exact ⟨_, d, rfl, rfl⟩

variable [Host ω] [LocalAction ω ι C] {start : Option String} {input : C} {s : Store ω ι}

theorem course_of_mem_trace (h : t ∈ x.trace start input s) :
    ∃ cur, x.startAt start input (x.opening start s).1 = .ok cur ∧ cur.control.timings = ∅ ∧
      x.Course cur (x.trace start input s) ∧
      ∃ u, x.execute start input s = x.finish (x.opening start s).1 (endOf cur (x.trace start input s), u) := by
  cases hstart : x.startAt start input (x.opening start s).1 with
  | error e =>
    rw [(trace_of_error hstart).1] at h
    cases h
  | ok cur =>
    obtain ⟨hcourse, hrun⟩ := course_trace hstart
    exact ⟨cur, rfl, by rw [control_of_startAt hstart]; rfl, hcourse, hrun⟩

/-- A run whose last step answered with a context, and left no marks, completes with the errors and the flag that
the step was begun with. -/
theorem completed_of_last {v : C} (h : x.trace start input s = before ++ [t]) (ho : t.outcome = .next v)
    (hm : t.marks = .none) :
    (x.expectedOutput = none → ∃ r, (x.execute start input s).1 = .completed r) ∧
      ∀ r, (x.execute start input s).1 = .completed r →
        r.errors = t.begun.errors.toList ∧ r.shortCircuited = t.begun.shortCircuited := by
  obtain ⟨cur, -, -, hcourse, u, hrun⟩ := course_of_mem_trace (x := x) (t := t) (by rw [h]; simp)
  rw [h] at hcourse hrun
  obtain ⟨next, d, hl, hcontrol⟩ := (hcourse.takes t (by simp)).led_of_next ho
  have hend : endOf cur (before ++ [t]) = .completed (next.value, next.control) := by
    rw [endOf, List.getLast?_concat, Option.map_some, Option.getD_some, Turn.ending, hl]
  rw [hrun, hend]
  refine ⟨fun hx => ⟨_, finish_completed hx⟩, fun r hr => ?_⟩
  obtain ⟨v', c, hc, rfl⟩ := finish_eq_completed hr
  cases hc
  rw [hcontrol, Turn.left, hm, Control.absorb_none]
  exact ⟨rfl, rfl⟩

end Executor

variable {ω ι C : Type} [Host ω] [LocalAction ω ι C]

theorem Report.apply_action (name : String) (consume : Report → ω → ω) (v : C) (c : Control C)
    (u : Store ω ι) :
    (BoundAction.shared (action name consume)).apply v c u =
      ⟨.next v, .none, { u with world := consume (ofControl name c (Host.now u)) u.world }⟩ := rfl

/-- In a run over the steps of a bound definition, a step that reports hands its consumer the report of the control
it was begun with, and passes the context on. Whatever the steps before it did, the report lists the turns
before it: it has an entry for every step that was begun, with the time of its last invocation, which is
what the clock went on by meanwhile, and no other entry. In a phased run that is one entry for each turn. If no
step is begun behind it, the run completes unless it was told what its last context must be, and the report has
the number of the errors and the flag of the result. -/
theorem report_misses_nothing {site : Definition.Site} {policy : ErrorPolicy}
    {handler : Option (ErrorHandler C)} {specs : ByPhase (List (StepSpec ω ι C))} {d : Definition ω ι C}
    {s₀ s₁ : Store ω ι} (hbind : Definition.bind site policy handler specs s₀ = (.ok d, s₁))
    {x : Executor ω ι C} (hplan : x.plan = .ofDefinition d) {start : Option String} {input : C}
    {s : Store ω ι} {before after : List (Turn ω ι C)} {t : Turn ω ι C}
    (htrace : x.trace start input s = before ++ t :: after) {name : String} {consume : Report → ω → ω}
    (haction : t.step.action = .shared (Report.action name consume)) :
    (∀ u : Store ω ι, t.step.action.apply t.cursor.value t.begun u =
      ⟨.next t.cursor.value, .none,
        { u with world := consume (Report.ofControl name t.begun (Host.now u)) u.world }⟩) ∧
    ∀ now, let r := Report.ofControl name t.begun now
      r.Lists before ∧ (∀ u ∈ before, u.Clocked) ∧
      (x.discipline = .phased → r.actionLatencyMs.keys.Perm (before.map (·.step.name)) ∧
        ∀ u ∈ before, r.actionLatencyMs.get? u.step.name = some (Report.milliseconds u.latency)) ∧
      (after = [] → (x.expectedOutput = none → ∃ res, (x.execute start input s).1 = .completed res) ∧
        ∀ res, (x.execute start input s).1 = .completed res →
          r.errorCount = res.errors.length ∧ r.shortCircuited = res.shortCircuited) := by
  have hn := Definition.nodup_names_of_bind hbind
  have hmem : t ∈ x.trace start input s := by rw [htrace]; simp
  obtain ⟨cur, -, hfresh, hcourse, -⟩ := Executor.course_of_mem_trace hmem
  rw [htrace] at hcourse
  refine ⟨fun u => by rw [haction, Report.apply_action], fun now => ?_⟩
  have hlists := hcourse.lists hn hplan hfresh name now
  refine ⟨hlists, fun u hu => ?_, fun hx => hcourse.lists_of_phased hx hn hplan hlists, fun hlast => ?_⟩
  · obtain ⟨next, hl⟩ := hcourse.led_of_mem hu
    exact x.clocked_trace u (by rw [htrace]; exact List.mem_append_left _ hu) next hl
  · subst hlast
    obtain ⟨u, ho, hm⟩ := x.performed_trace start input s t hmem
    rw [haction, Report.apply_action] at ho hm
    obtain ⟨hcompletes, hresult⟩ := Executor.completed_of_last htrace ho hm
    refine ⟨hcompletes, fun res hres => ?_⟩
    obtain ⟨herrors, hflag⟩ := hresult res hres
    exact ⟨by rw [herrors]; exact Trail.size_eq_length _, hflag.symm⟩

/-- Declared steps of which the first fails, the second one short-circuits the run, and the last reports. -/
def auditedSteps : ByPhase (List (StepSpec Bench Empty Nat)) :=
  ⟨[], [.shared haltingPlan.refuse, .shared haltingPlan.halt, .shared haltingPlan.count], [.shared audit]⟩
where
  keep (r : Report) (b : Bench) : Bench := { b with reports := b.reports.push r }
  audit : Action Bench Nat := Report.action "audit" keep

namespace auditedSteps

def step (phase : Phase) (i : Nat) (a : Action Bench Nat) : BoundStep Bench Empty Nat :=
  ⟨phase, i, none, phase.stepName i none, .shared a, none⟩

def bound : Definition Bench Empty Nat :=
  ⟨"audited", ⟨false, false⟩, none, ⟨[], [step .main 0 haltingPlan.refuse, step .main 1 haltingPlan.halt,
    step .main 2 haltingPlan.count], [step .post 0 audit]⟩⟩

end auditedSteps

open auditedSteps in
/-- The step that was skipped is not in the report; the one that failed is. -/
theorem report_misses_nothing_audited :
    let s : Store Bench Empty := .ofWorld (.new 1)
    let x := Executor.phased (.ofDefinition bound) .silent
    Definition.bind ⟨"audited", none, none⟩ ⟨false, false⟩ none auditedSteps s = (.ok bound, s) ∧
    ∃ t before, x.trace none 7 s = before ++ [t] ∧ t.step.action = .shared (Report.action "audit" keep) ∧
      (Report.ofControl "audit" t.begun 0).actionLatencyMs.keys.Perm ["s0", "s1"] ∧
      ∃ res, (x.execute none 7 s).1 = .completed res ∧ res.errors.length = 1 ∧ res.shortCircuited = true := by
  intro s x
  have hbind : Definition.bind ⟨"audited", none, none⟩ ⟨false, false⟩ none auditedSteps s = (.ok bound, s) := rfl
  -- The run stands at the first step, then at the second one, then at the last.
  let u := (x.opening none s).2
  let refuse := step .main 0 haltingPlan.refuse
  let halt := step .main 1 haltingPlan.halt
  let report := step .post 0 audit
  let first : Cursor Nat := ⟨0, 7, (x.opening none s).1, 0⟩
  let failed := Executor.noteFailure (first.left refuse .none) 0 (.new "refused")
  let second : Cursor Nat := ⟨1, failed.1, failed.2, 0⟩
  let third : Cursor Nat := ⟨3, 7, (second.left halt ⟨[], true⟩).control.recordTiming 0 true, 0⟩
  let last : Cursor Nat := ⟨4, 7, (third.left report .none).control.recordTiming 0 true, 0⟩
  have hl₁ : (x.turn first refuse u).1.led = .ok second := rfl
  have hl₂ : (x.turn second halt (x.turn first refuse u).2).1.led = .ok third := rfl
  let v := (x.turn second halt (x.turn first refuse u).2).2
  have hl₃ : (x.turn third report v).1.led = .ok last := rfl
  have htrace : x.trace none 7 s =
      [(x.turn first refuse u).1, (x.turn second halt (x.turn first refuse u).2).1] ++
        [(x.turn third report v).1] := by
    show x.history first u = _
    rw [Executor.history_of_ok rfl hl₁, Executor.history_of_ok rfl hl₂, Executor.history_of_ok rfl hl₃,
      Executor.history_of_none rfl]
    rfl
  obtain ⟨-, hreport⟩ := report_misses_nothing hbind rfl htrace rfl
  obtain ⟨-, -, hphased, hlast⟩ := hreport 0
  obtain ⟨hcompletes, hresult⟩ := hlast rfl
  obtain ⟨res, hres⟩ := hcompletes rfl
  obtain ⟨herrors, hflag⟩ := hresult res hres
  exact ⟨hbind, _, _, htrace, rfl, (hphased rfl).1, res, hres, herrors.symm, hflag.symm⟩

end Pipeworks
