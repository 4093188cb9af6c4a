import Pipeworks.Pipeline.Flow
import Pipeworks.Proofs.LabelTransfers
import Pipeworks.Script.Value

/-!
# Type soundness

`typed_run_sound`: every step that a typed pipeline begins gets a value of the type that it takes, if
failures end the run and no step short-circuits it. The types of the steps ahead always lead from the type
of the value to the type of the output (`Standing`). A step leads on from its own type to that of the next
one; a jump is checked at the step of its label, which is the step begun next since none is passed over.
-/

namespace Pipeworks

theorem Outcome.map_eq_next {C D : Type} {f : C → D} {o : Outcome C} {d : D}
    (h : Outcome.next d = o.map f) : ∃ c, d = f c := by
  cases o with
  | answered a =>
    cases a with
    | ok c =>
      cases h
      exact ⟨c, rfl⟩
    | error e => cases h
  | panicked t => cases h
  | blocked => cases h

namespace TypedPipeline
variable {ω ι τ : Type} [ValueTypes τ] [DecidableEq τ] {input output : τ}

/-- The step of the turn is a function, marked with the type that it takes and begun with a value of that
type; what became of it is what the function answered. -/
def Fits (t : Turn ω ι (Typed τ)) : Prop :=
  ∃ (source target : τ) (f : TypedFunction ω source target) (v : ValueTypes.Value source) (w : ω),
    t.step.action = .shared f.action ∧ t.step.expectedInput = some (Typed.marker source) ∧
    t.cursor.value = ⟨source, v⟩ ∧ t.outcome = (f v t.begun w).outcome.map (⟨target, ·⟩) ∧
    t.marks = (f v t.begun w).marks

/-- The error is one that a turn can end the run with: of its step, of the sleeper, or of the jump that the
step asked for. -/
inductive Raises (p : TypedPipeline ω ι input output) (t : Turn ω ι (Typed τ)) : EngineError → Prop
  | aborted {e : EngineError} (h : t.outcome = .fault (.abort e)) : Raises p t e
  | failed {e : ActionError} (h : t.outcome = .fault (.failed e)) : Raises p t (.action e)
  | sleepless {signal : JumpSignal} {w : ω} {e : EngineError} (h : t.outcome = .fault (.jump signal))
    (hs : (p.pipeline.sleeper signal.delay w).1 = .error e) : Raises p t e
  | unknownLabel {signal : JumpSignal} (h : t.outcome = .fault (.jump signal)) :
    Raises p t (.jump (.unknownLabel p.pipeline.name signal.label))
  | intoPreRegion {signal : JumpSignal} (target boundary : Nat) (h : t.outcome = .fault (.jump signal)) :
    Raises p t (.jump (.intoPreRegion signal.label target boundary))
  | budgetExceeded {signal : JumpSignal} (h : t.outcome = .fault (.jump signal)) :
    Raises p t (.jump (.budgetExceeded p.pipeline.name (max p.pipeline.maxJumps 1)))
  | typeMismatch {signal : JumpSignal} (expected : String) (h : t.outcome = .fault (.jump signal)) :
    Raises p t (.jump (.typeMismatch signal.label expected))

variable [Host ω] [LocalAction ω ι (Typed τ)]

/-- The turns of the run on a value. -/
def turns (p : TypedPipeline ω ι input output) (v : ValueTypes.Value input) (s : Store ω ι) :
    List (Turn ω ι (Typed τ)) :=
  p.pipeline.turns (some (Typed.marker output)) ⟨input, v⟩ s

/-! ### The types of the steps ahead -/

/-- The steps ahead lead from the type of the value to the type of the output, and none is passed over. -/
structure Standing (d : Definition ω ι (Typed τ)) (output : τ) (cur : Cursor (Typed τ)) : Prop where
  flow : Flow Applies cur.value.type (d.steps.flat.drop cur.position) output
  flag : cur.control.shortCircuited = false

variable {x : Executor ω ι (Typed τ)} {d : Definition ω ι (Typed τ)} {m : Nat} {sleeper : Sleeper ω}
  {t : Turn ω ι (Typed τ)} {next : Cursor (Typed τ)}

omit [Host ω] in
theorem Standing.begins (h : Standing d output t.cursor) (hd : x.plan = .ofDefinition d) (ht : x.Takes t)
    (hp : t.Performed) :
    Fits t ∧ ∀ u, t.outcome = .next u →
      Flow Applies u.type (d.steps.flat.drop (t.cursor.position + 1)) output := by
  have hstep : d.steps.flat[t.cursor.position]? = some t.step := by
    rw [← ht.step, hd, Plan.step?_eq]
    rfl
  obtain ⟨target, ⟨hm, f, hf⟩, hrest⟩ := h.flow.getElem? hstep
  obtain ⟨s, ho, hmk⟩ := hp
  have happly : ((.shared f.action : BoundAction ω ι (Typed τ)).apply t.cursor.value t.begun s).outcome =
      (f t.cursor.value.value t.begun s.world).outcome.map (⟨target, ·⟩) ∧
      ((.shared f.action : BoundAction ω ι (Typed τ)).apply t.cursor.value t.begun s).marks =
        (f t.cursor.value.value t.begun s.world).marks := by
    simp only [BoundAction.apply, TypedFunction.action, Action.controlled, Typed.as?, dite_true, and_self]
  rw [hf, happly.1] at ho
  rw [hf, happly.2] at hmk
  refine ⟨⟨_, target, f, t.cursor.value.value, s.world, hf, hm, rfl, ho, hmk⟩, fun u hu => ?_⟩
  obtain ⟨w, rfl⟩ := Outcome.map_eq_next (hu.symm.trans ho)
  exact hrest

omit [Host ω] [LocalAction ω ι (Typed τ)] in
theorem flow_of_jump {n : Nat} {label : String} {v : Typed τ}
    (hflow : Flow Applies input d.steps.flat output) (hl : (Plan.ofDefinition d).indexOf? label = some n)
    (hm : (((Plan.ofDefinition d).step? n).bind (·.expectedInput)).filter (!·.test v) = none) :
    Flow Applies v.type (d.steps.flat.drop n) output := by
  obtain ⟨step, hs, -⟩ := Plan.step?_of_indexOf? hl
  obtain ⟨source, ⟨target, hmarker, -⟩, hrest⟩ := hflow.drop_of_getElem? ((Plan.step?_eq _ n).symm.trans hs)
  have htype : (Typed.marker source).test v = true := Plan.admits_of_filter hm hs _ hmarker
  rw [of_decide_eq_true htype]
  exact hrest

omit [Host ω] in
/-- A turn leads on to where the steps ahead take the value. -/
theorem Standing.follows (hflow : Flow Applies input d.steps.flat output) (hd : x.plan = .ofDefinition d)
    (hx : x.discipline = .addressed m sleeper) (hpolicy : d.policy.shortCircuitOnException = true)
    (h : Standing d output t.cursor) (ht : x.Takes t) (hp : t.Performed)
    (hm : t.marks.shortCircuit = false) (hl : t.led = .ok next) : Standing d output next := by
  have hrest := (h.begins hd ht hp).2
  obtain ⟨cur, step, o, mk, led⟩ := t
  have hlead : x.AddressedLead m sleeper (cur.left step mk) o led := ht.addressedLead hx
  have hflag : (cur.left step mk).control.shortCircuited = false := by
    show (cur.control.shortCircuited || mk.shortCircuit) = false
    rw [h.flag, hm]
    rfl
  obtain rfl : led = .ok next := hl
  cases hlead with
  | next v dt =>
    refine ⟨?_, hflag⟩
    show Flow Applies v.type (d.steps.flat.drop (x.plan.advance _ (cur.position + 1))) output
    rw [show ((cur.left step mk).control.recordTiming dt true).shortCircuited = false from hflag,
      Plan.advance_false]
    exact hrest v rfl
  | passed e dt hpass =>
    rw [hd] at hpass
    exact absurd hpolicy (Bool.eq_false_iff.1 hpass)
  | @jumped signal target dt hj hlabel hb hmarker =>
    refine ⟨?_, hflag⟩
    show Flow Applies cur.value.type
      (d.steps.flat.drop (x.plan.advance (cur.left step mk).control.shortCircuited target)) output
    -- No step is passed over, so that the one begun next is the one that the jump was checked at.
    rw [hflag, Plan.advance_false]
    rw [hd] at hlabel hmarker
    exact flow_of_jump hflow hlabel hmarker

omit [Host ω] in
/-- The steps of a run take their values, and it ends at the type of the output or with its last turn. -/
theorem Standing.run {cur : Cursor (Typed τ)} {ts : List (Turn ω ι (Typed τ))}
    (h : Standing d output cur) (hflow : Flow Applies input d.steps.flat output)
    (hd : x.plan = .ofDefinition d) (hx : x.discipline = .addressed m sleeper)
    (hpolicy : d.policy.shortCircuitOnException = true) (hc : x.Course cur ts)
    (hp : ∀ t ∈ ts, t.Performed) (hm : ∀ t ∈ ts, t.marks.shortCircuit = false) :
    (∀ t ∈ ts, Fits t) ∧
      ((∃ v c, Executor.endOf cur ts = .completed (⟨output, v⟩, c)) ∨
        ∃ t, ts.getLast? = some t ∧ t.led = .error (Executor.endOf cur ts)) := by
  obtain ⟨hts, hend⟩ := hc.reaches h fun t ht next htake hl hcur =>
    hcur.follows hflow hd hx hpolicy htake (hp t ht) (hm t ht) hl
  refine ⟨fun t ht => ((hts t ht).begins hd (hc.takes t ht) (hp t ht)).1, hend.imp_left ?_⟩
  rintro ⟨last, hlast, hnone, hlastend⟩
  have hsize : d.steps.flat.drop last.position = [] := by
    rw [hd, Plan.step?_eq] at hnone
    exact List.drop_eq_nil_iff.2 (List.getElem?_eq_none_iff.1 hnone)
  have htype : last.value.type = output := by
    have := hlast.flow
    rw [hsize] at this
    exact this.of_nil
  obtain ⟨n, ⟨ty, w⟩, c, j⟩ := last
  obtain rfl : ty = output := htype
  exact ⟨w, c, hlastend⟩

omit [DecidableEq τ] [Host ω] [LocalAction ω ι (Typed τ)] in
theorem ends_of_error {p : TypedPipeline ω ι input output}
    {e : Ending ω ι (Typed τ) (Typed τ × Control (Typed τ))}
    (hd : x.plan.name = p.pipeline.name)
    (hx : x.discipline = .addressed (max p.pipeline.maxJumps 1) p.pipeline.sleeper) (ht : x.Takes t)
    (hl : t.led = .error e) :
    (∃ err, p.Raises t err ∧ e = .failed err) ∨ (∃ text, t.outcome = .panicked text ∧ e = .panicked text) ∨
      (t.outcome = .blocked ∧ ∃ held, e = .blocked held) := by
  obtain ⟨cur, step, o, mk, led⟩ := t
  have hlead := ht.addressedLead hx
  obtain rfl : led = .error e := hl
  cases hlead with
  | failed err hp => exact .inl ⟨_, .failed rfl, rfl⟩
  | aborted err => exact .inl ⟨_, .aborted rfl, rfl⟩
  | overBudget signal hj =>
    rw [hd]
    exact .inl ⟨_, .budgetExceeded rfl, rfl⟩
  | unknown hj hlabel =>
    rw [hd]
    exact .inl ⟨_, .unknownLabel rfl, rfl⟩
  | intoPre hj hlabel hb => exact .inl ⟨_, .intoPreRegion _ _ rfl, rfl⟩
  | sleepless hj hdelay hs => exact .inl ⟨_, .sleepless rfl hs, rfl⟩
  | mismatch hj hlabel hb hm => exact .inl ⟨_, .typeMismatch _ rfl, rfl⟩
  | panicked text => exact .inr (.inl ⟨text, rfl, rfl⟩)
  | blocked held => exact .inr (.inr ⟨rfl, held, rfl⟩)

end TypedPipeline

variable {ω ι τ : Type} [ValueTypes τ] [DecidableEq τ] {input output : τ} [Host ω]
  [LocalAction ω ι (Typed τ)]

open TypedPipeline in
/-- A typed pipeline of the builder, of which failures end the run and which is not started at a label,
begins every step with a value of the type that the step takes, as long as no step short-circuits the run.
It comes to an end with a value of its output type, or its last step fails, aborts, panics or is blocked,
or asks for a jump that the sleeper refuses or that goes to no label, into pre, over the budget or to a
step that takes another type. -/
theorem typed_run_sound {p : TypedPipeline ω ι input output} (hp : p.Built)
    (hpolicy : p.pipeline.policy.shortCircuitOnException = true) (hstart : p.pipeline.startLabel = none)
    (v : ValueTypes.Value input) (s : Store ω ι)
    (hmarks : ∀ t ∈ p.turns v s, t.marks.shortCircuit = false) :
    (∀ t ∈ p.turns v s, Fits t) ∧
    ((∃ r, (p.execute v s).1 = .completed r) ∨
      ∃ t, (p.turns v s).getLast? = some t ∧
        ((∃ e, p.Raises t e ∧ (p.execute v s).1 = .failed e) ∨
          (∃ text, t.outcome = .panicked text ∧ (p.execute v s).1 = .panicked text) ∨
          (t.outcome = .blocked ∧ ∃ held, (p.execute v s).1 = .blocked held))) := by
  obtain ⟨plan, q, hseal⟩ := hp.sound.sealPlan s
  obtain ⟨d, rfl, hname, hpol, hflow⟩ := hp.sound.flow_steps hseal
  obtain ⟨rfl, -⟩ := Pipeline.sealPlan_eq_ok hp.sound.coherent hseal
  obtain ⟨hturns, hrun, -⟩ := Pipeline.runs_of_sealPlan (some (Typed.marker output)) ⟨input, v⟩ hseal
  let x : Executor ω ι (Typed τ) :=
    { Executor.addressed (.ofDefinition d) p.pipeline.sink p.pipeline.maxJumps p.pipeline.sleeper with
      expectedOutput := some (Typed.marker output) }
  have hts : p.turns v s = x.trace none ⟨input, v⟩ s := by
    rw [TypedPipeline.turns, hturns, Pipeline.executor_output]
    exact congrArg (x.trace · ⟨input, v⟩ s) hstart
  have hexec : (p.execute v s).1 = typedEnding output (x.execute none ⟨input, v⟩ s).1 := by
    show typedEnding output (p.pipeline.execute (some (Typed.marker output)) ⟨input, v⟩ s).1 = _
    rw [hrun, Pipeline.executor_output]
    exact congrArg (fun l => typedEnding output (x.execute l ⟨input, v⟩ s).1) hstart
  have hx : x.discipline = .addressed (max p.pipeline.maxJumps 1) p.pipeline.sleeper := rfl
  let cur : Cursor (Typed τ) := ⟨0, ⟨input, v⟩, (x.opening none s).1, 0⟩
  have hcur : Standing d output cur := ⟨hflow, rfl⟩
  have hstartAt : x.startAt none ⟨input, v⟩ (x.opening none s).1 = .ok cur := rfl
  obtain ⟨hc, w, hend⟩ := Executor.course_trace hstartAt
  rw [hts] at hmarks ⊢
  obtain ⟨hfits, hends⟩ := hcur.run hflow rfl hx (by rw [hpol]; exact hpolicy) hc
    (x.performed_trace none _ s) hmarks
  refine ⟨hfits, ?_⟩
  rw [hexec, hend]
  rcases hends with ⟨u, c, hdone⟩ | ⟨t, hlast, hled⟩
  · -- The last value is of the output type, so that neither check of it fails.
    left
    rw [hdone]
    have hfilter : x.expectedOutput.filter (!·.test ⟨output, u⟩) = none := by
      simp [x, Typed.marker, Option.filter]
    simp only [Executor.finish, hfilter, typedEnding, Control.result, Typed.as?_mk]
    exact ⟨_, rfl⟩
  · right
    refine ⟨t, hlast, ?_⟩
    have hname' : x.plan.name = p.pipeline.name := hname
    rcases ends_of_error hname' hx (hc.takes t (List.mem_of_getLast? hlast)) hled with
      ⟨e, hraises, he⟩ | ⟨text, ho, he⟩ | ⟨ho, held, he⟩
    · exact .inl ⟨e, hraises, by rw [he]; rfl⟩
    · exact .inr (.inl ⟨text, ho, by rw [he]; rfl⟩)
    · exact .inr (.inr ⟨ho, held, by rw [he]; rfl⟩)

/-- A pipeline that counts up to three with a jump back and writes the number down. -/
def climbing : TypedPipeline Bench Empty DataType.int DataType.str :=
  ⟨{ Pipeline.new "climbing" with
      specs := ⟨[], [TypedPipeline.spec "up" up, TypedPipeline.spec "test" test,
        TypedPipeline.spec "write" write], [TypedPipeline.spec "frame" frame]⟩
      labels := ["up", "test", "write", "frame"]
      lastPhase := some .post }, .post⟩
where
  /-- A function that sees its value alone. -/
  plain {source target : DataType} (f : source.Value → Answer target.Value) :
      TypedFunction Bench source target := fun v _ w => ⟨.answered (f v), .none, w⟩
  up : TypedFunction Bench DataType.int DataType.int := plain fun (n : Int) => .ok (n + 1 : Int)
  test : TypedFunction Bench DataType.int DataType.int :=
    plain fun (n : Int) => if n < 3 then .error (.jump (.now "up")) else .ok n
  write : TypedFunction Bench DataType.int DataType.str := plain fun (n : Int) => .ok (toString n)
  frame : TypedFunction Bench DataType.str DataType.str := plain fun (s : String) => .ok ("<" ++ s ++ ">")

namespace climbing

theorem built : climbing.Built := by
  have h₀ : (TypedPipeline.new "climbing" DataType.int : TypedPipeline Bench Empty _ _).Built := .new _
  have h₁ := h₀.step "up" climbing.up rfl
  have h₂ := h₁.step "test" climbing.test rfl
  have h₃ := h₂.step "write" climbing.write rfl
  exact h₃.post "frame" climbing.frame rfl

theorem marks_plain {source target : DataType} (f : source.Value → Answer target.Value) (d : Datum)
    (c : Control Datum) (w : Bench) :
    ((TypedFunction.action (climbing.plain f)).apply d c w).marks = .none := by
  simp only [TypedFunction.action, Action.controlled]
  split <;> rfl

theorem marks_turns (s : Store Bench Empty) :
    ∀ t ∈ climbing.turns (0 : Int) s, t.marks.shortCircuit = false := by
  obtain ⟨plan, q, hseal⟩ := built.sound.sealPlan s
  obtain ⟨hturns, -⟩ := Pipeline.runs_of_sealPlan (some (Typed.marker DataType.str)) (Datum.int 0) hseal
  cases hseal
  intro t ht
  have ht' : t ∈ climbing.pipeline.turns (some (Typed.marker DataType.str)) (Datum.int 0) s := ht
  rw [hturns] at ht'
  refine Executor.forall_trace (P := fun t => t.marks.shortCircuit = false)
    (fun cur step s hstep => ?_) _ _ _ t ht'
  obtain ⟨source, target, f, hf⟩ : ∃ (source target : DataType) (f : source.Value → Answer target.Value),
      step.action = .shared (TypedFunction.action (climbing.plain f)) := by
    have hmem := Plan.mem_of_step? _ hstep
    rcases hmem with _ | ⟨_, _ | ⟨_, _ | ⟨_, _ | ⟨_, h⟩⟩⟩⟩
    · exact ⟨.int, .int, _, rfl⟩
    · exact ⟨.int, .int, _, rfl⟩
    · exact ⟨.int, .str, _, rfl⟩
    · exact ⟨.str, .str, _, rfl⟩
    · cases h
  show ((step.action.apply cur.value _ _).marks).shortCircuit = false
  rw [hf]
  exact congrArg Control.Marks.shortCircuit (marks_plain f _ _ _)

end climbing

open TypedPipeline in
theorem typed_run_sound_climbing :
    let p := climbing
    let s : Store Bench Empty := .ofWorld (.new 1)
    p.Built ∧ p.pipeline.policy.shortCircuitOnException = true ∧ p.pipeline.startLabel = none ∧
    (∀ t ∈ p.turns (0 : Int) s, t.marks.shortCircuit = false) ∧
    (∀ t ∈ p.turns (0 : Int) s, Fits t) ∧
    ((∃ r, (p.execute (0 : Int) s).1 = .completed r) ∨
      ∃ t, (p.turns (0 : Int) s).getLast? = some t ∧
        ((∃ e, p.Raises t e ∧ (p.execute (0 : Int) s).1 = .failed e) ∨
          (∃ text, t.outcome = .panicked text ∧ (p.execute (0 : Int) s).1 = .panicked text) ∨
          (t.outcome = .blocked ∧ ∃ held, (p.execute (0 : Int) s).1 = .blocked held))) :=
  ⟨climbing.built, rfl, rfl, climbing.marks_turns _,
    typed_run_sound climbing.built rfl rfl (0 : Int) _ (climbing.marks_turns _)⟩

end Pipeworks
