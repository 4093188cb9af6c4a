import Pipeworks.Run.Effects

/-!
# Calls of the sleeper

`naps` lists the calls of the sleeper that effects make when they are carried out one after another, each with
its answer. `execute_naps`: the calls of a run are made by the same effects that make the store behind it, their
delays are those of the requests that the run follows, and an error that answers a call ends the run in its turn.
A world that keeps the calls of its sleeper keeps just these (`seen_foldl`).
-/

namespace Pipeworks

/-- A call of the sleeper, with its answer. -/
structure Nap where
  delay : Nanos
  answer : Except EngineError Unit

namespace Effect
variable {ω ι C : Type}

/-- What the sleeper is called with. -/
def delay? : Effect ω ι C → Option Nanos
  | wait d => if d = 0 then none else some d
  | _ => none

def delays (ds : List (Effect ω ι C)) : List Nanos := ds.filterMap delay?

theorem delays_append (ds ds' : List (Effect ω ι C)) : delays (ds ++ ds') = delays ds ++ delays ds' :=
  List.filterMap_append

theorem delays_cons (d : Effect ω ι C) (ds : List (Effect ω ι C)) :
    delays (d :: ds) = d.delay?.toList ++ delays ds := by
  cases h : d.delay? <;> simp [delays, h]

@[simp] theorem delays_reports (es : List Event) : delays (es.map (report : Event → Effect ω ι C)) = [] := by
  induction es with
  | nil => rfl
  | cons e es ih => exact ih

theorem delays_waits (l : List Nanos) :
    delays (l.map (wait : Nanos → Effect ω ι C)) = l.filter (· ≠ 0) := by
  induction l with
  | nil => rfl
  | cons d l ih =>
    rw [List.map_cons, delays_cons, ih]
    by_cases hd : d = 0 <;> simp [delay?, hd]

theorem delays_untimed (ds : List (Effect ω ι C)) : delays (ds.map untimed) = delays ds := by
  rw [delays, List.filterMap_map]
  exact congrArg (List.filterMap · ds) (funext fun d => by cases d <;> rfl)

end Effect

namespace Executor
variable {ω ι C : Type}

/-- The requests that a run follows, in the order they are made. -/
def followed (x : Executor ω ι C) (ts : List (Turn ω ι C)) : List JumpSignal :=
  ts.filterMap fun t => x.followed? t.cursor t.outcome

/-- The call of the sleeper that an effect makes. -/
def nap? (x : Executor ω ι C) (s : Store ω ι) : Effect ω ι C → Option Nap
  | .wait d =>
    match x.discipline with
    | .phased => none
    | .addressed _ sleeper => if d = 0 then none else some ⟨d, (sleeper d s.world).1⟩
  | _ => none

/-- An error that answers a call is heeded: no other call is made, and the run ends with the error in the turn
that asked for the jump. -/
def Heeds {α : Type} (x : Executor ω ι C) (naps : List Nap) (ts : List (Turn ω ι C))
    (ending : Ending ω ι C α) : Prop :=
  ∀ earlier nap later e, naps = earlier ++ nap :: later → nap.answer = .error e →
    later = [] ∧ ending = .failed e ∧ ∃ us t signal, ts = us ++ [t] ∧
      x.followed? t.cursor t.outcome = some signal ∧ signal.delay = nap.delay

variable {x : Executor ω ι C} {m : Nat} {sleeper : Sleeper ω}

theorem admits_iff {jumps : Nat} {signal : JumpSignal} :
    x.admits jumps signal = true ↔ jumps < x.discipline.budget ∧
      ∃ target, x.plan.indexOf? signal.label = some target ∧ x.plan.preBoundary ≤ target := by
  rw [admits, Bool.and_eq_true_iff, decide_eq_true_iff]
  cases x.plan.indexOf? signal.label <;> simp

/-- A run follows a request that passes the checks of the budget, of its label and of the region there. -/
theorem followed?_eq_some {cur : Cursor C} {o : Outcome C} {signal : JumpSignal} :
    x.followed? cur o = some signal ↔ o = .answered (.error (.jump signal)) ∧
      x.admits cur.jumps signal = true := by
  cases o using Outcome.byFault with
  | next v | failed e | abort e | panicked t | blocked => simp [followed?]
  | jump request =>
    simp only [followed?]
    split
    · constructor
      · intro h
        cases h
        exact ⟨rfl, ‹_›⟩
      · rintro ⟨h, -⟩
        cases h
        rfl
    · constructor
      · intro h
        cases h
      · rintro ⟨h, ha⟩
        cases h
        contradiction

theorem followed_append (ts us : List (Turn ω ι C)) : x.followed (ts ++ us) = x.followed ts ++ x.followed us :=
  List.filterMap_append

theorem followed_cons (t : Turn ω ι C) (ts : List (Turn ω ι C)) :
    x.followed (t :: ts) = (x.followed? t.cursor t.outcome).toList ++ x.followed ts := by
  cases h : x.followed? t.cursor t.outcome <;> simp [followed, h]

theorem delays_effects (hx : x.discipline = .addressed m sleeper) (d : Nanos) (t : Turn ω ι C) :
    Effect.delays (x.effects d t) =
      ((x.followed? t.cursor t.outcome).toList.map (·.delay)).filter (· ≠ 0) := by
  have h : Effect.delays (x.effects d t) = Effect.delays (x.aftermath t.step t.cursor d t.outcome) := rfl
  rw [h, aftermath, Effect.delays_append, Effect.delays_reports, List.nil_append, Effect.delays_waits, waits, hx]

theorem delays_turns (hx : x.discipline = .addressed m sleeper) (ts : List (Turn ω ι C)) :
    Effect.delays (ts.flatMap (x.effects 0)) = ((x.followed ts).map (·.delay)).filter (· ≠ 0) := by
  induction ts with
  | nil => rfl
  | cons t ts ih =>
    rw [List.flatMap_cons, Effect.delays_append, delays_effects hx, ih, followed_cons, List.map_append,
      List.filter_append]

theorem delay_nap? (hx : x.discipline = .addressed m sleeper) (s : Store ω ι) (d : Effect ω ι C) :
    (x.nap? s d).map (·.delay) = d.delay? := by
  cases d with
  | wait d =>
    rw [nap?, hx, Effect.delay?]
    by_cases hd : d = 0 <;> simp [hd]
  | report e | apply step value control => rfl

variable [LocalAction ω ι C]

/-- The calls of the sleeper that effects make one after another. -/
def naps (x : Executor ω ι C) (run : RunId) : Store ω ι → List (Effect ω ι C) → List Nap
  | _, [] => []
  | s, d :: ds => (x.nap? s d).toList ++ x.naps run (x.carryOut run s d) ds

theorem naps_append (run : RunId) (s : Store ω ι) (ds ds' : List (Effect ω ι C)) :
    x.naps run s (ds ++ ds') = x.naps run s ds ++ x.naps run (ds.foldl (x.carryOut run) s) ds' := by
  induction ds generalizing s with
  | nil => rfl
  | cons d ds ih => rw [List.cons_append, naps, naps, ih, List.append_assoc, List.foldl_cons]

@[simp] theorem naps_reports (run : RunId) (s : Store ω ι) (es : List Event) :
    x.naps run s (es.map .report) = [] := by
  induction es generalizing s with
  | nil => rfl
  | cons e es ih => exact ih _

theorem delay_naps (hx : x.discipline = .addressed m sleeper) (run : RunId) (s : Store ω ι)
    (ds : List (Effect ω ι C)) : (x.naps run s ds).map (·.delay) = Effect.delays ds := by
  induction ds generalizing s with
  | nil => rfl
  | cons d ds ih =>
    rw [naps, List.map_append, ih, Effect.delays_cons, ← delay_nap? hx s d]
    cases x.nap? s d <;> rfl

/-- Where the sleeper notes its calls in a record that nothing else touches, the record has just the calls. -/
theorem seen_foldl {α : Type} (hx : x.discipline = .addressed m sleeper) {seen : ω → List α} {note : Nap → α}
    (hsleeper : ∀ d w, seen (sleeper d w).2 = seen w ++ [note ⟨d, (sleeper d w).1⟩])
    (hsink : ∀ h e w, seen (x.sink h e w) = seen w) (run : RunId) (ds : List (Effect ω ι C))
    (hsteps : ∀ step v c, .apply step v c ∈ ds →
      ∀ s : Store ω ι, seen (step.action.apply v c s).world.world = seen s.world) (s : Store ω ι) :
    seen (ds.foldl (x.carryOut run) s).world = seen s.world ++ (x.naps run s ds).map note := by
  induction ds generalizing s with
  | nil => exact (List.append_nil _).symm
  | cons d ds ih =>
    have hone : seen (x.carryOut run s d).world = seen s.world ++ (x.nap? s d).toList.map note := by
      cases d with
      | report e => exact (hsink ..).trans (List.append_nil _).symm
      | apply step v c => exact (hsteps step v c List.mem_cons_self s).trans (List.append_nil _).symm
      | wait d =>
        rw [nap?, carryOut, hx]
        by_cases hd : d = 0
        · simp [Sleeper.pause, hd]
        · simp [Sleeper.pause, hd, hsleeper]
    rw [List.foldl_cons, ih (fun step v c h => hsteps step v c (List.mem_cons_of_mem d h)), hone, naps,
      List.map_append, List.append_assoc]

/-! ### Errors of the sleeper -/

omit [LocalAction ω ι C] in
theorem transfer_of_pause (hx : x.discipline = .addressed m sleeper) {step : BoundStep ω ι C} {cur : Cursor C}
    {signal : JumpSignal} {s : Store ω ι} {e : EngineError} (ha : x.admits cur.jumps signal = true)
    (hp : (sleeper.pause signal.delay
      (x.emit cur.control (.jump step.displayLabel signal.label signal.delayMillis) s)).1 = .error e) :
    (x.transfer m sleeper step cur signal s).1 = .error e := by
  obtain ⟨hbudget, target, htarget, hregion⟩ := admits_iff.1 ha
  have hlt : ¬m ≤ cur.jumps := by
    rw [hx] at hbudget
    exact Nat.not_le.2 hbudget
  simp only [transfer, if_neg hlt, htarget, if_neg (Nat.not_lt.2 hregion)]
  split
  · rename_i hpause
    rw [hpause] at hp
    exact congrArg Except.error (Except.error.inj hp)
  · rename_i hpause
    rw [hpause] at hp
    cases hp

theorem settle_of_nap (hx : x.discipline = .addressed m sleeper) {step : BoundStep ω ι C} (begun : Control C)
    (cur : Cursor C) {d : Nanos} {a : Answer C} {s : Store ω ι} {nap : Nap} {e : EngineError}
    (hnap : nap ∈ x.naps cur.control.run s (x.aftermath step cur d (.answered a)))
    (he : nap.answer = .error e) : (x.settle step begun cur d a s).1 = .error e := by
  rw [aftermath, naps_append, naps_reports, List.nil_append, waits, hx] at hnap
  cases hf : x.followed? cur (.answered a) with
  | none =>
    rw [hf] at hnap
    cases hnap
  | some signal =>
    obtain ⟨ha, hadmits⟩ := followed?_eq_some.1 hf
    cases ha
    rw [hf] at hnap
    simp only [settle, hx, settleAddressed]
    refine transfer_of_pause hx hadmits ?_
    -- The sleeper is called where the jump was just reported.
    have hstore : ((x.closing step cur d (.answered (.error (.jump signal)))).map .report).foldl
          (x.carryOut cur.control.run) s =
        x.emit (cur.control.recordTiming d true) (.jump step.displayLabel signal.label signal.delayMillis)
          (x.emit (cur.control.recordTiming d true) (.stepEnd cur.position step.displayLabel d true) s) := by
      simp [closing, hx, hf, carryOut, emit, Control.recordTiming]
    rw [hstore] at hnap
    unfold Sleeper.pause
    split
    · simp [naps, nap?, hx, ‹signal.delay = 0›] at hnap
    · simp only [Option.toList_some, List.map_cons, List.map_nil, naps, nap?, hx,
        if_neg ‹¬signal.delay = 0›, List.append_nil, List.mem_singleton] at hnap
      rw [hnap] at he
      exact he

/-- The sleeper is called at most once in a turn, with the delay of the request that is followed. -/
theorem naps_effects (hx : x.discipline = .addressed m sleeper) {run : RunId} {s : Store ω ι} {d : Nanos}
    {t : Turn ω ι C} {nap : Nap} (h : nap ∈ x.naps run s (x.effects d t)) :
    x.naps run s (x.effects d t) = [nap] ∧
      ∃ signal, x.followed? t.cursor t.outcome = some signal ∧ signal.delay = nap.delay := by
  have hdelays := (delay_naps hx run s (x.effects d t)).trans (delays_effects hx d t)
  generalize x.naps run s (x.effects d t) = naps at h hdelays
  cases hf : x.followed? t.cursor t.outcome with
  | none =>
    rw [hf] at hdelays
    rw [List.map_eq_nil_iff.1 hdelays] at h
    cases h
  | some signal =>
    rw [hf] at hdelays
    by_cases hd : signal.delay = 0
    · rw [Option.toList_some, List.map_singleton, List.filter_singleton] at hdelays
      simp only [hd, ne_eq, not_true_eq_false, decide_false] at hdelays
      rw [List.map_eq_nil_iff.1 hdelays] at h
      cases h
    · rw [Option.toList_some, List.map_singleton, List.filter_cons_of_pos (by simpa using hd)] at hdelays
      obtain ⟨n, rfl, hn⟩ := List.map_eq_singleton_iff.1 hdelays
      obtain rfl := List.mem_singleton.1 h
      exact ⟨rfl, signal, rfl, hn.symm⟩

variable [Host ω]

theorem turn_naps (hx : x.discipline = .addressed m sleeper) (cur : Cursor C) (step : BoundStep ω ι C)
    (s : Store ω ι) :
    ∃ d, (x.turn cur step s).2 =
        (x.effects d (x.turn cur step s).1).foldl (x.carryOut cur.control.run) s ∧
      ∀ nap ∈ x.naps cur.control.run s (x.effects d (x.turn cur step s).1), ∀ e,
        nap.answer = .error e → (x.turn cur step s).1.led = .error (.failed e) := by
  let started := x.emit (cur.begun step) (.stepStart cur.position step.displayLabel) s
  let a := step.action.apply cur.value (cur.begun step) started
  have hled (o : Outcome C) : ∃ d,
      (x.lead step (cur.begun step) (cur.left step a.marks) (Host.now started) o a.world).2 =
        (x.aftermath step cur d o).foldl (x.carryOut cur.control.run) a.world ∧
      ∀ nap ∈ x.naps cur.control.run a.world (x.aftermath step cur d o), ∀ e, nap.answer = .error e →
        (x.lead step (cur.begun step) (cur.left step a.marks) (Host.now started) o a.world).1 =
          .error (.failed e) := by
    cases o with
    | panicked text =>
      refine ⟨0, ?_⟩
      rw [aftermath_of_silent fun a ha => by cases ha]
      exact ⟨rfl, fun nap hnap => (List.not_mem_nil hnap).elim⟩
    | blocked =>
      refine ⟨0, ?_⟩
      rw [aftermath_of_silent fun a ha => by cases ha]
      exact ⟨rfl, fun nap hnap => (List.not_mem_nil hnap).elim⟩
    | answered answer =>
      refine ⟨_, settle_snd step (cur.begun step) (cur.left step a.marks) _ answer a.world, ?_⟩
      intro nap hnap e he
      have hsettle := settle_of_nap hx (cur.begun step) (cur.left step a.marks) hnap he
      simp only [lead, hsettle]
      rfl
  exact hled a.outcome

omit [Host ω] [LocalAction ω ι C] in
/-- The first part of a list has no error: an error is in the rest. -/
theorem Heeds.append {α : Type} {naps rest : List Nap} {t : Turn ω ι C} {ts : List (Turn ω ι C)}
    {ending : Ending ω ι C α} (hok : ∀ nap ∈ naps, ∀ e, nap.answer ≠ .error e)
    (h : x.Heeds rest ts ending) : x.Heeds (naps ++ rest) (t :: ts) ending := by
  intro earlier nap later e hsplit he
  rcases List.append_eq_append_iff.1 hsplit with ⟨mid, -, hrest⟩ | ⟨mid, hnaps, hlater⟩
  · obtain ⟨hnone, hend, us, u, signal, rfl, hu⟩ := h mid nap later e hrest he
    exact ⟨hnone, hend, t :: us, u, signal, rfl, hu⟩
  · cases mid with
    | nil =>
      obtain ⟨hnone, hend, us, u, signal, rfl, hu⟩ := h [] nap later e hlater.symm he
      exact ⟨hnone, hend, t :: us, u, signal, rfl, hu⟩
    | cons n mid =>
      obtain ⟨rfl, -⟩ := List.cons.inj hlater
      exact absurd he (hok nap (by rw [hnaps]; simp) e)

theorem drive_naps (hx : x.discipline = .addressed m sleeper) (cur : Cursor C) (s : Store ω ι) :
    ∃ ds : List (Effect ω ι C), (x.drive cur s).2 = ds.foldl (x.carryOut cur.control.run) s ∧
      ds.map Effect.untimed = (x.history cur s).flatMap (x.effects 0) ∧
      x.Heeds (x.naps cur.control.run s ds) (x.history cur s) (x.drive cur s).1 := by
  -- A turn that goes on has got no error from the sleeper; one that has is the last.
  fun_induction history x cur s with
  | case1 cur s h =>
    rw [drive_of_none h]
    exact ⟨[], rfl, rfl, fun earlier nap later e hsplit => by simp [naps] at hsplit⟩
  | case2 cur s step h e hl =>
    obtain ⟨d, hd, hnaps⟩ := turn_naps hx cur step s
    refine ⟨x.effects d (x.turn cur step s).1, ?_, ?_, ?_⟩
    · rw [drive_of_error h hl, hd]
    · rw [untimed_effects, List.flatMap_singleton]
    · intro earlier nap later err hsplit he
      have hmem : nap ∈ x.naps cur.control.run s (x.effects d (x.turn cur step s).1) := by
        rw [hsplit]
        simp
      obtain ⟨hone, signal, hf, hdelay⟩ := naps_effects hx hmem
      have hlast : later = [] := by
        have := congrArg List.length (hsplit.symm.trans hone)
        rw [List.length_append, List.length_cons, List.length_singleton] at this
        exact List.length_eq_zero_iff.1 (by omega)
      refine ⟨hlast, ?_, [], _, signal, rfl, hf, hdelay⟩
      rw [drive_of_error h hl]
      exact Except.error.inj (hl.symm.trans (hnaps nap hmem err he))
  | case3 cur s step h next hl ih =>
    obtain ⟨d, hd, hnaps⟩ := turn_naps hx cur step s
    obtain ⟨ds, hrest, hds, hheeds⟩ := ih
    have hrun : next.control.run = cur.control.run := (takes_turn h).run_eq hl
    rw [hrun] at hrest hheeds
    refine ⟨x.effects d (x.turn cur step s).1 ++ ds, ?_, ?_, ?_⟩
    · rw [drive_of_ok h hl, hrest, List.foldl_append, hd]
    · rw [List.map_append, untimed_effects, hds, List.flatMap_cons]
    · rw [drive_of_ok h hl, naps_append, ← hd]
      refine Heeds.append (fun nap hmem e he => ?_) hheeds
      cases hl.symm.trans (hnaps nap hmem e he)

/-- Effects of a run: they make the store behind it, and but for durations they are read off its turns and its
end. -/
structure Does (x : Executor ω ι C) (start : Option String) (input : C) (s : Store ω ι)
    (ds : List (Effect ω ι C)) : Prop where
  store : (x.execute start input s).2 = ds.foldl (x.carryOut (x.opening start s).1.run)
    (Control.new x.plan.name x.plan.definition.handler s).2
  untimed : ds.map Effect.untimed = .report (.pipelineStart start) ::
    (x.trace start input s).flatMap (x.effects 0) ++ ((x.execute start input s).1.report 0).map .report

/-- The calls of the sleeper that the effects of a run from a store make. -/
def napsFrom (x : Executor ω ι C) (s : Store ω ι) (ds : List (Effect ω ι C)) : List Nap :=
  x.naps (x.opening none s).1.run (Control.new x.plan.name x.plan.definition.handler s).2 ds

variable {start : Option String} {input : C} {s : Store ω ι} {cur : Cursor C} {ds : List (Effect ω ι C)}

/-- The sleeper is called with the delays of the requests that the run follows, but for those without a delay. -/
theorem Does.delays (hx : x.discipline = .addressed m sleeper) (h : x.Does start input s ds) :
    (x.napsFrom s ds).map (·.delay) =
      ((x.followed (x.trace start input s)).map (·.delay)).filter (· ≠ 0) := by
  have hturns := delays_turns hx (x.trace start input s)
  rw [napsFrom, delay_naps hx, ← Effect.delays_untimed, h.untimed, Effect.delays_append, Effect.delays_reports,
    List.append_nil, ← hturns]
  rfl

/-- What a run does is what it does from its cursor, between the reports of its start and its end. -/
theorem does_of_drive (hstart : x.startAt start input (x.opening start s).1 = .ok cur)
    (hstore : (x.drive cur (x.opening start s).2).2 =
      ds.foldl (x.carryOut (x.opening start s).1.run) (x.opening start s).2)
    (huntimed : ds.map Effect.untimed = (x.history cur (x.opening start s).2).flatMap (x.effects 0)) :
    ∃ d, x.Does start input s
      (.report (.pipelineStart start) :: ds ++ ((x.execute start input s).1.report d).map .report) := by
  obtain ⟨htrace, hrun⟩ := trace_of_ok hstart
  obtain ⟨d, hd⟩ := finish_snd (x := x) (x.opening start s).1 (x.drive cur (x.opening start s).2).1
    (x.drive cur (x.opening start s).2).2
  refine ⟨d, ⟨?_, ?_⟩⟩
  · have hopened : (Effect.report (.pipelineStart start) :: ds).foldl (x.carryOut (x.opening start s).1.run)
          (Control.new x.plan.name x.plan.definition.handler s).2 = (x.drive cur (x.opening start s).2).2 :=
      hstore.symm
    rw [List.foldl_append, hopened, hrun]
    exact hd
  · rw [List.map_append, List.map_cons, huntimed, htrace, ← untimed_report _ d, List.map_map, List.map_map]
    rfl

/-- The calls of the sleeper in a run are made by what the run does, and it heeds an error that answers one. -/
theorem execute_naps (hx : x.discipline = .addressed m sleeper) (start : Option String) (input : C)
    (s : Store ω ι) : ∃ ds : List (Effect ω ι C), x.Does start input s ds ∧
      x.Heeds (x.napsFrom s ds) (x.trace start input s) (x.execute start input s).1 := by
  cases hstart : x.startAt start input (x.opening start s).1 with
  | error e =>
    obtain ⟨ds, hstore, huntimed⟩ := x.execute_snd start input s
    have hdoes : x.Does start input s ds := ⟨hstore, huntimed⟩
    have hnone : x.napsFrom s ds = [] := by
      have := hdoes.delays hx
      rw [(trace_of_error hstart).1] at this
      exact List.map_eq_nil_iff.1 this
    exact ⟨ds, hdoes, fun earlier nap later e hsplit => by simp [hnone] at hsplit⟩
  | ok cur =>
    have hcontrol : cur.control = (x.opening start s).1 := control_of_startAt hstart
    obtain ⟨ds, hstore, huntimed, hheeds⟩ := drive_naps hx cur (x.opening start s).2
    rw [hcontrol] at hstore hheeds
    obtain ⟨d, hdoes⟩ := does_of_drive hstart hstore huntimed
    refine ⟨_, hdoes, ?_⟩
    -- Neither of the reports around the turns calls the sleeper.
    have hnaps : x.napsFrom s
        (.report (.pipelineStart start) :: ds ++ ((x.execute start input s).1.report d).map .report) =
        x.naps (x.opening start s).1.run (x.opening start s).2 ds := by
      rw [napsFrom, naps_append, naps_reports, List.append_nil]
      rfl
    obtain ⟨htrace, hrun⟩ := trace_of_ok hstart
    rw [hnaps, htrace]
    intro earlier nap later e hsplit he
    obtain ⟨hlast, hend, hturn⟩ := hheeds earlier nap later e hsplit he
    refine ⟨hlast, ?_, hturn⟩
    rw [hrun, ← (x.drive cur (x.opening start s).2).eta, hend]
    rfl

end Executor
end Pipeworks
