import Pipeworks.Pipeline.Career
import Pipeworks.Proofs.Pooling

/-!
# Sealing

`sealing_freezes`: a pipeline that was sealed stays as it was then, but for its start label, whatever is
called on it (`afterAll_of_sealed`), so that every later run is one of the steps and the settings that it
was sealed with. One that could not be sealed stays as it was before, and can be changed and be sealed
still.
-/

namespace Pipeworks
namespace Pipeline
variable {ω ι C : Type} [Host ω] [LocalAction ω ι C] {p q : Pipeline ω ι C} {plan : Plan ω ι C}
  {k : Call ω ι C} {s s' : Store ω ι}

theorem after_of_sealed (h : p.plan = some plan) (hk : k ≠ .fork) :
    ∃ start, p.after k = { p with startLabel := start } := by
  cases k with
  | change x => exact ⟨p.startLabel, congrArg Prod.snd (edit_of_sealed h x)⟩
  | fork => exact absurd rfl hk
  | jumpTo label => exact ⟨some label, rfl⟩
  | sealPlan s =>
    refine ⟨p.startLabel, ?_⟩
    rw [after, sealPlan_of_plan h]
  | execute out input s => exact ⟨none, (runs_of_sealPlan out input (sealPlan_of_plan h s)).2.2⟩

theorem afterAll_of_sealed (h : p.plan = some plan) {calls : List (Call ω ι C)} (hc : .fork ∉ calls) :
    ∃ start, p.afterAll calls = { p with startLabel := start } := by
  induction calls generalizing p with
  | nil => exact ⟨p.startLabel, rfl⟩
  | cons k ks ih =>
    have hk : k ≠ .fork := fun hk => hc (List.mem_cons.2 (.inl hk.symm))
    have hks : .fork ∉ ks := fun hks => hc (List.mem_cons_of_mem _ hks)
    obtain ⟨start, hp⟩ := after_of_sealed h hk
    have hplan : (p.after k).plan = some plan := by
      rw [hp]
      exact h
    obtain ⟨start', hq⟩ := ih hplan hks
    refine ⟨start', ?_⟩
    show (p.after k).afterAll ks = _
    rw [hq, hp]

/-- A call that seals a pipeline adds the plan, and can use up the start label. -/
theorem after_of_sealsAt (hp : p.plan = none) (hk : k.sealsAt? = some s)
    (hs : p.sealPlan s = (.ok (plan, q), s')) :
    ∃ start, p.after k = { p with plan := some plan, startLabel := start } := by
  obtain ⟨rfl, -⟩ := sealPlan_eq_ok (coherent_of_unsealed hp) hs
  cases k with
  | change x | fork | jumpTo label => cases hk
  | sealPlan s =>
    obtain rfl := Option.some.inj hk
    refine ⟨p.startLabel, ?_⟩
    rw [after, hs]
  | execute out input s =>
    obtain rfl := Option.some.inj hk
    exact ⟨none, (runs_of_sealPlan out input hs).2.2⟩

theorem after_of_unsealable {e : Halt ConfigError} (hk : k.sealsAt? = some s)
    (hs : p.sealPlan s = (.error e, s')) : p.after k = p := by
  cases k with
  | change x | fork | jumpTo label => cases hk
  | sealPlan s =>
    obtain rfl := Option.some.inj hk
    rw [after, hs]
  | execute out input s =>
    obtain rfl := Option.some.inj hk
    exact congrArg Prod.fst (execute_of_error out input hs)

theorem execute_of_plan (h : p.plan = some plan) (out : Option (Marker C)) (input : C) (s : Store ω ι) :
    p.execute out input s =
      (((p.executor plan out).execute p.startLabel input s).1, { p with startLabel := none },
        ((p.executor plan out).execute p.startLabel input s).2) := by
  simp only [execute, sealPlan_of_plan h]

end Pipeline

open Pipeline
variable {ω ι C : Type} [Host ω] [LocalAction ω ι C]

/-- Sealing freezes a pipeline. If it fails the pipeline is as before: changes are not refused for being
late, and sealing binds the steps anew. If it succeeds then after any calls on it (a fork is a pipeline of
its own) all of the pipeline but its start label is as it was when it was sealed: changes are refused and
change nothing, sealing gives the same plan and leaves the store alone whatever the steps are made of, and
a run goes by the plan, the sink, the budget, the sleeper and the executor of then. -/
theorem sealing_freezes {p : Pipeline ω ι C} (hp : p.plan = none) {k : Call ω ι C} {s : Store ω ι}
    (hk : k.sealsAt? = some s) :
    (∀ e s', p.sealPlan s = (.error e, s') →
      p.after k = p ∧ (∀ x e, (p.edit x).1 = .error e → e.code? ≠ some "CONFIG-002-SEALED") ∧
      ∀ t, p.sealPlan t =
        ((Definition.bind p.site p.policy p.handler p.specs t).1.map fun d =>
          (.ofDefinition d, { p with plan := some (.ofDefinition d) }),
          (Definition.bind p.site p.policy p.handler p.specs t).2)) ∧
    ∀ plan q s', p.sealPlan s = (.ok (plan, q), s') →
      (∃ d, plan = .ofDefinition d ∧ p.Defines d) ∧
      ∀ calls, .fork ∉ calls →
        let r := (p.after k).afterAll calls
        r = { p with plan := some plan, startLabel := r.startLabel } ∧
        (∀ x, r.edit x = (.error (.sealed p.name x.operation), r) ∧
          (ConfigError.sealed p.name x.operation).code? = some "CONFIG-002-SEALED") ∧
        (∀ specs t, { r with specs := specs }.sealPlan t = (.ok (plan, { r with specs := specs }), t)) ∧
        ∀ out input t,
          let x := if p.jumpsEnabled || r.startLabel.isSome || out.isSome then
              { Executor.addressed plan p.sink p.maxJumps p.sleeper with expectedOutput := out }
            else .phased plan p.sink
          r.execute out input t =
            ((x.execute r.startLabel input t).1, { r with startLabel := none },
              (x.execute r.startLabel input t).2) := by
  refine ⟨fun e s' hs => ?_, fun plan q s' hs => ?_⟩
  · refine ⟨after_of_unsealable hk hs, fun x e he => code_of_edit_error hp he, fun t => ?_⟩
    rcases hb : Definition.bind p.site p.policy p.handler p.specs t with ⟨e | d, u⟩
    · exact sealPlan_of_error hp hb
    · exact sealPlan_of_bind hp hb
  · refine ⟨(coherent_of_unsealed hp).defines hs, fun calls hcalls => ?_⟩
    obtain ⟨start, hq⟩ := after_of_sealsAt hp hk hs
    have hplan : (p.after k).plan = some plan := by rw [hq]
    obtain ⟨start', hafter⟩ := afterAll_of_sealed hplan hcalls
    intro r
    have hr : r = { p with plan := some plan, startLabel := start' } := by
      show (p.after k).afterAll calls = _
      rw [hafter, hq]
    have hplan : r.plan = some plan := by rw [hr]
    refine ⟨by rw [hr], fun x => ⟨?_, rfl⟩, fun specs t => ?_, fun out input t => ?_⟩
    · have hname : r.name = p.name := by rw [hr]
      rw [edit_of_sealed hplan, hname]
    · have hplan' : { r with specs := specs }.plan = some plan := hplan
      exact sealPlan_of_plan hplan' t
    · have hx : r.executor plan out =
          if p.jumpsEnabled || r.startLabel.isSome || out.isSome then
            { Executor.addressed plan p.sink p.maxJumps p.sleeper with expectedOutput := out }
          else .phased plan p.sink := by
        rw [executor, hr]
      rw [← hx]
      exact execute_of_plan hplan out input t

/-- A pipeline of a pool whose factory refuses before the clock has moved. -/
def reluctant : Pipeline Bench Tally Nat :=
  { Pipeline.new "reluctant" with specs := ⟨[], [.pooled make (some 1)], []⟩ }
where
  make : LocalFactory Bench Tally := fun w =>
    if w.clock = 0 then (.refused (.mk "too early" []), w) else (.made ⟨0, 0⟩, w)

/-- A run that comes too early leaves the pipeline open, one that comes later seals it for good. -/
theorem sealing_freezes_reluctant :
    let early : Store Bench Tally := .ofWorld (.new 1)
    let late : Store Bench Tally := .ofWorld { Bench.new 1 with clock := 1 }
    let r := (reluctant.after (.execute none 1 late)).afterAll
      [.change (.set (.maxJumps 2)), .jumpTo "nowhere", .sealPlan early]
    reluctant.after (.execute none 1 early) = reluctant ∧
      r.edit (.set (.jumpsEnabled true)) = (.error (.sealed "reluctant" "enable_jumps"), r) := by
  intro early late r
  have hearly : ∃ e s', reluctant.sealPlan early = (.error e, s') := ⟨_, _, rfl⟩
  have hlate : ∃ plan q s', reluctant.sealPlan late = (.ok (plan, q), s') := ⟨_, _, _, rfl⟩
  obtain ⟨e, s', he⟩ := hearly
  obtain ⟨plan, q, s', hs⟩ := hlate
  obtain ⟨hfail, -⟩ := sealing_freezes (p := reluctant) rfl (k := .execute none 1 early) rfl
  obtain ⟨-, hseal⟩ := sealing_freezes (p := reluctant) rfl (k := .execute none 1 late) rfl
  obtain ⟨-, hcalls⟩ := hseal plan q s' hs
  obtain ⟨-, hedit, -⟩ := hcalls
    [.change (.set (.maxJumps 2)), .jumpTo "nowhere", .sealPlan early] (by simp)
  exact ⟨(hfail e _ he).1, (hedit _).1⟩

end Pipeworks
