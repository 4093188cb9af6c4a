import Pipeworks.Bench
import Pipeworks.Pipeline.Unpooled
import Pipeworks.Proofs.Agreement

/-!
# Pools are not seen

`pooling_unobservable`: where instances start over, a pipeline that pools them and one that makes them for
each call give the same answers to the same inputs, run after run. Between two runs the pools are at rest:
whatever became of a run, every instance was reset and given back (`Blur.Serves.apply`), so that the next
run borrows what it would make.

The blur says what nobody looks at. With the exact one (`exact_suits`) shared actions, sinks and sleepers
are any, and making and resetting an instance does nothing to the world; with one of the clock both may
take time.
-/

namespace Pipeworks

def Ending.isBlocked {ω ι C α : Type} : Ending ω ι C α → Bool
  | .blocked _ => true
  | _ => false

/-- The ends of runs made one after another, each started at a label if one is given. None follows a run
that is blocked. -/
def Pipeline.answers {ω ι C : Type} [Host ω] [LocalAction ω ι C] (p : Pipeline ω ι C) :
    List (Option String × C) → Store ω ι → List (Ending ω ι C (RunResult C))
  | [], _ => []
  | (start, input) :: visits, s =>
    let r := (start.elim p p.jumpTo).execute none input s
    r.1 :: if r.1.isBlocked then [] else r.2.1.answers visits r.2.2

namespace Blur
variable {ω ι C : Type} [Host ω]

theorem timings_untimed {B : Blur ω} {l l' : List Timing} (h : List.Forall₂ B.Timed l l') :
    l.map Timing.untimed = l'.map Timing.untimed := by
  induction h with
  | nil => rfl
  | cons ht hl ih =>
    rw [List.map_cons, List.map_cons, ih, Timing.untimed, Timing.untimed, ht.phase, ht.index, ht.name,
      ht.success]

theorem LikeResult.alike {B : Blur ω} {r r' : RunResult C} (h : B.LikeResult r r') : r.Alike r' :=
  ⟨h.context, h.shortCircuited, h.errors, timings_untimed h.timings⟩

variable [LocalAction ω ι C] {B : Blur ω} {s₀ s s' : Store ω ι}

theorem Ends.like {r r' : Ending ω ι C (RunResult C) × Store ω ι} (h : B.Ends s₀ B.LikeResult r r') :
    r.1.Like RunResult.Alike r'.1 ∧ r.1.isBlocked = r'.1.isBlocked := by
  cases h with
  | completed h hs => exact ⟨.completed h.alike, rfl⟩
  | failed e hs => exact ⟨.failed e, rfl⟩
  | panicked text hs => exact ⟨.panicked text, rfl⟩
  | blocked h h' s s' => exact ⟨.blocked h h', rfl⟩

theorem Coupled.answers_of_fits {p p' : Pipeline ω ι C} (h : B.Coupled s p p') (hp : B.Fits s p)
    (hw : B.world s.world s'.world) (visits : List (Option String × C)) :
    List.Forall₂ (Ending.Like RunResult.Alike) (p.answers visits s) (p'.answers visits s') := by
  induction visits generalizing p p' s s' with
  | nil => exact .nil
  | cons visit visits ih =>
    obtain ⟨start, input⟩ := visit
    have hstart : B.Coupled s (start.elim p p.jumpTo) (start.elim p' p'.jumpTo) := by
      cases start with
      | none => exact h
      | some label => exact h.start (some label)
    have hfits : B.Fits s (start.elim p p.jumpTo) := by
      cases start with
      | none => exact hp
      | some label => exact hp.with p.plan (some label)
    obtain ⟨hends, hnext⟩ := hstart.execute hfits hw input
    obtain ⟨hlike, hblocked⟩ := hends.like
    rw [Pipeline.answers, Pipeline.answers]
    refine .cons hlike ?_
    -- Behind a run that is not blocked the pools rest, and the two are coupled again.
    simp only at hblocked ⊢
    rw [← hblocked]
    split
    · exact .nil
    · rename_i hne
      rcases hends.beside with ⟨held, hheld⟩ | hbeside
      · exact absurd (by rw [hheld]; rfl) hne
      · rcases hnext with ⟨held, hheld⟩ | ⟨hcoupled, hfits'⟩
        · exact absurd (by rw [hheld]; rfl) hne
        · exact ih hcoupled hfits' hbeside.world

theorem Coupled.answers {p p' : Pipeline ω ι C} (h : B.Coupled s p p') (hp : B.Suits p)
    (hw : B.world s.world s'.world) (visits : List (Option String × C)) :
    List.Forall₂ (Ending.Like RunResult.Alike) (p.answers visits s) (p'.answers visits s') :=
  h.answers_of_fits (hp.fits s) hw visits

/-! ### The exact blur -/

omit [LocalAction ω ι C] in
/-- Instances start over for the exact blur if making and resetting them leave the world alone. -/
theorem renews_exact [LocalAction ω ι C] {f : LocalFactory ω ι} {i : ι} (hf : ∀ w, f w = (.made i, w))
    (hs : LocalAction.supportsReset ω C i = true)
    (hr : ∀ (v : C) (c : Control C) (w u : ω),
      LocalAction.reset C (LocalAction.apply i v c w).2 u = (.done, i, u)) :
    (exact ω).Renews C f i where
  makes w := by rw [hf]
  making := by
    simp only [hf]
    exact ⟨id, id⟩
  supportsReset := hs
  respects := exact_respects _
  resets v c w u := by
    rw [hr]
    exact ⟨rfl, rfl⟩
  resetting v c w := by
    simp only [hr]
    exact ⟨id, id⟩

theorem exact_suits {p : Pipeline ω ι C} (hcache : p.cache = none)
    (h : ∀ spec ∈ p.specs.flat, ∀ f, (spec.manager = .perRun f ∨ ∃ max, spec.manager = .pooled f max) →
      ∃ i, (exact ω).Renews C f i) : (exact ω).Suits p := by
  refine ⟨hcache, fun spec hspec => ?_, exact_respectsSink _, exact_respectsSleeper _⟩
  unfold Admits
  split
  · exact exact_respects _
  · exact h spec hspec _ (.inl ‹_›)
  · exact h spec hspec _ (.inr ⟨_, ‹_›⟩)

end Blur

/-- Nobody can tell from the answers of a pipeline whether it pools instances that start over or makes
them for each call: run after run, both end with the same error or panic, or with results that differ in
durations alone. -/
theorem pooling_unobservable {ω ι C : Type} [Host ω] [LocalAction ω ι C] (B : Blur ω)
    {p : Pipeline ω ι C} (hplan : p.plan = none) (hp : B.Suits p) {s s' : Store ω ι}
    (hw : B.world s.world s'.world) (visits : List (Option String × C)) :
    List.Forall₂ (Ending.Like RunResult.Alike) (p.answers visits s) (p.unpooled.answers visits s') := by
  have hcoupled : B.Coupled s p p.unpooled := .inl ⟨hplan, rfl⟩
  exact hcoupled.answers hp hw visits

/-- An instance that counts its uses and adds the count to its context; zero makes it panic. Making one and
resetting it take time. -/
structure Tally where
  uses : Nat
  pace : Nanos

instance : LocalAction Bench Tally Nat where
  contextType := "Nat"
  apply i v _ w := (if v = 0 then ⟨.panicked "zero", .none, w⟩ else ⟨.next (v + i.uses), .none, w⟩,
    { i with uses := i.uses + 1 })
  reset i w := (.done, { i with uses := 0 }, Host.wait i.pace w)
  supportsReset _ := true
  typeName _ := "Tally"
  style _ := .controlled

/-- A pipeline of a pool of one tally, and of a shared action that counts in the world. -/
def tallying (pace : Nanos) : Pipeline Bench Tally Nat :=
  { Pipeline.new "tallying" with
    specs := ⟨[], [.pooled make (some 1), .shared count], []⟩ }
where
  make : LocalFactory Bench Tally := fun w => (.made ⟨0, pace⟩, Host.wait pace w)
  count : Action Bench Nat := .unary fun v w => (.next (v + w.slots), { w with slots := w.slots + 1 })

namespace tallying

/-- Worlds that differ in their clocks alone. -/
def unclocked : Blur Bench where
  time _ _ := True
  world w w' := { w with clock := 0 } = { w' with clock := 0 }
  now _ := trivial
  sub _ _ := trivial
  saturate _ := trivial
  newRun h :=
    ⟨congrArg (RunId.numbered ·.runs) h, congrArg (fun w : Bench => { w with runs := w.runs + 1 }) h⟩

theorem renews_unclocked (pace : Nanos) : unclocked.Renews Nat (tallying.make pace) ⟨0, pace⟩ where
  makes w := rfl
  making := ⟨id, id⟩
  supportsReset := rfl
  respects v c c' w w' hc hw := by
    by_cases hv : v = 0
    · simp only [LocalAction.apply, hv, if_true]
      exact ⟨trivial, trivial, hw⟩
    · simp only [LocalAction.apply, hv, if_false]
      exact ⟨trivial, trivial, hw⟩
  resets v c w u := ⟨rfl, rfl⟩
  resetting v c w := ⟨id, id⟩

theorem suits_unclocked (pace : Nanos) : unclocked.Suits (tallying pace) where
  cache := rfl
  steps := by
    intro spec hspec
    rcases hspec with _ | ⟨_, _ | ⟨_, h⟩⟩
    · exact ⟨⟨0, pace⟩, renews_unclocked pace⟩
    · intro v c c' w w' hc hw
      have hworld : ({ w with clock := 0 } : Bench) = { w' with clock := 0 } := hw
      have hslots := congrArg Bench.slots hworld
      refine ⟨congrArg (fun n => Outcome.next (v + n)) hslots, rfl, ?_⟩
      exact congrArg (fun w : Bench => { w with slots := w.slots + 1 }) hworld
    · cases h
  sink hd e e' w w' he hw := hw
  sleeper d w w' hw := ⟨rfl, hw⟩

theorem suits_exact : (Blur.exact Bench).Suits (tallying 0) := by
  refine Blur.exact_suits rfl fun spec hspec f hf => ?_
  rcases hspec with _ | ⟨_, _ | ⟨_, h⟩⟩
  · obtain rfl : f = tallying.make 0 := by
      rcases hf with hf | ⟨max, hf⟩ <;> cases hf
      rfl
    exact ⟨⟨0, 0⟩, Blur.renews_exact (fun w => rfl) rfl fun v c w u => rfl⟩
  · rcases hf with hf | ⟨max, hf⟩ <;> cases hf
  · cases h

end tallying

/-- Neither a pool whose instances cost no time is seen, nor one whose instances do, though a run panics. -/
theorem pooling_unobservable_tallying :
    let visits := [(none, 1), (none, 0), (none, 1), (some "nowhere", 2)]
    let s : Store Bench Tally := .ofWorld (.new 1)
    (Blur.exact Bench).Suits (tallying 0) ∧ tallying.unclocked.Suits (tallying 5) ∧
    List.Forall₂ (Ending.Like RunResult.Alike) ((tallying 0).answers visits s)
      ((tallying 0).unpooled.answers visits s) ∧
    List.Forall₂ (Ending.Like RunResult.Alike) ((tallying 5).answers visits s)
      ((tallying 5).unpooled.answers visits s) :=
  ⟨tallying.suits_exact, tallying.suits_unclocked 5,
    pooling_unobservable _ rfl tallying.suits_exact rfl _,
    pooling_unobservable _ rfl (tallying.suits_unclocked 5) rfl _⟩

end Pipeworks
