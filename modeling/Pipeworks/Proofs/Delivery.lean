import Mathlib.Data.List.Nodup
import Pipeworks.Bench
import Pipeworks.Ingest.Feed
/-!
# Delivery of what is published

An ingest engine loses nothing of what it accepts, and runs nothing twice. What every move keeps is told by
what it is about: the room in the queue (`Booked`), the calls whose payloads came into it (`Delivered`), the
order in which these are run (`Lined`), what the runs come to (`Made`), their counts (`Counted`) and the end
of the queue (`Closing`). `delivers_exactly_once` puts together what they say of every run.
-/

namespace Pipeworks
namespace Feed
variable {ω ι C : Type} [Host ω] [LocalAction ω ι C] {f f' : Feed ω ι C} {m : Move ω ι C}

/-! ### Calls and the room in the queue -/

theorem Shift.settled (hs : f.Shift m f') {j : Nat} {d : Call C} (hd : f.calls[j]? = some d)
    (ho : d.stage.isOpen = false) : f'.calls[j]? = some d := by
  have hmark {i : Nat} {c : Call C} (hc : f.calls[i]? = some c) (hopen : c.stage.isOpen = true)
      (stage : Stage) : (f.mark i c stage).calls[j]? = some d := by
    rw [getElem?_mark hc, if_neg, hd]
    rintro rfl
    rw [Option.some.inj (hc.symm.trans hd), ho] at hopen
    cases hopen
  cases hs with
  | came | turnedAway => rwa [getElem?_enter_of_lt (List.getElem?_eq_some_iff.1 hd).1]
  | granted hc hb | rejected hc hb => exact hmark hc (hb ▸ rfl) _
  | sent hc hopen | gone hc hopen => exact hmark hc hopen _
  | _ => exact hd

/-- The slots that are kept fit beside what is in the queue, and each rejected call was counted. -/
structure Booked (f : Feed ω ι C) : Prop where
  room : f.engine.queue.length + f.kept ≤ f.engine.capacity
  rejected : f.engine.stats.rejected = f.refusals

theorem Booked.shift (h : f.Booked) (hs : f.Shift m f') : f'.Booked := by
  obtain ⟨hroom, hrej⟩ := h
  cases hs with
  | came payload way | turnedAway payload way =>
    refine ⟨?_, ?_⟩
    · rw [kept_enter]
      exact hroom
    · rw [refusals_enter]
      exact hrej
  | granted hc hb hlt =>
    have hk := kept_mark hc .granted
    rw [hb] at hk
    exact ⟨Nat.le_trans (Nat.le_of_eq (congrArg _ hk)) hlt,
      hrej.trans (refusals_mark hc (hb ▸ rfl) .granted).symm⟩
  | @sent i c hc ho hlt =>
    refine ⟨?_, hrej.trans (refusals_mark hc ho (.answered (.ok ()))).symm⟩
    have hk : (f.mark i c (.answered (.ok ()))).kept + c.stage.isGranted.toNat = f.kept :=
      kept_mark hc (.answered (.ok ()))
    change (f.engine.queue ++ [c.payload]).length + (f.mark i c (.answered (.ok ()))).kept ≤ f.engine.capacity
    rw [List.length_append, List.length_singleton]
    rcases Stage.isOpen_iff.1 ho with hb | hg
    · have hfree := hlt hb
      omega
    · rw [hg, Stage.isGranted, Bool.toNat_true] at hk
      omega
  | @rejected i c hc hb hw hfull =>
    have hk := kept_mark hc (.answered (.error (.queueFull f.engine.name)))
    rw [hb] at hk
    refine ⟨Nat.le_trans (Nat.le_of_eq (congrArg _ hk)) hroom, ?_⟩
    exact (congrArg (· + 1) hrej).trans
      (refusals_mark hc (hb ▸ rfl) (.answered (.error (.queueFull f.engine.name)))).symm
  | @gone i c stage hc ho hstage =>
    have hk := kept_mark hc stage
    have hr := refusals_mark hc ho stage
    have hle : (f.mark i c stage).kept ≤ f.kept := by
      rcases hstage with rfl | rfl <;> exact Nat.le_of_add_right_le (Nat.le_of_eq hk)
    refine ⟨Nat.le_trans (Nat.add_le_add_left hle _) hroom, ?_⟩
    rcases hstage with rfl | rfl <;> exact hrej.trans hr.symm
  | took hr hw hq hl =>
    rw [hq, List.length_cons] at hroom
    exact ⟨Nat.le_trans (Nat.add_le_add_right (Nat.le_succ _) _) hroom, hrej⟩
  | @concluded c e =>
    cases e with
    | panicked t => exact ⟨Nat.le_trans (Nat.add_le_add_right (Nat.zero_le _) _) hroom, hrej⟩
    | completed | failed | blocked => exact ⟨hroom, hrej⟩
  | nothing | held | drained | stopped | joined | shared => exact ⟨hroom, hrej⟩

/-! ### What is accepted -/

/-- The call with the number of the parcel was a call for its payload, and was answered with success. -/
def Published (f : Feed ω ι C) (p : Parcel C) : Prop :=
  ∃ c, f.calls[p.ticket]? = some c ∧ c.payload = p.payload ∧ c.stage = .answered (.ok ())

/-- The calls that were answered with success are those whose payloads came into the queue. -/
structure Delivered (f : Feed ω ι C) : Prop where
  nodup : (f.accepted.map (·.ticket)).Nodup
  accepted : ∀ p, p ∈ f.accepted ↔ f.Published p

section
omit [Host ω] [LocalAction ω ι C]

theorem Delivered.congr (h : f.Delivered) (ha : f'.accepted = f.accepted)
    (hc : ∀ (i : Nat) (c : Call C), c.stage = .answered (.ok ()) →
      (f'.calls[i]? = some c ↔ f.calls[i]? = some c)) : f'.Delivered := by
  refine ⟨ha ▸ h.nodup, fun p => ?_⟩
  rw [ha, h.accepted]
  exact exists_congr fun c =>
    ⟨fun ⟨hi, hp, hs⟩ => ⟨(hc _ c hs).2 hi, hp, hs⟩, fun ⟨hi, hp, hs⟩ => ⟨(hc _ c hs).1 hi, hp, hs⟩⟩

theorem Delivered.enter (h : f.Delivered) {c : Call C} (hs : c.stage ≠ .answered (.ok ())) :
    (f.enter c).Delivered := by
  refine h.congr rfl fun i d hd => ⟨fun hc => ?_, fun hc => ?_⟩
  · refine (f.getElem?_of_enter hc).resolve_right fun hdc => hs ?_
    rw [← hdc, hd]
  · rwa [getElem?_enter_of_lt (List.getElem?_eq_some_iff.1 hc).1]

theorem Delivered.mark (h : f.Delivered) {i : Nat} {c : Call C} (hc : f.calls[i]? = some c)
    (ho : c.stage.isOpen = true) {stage : Stage} (hs : stage ≠ .answered (.ok ())) :
    (f.mark i c stage).Delivered := by
  refine h.congr rfl fun j d hd => ?_
  rw [getElem?_mark hc]
  split
  · rename_i hij
    rw [← hij, hc]
    constructor
    · rintro ⟨⟩
      exact absurd hd hs
    · rintro ⟨⟩
      rw [hd] at ho
      cases ho
  · rfl

theorem Delivered.deliver (h : f.Delivered) {i : Nat} {c : Call C} (hc : f.calls[i]? = some c)
    (ho : c.stage.isOpen = true) : (f.deliver i c).Delivered := by
  have hnew (p : Parcel C) (hp : p ∈ f.accepted) : p.ticket ≠ i := by
    rintro rfl
    obtain ⟨d, hd, -, hs⟩ := (h.accepted p).1 hp
    rw [Option.some.inj (hc.symm.trans hd), hs] at ho
    cases ho
  refine ⟨?_, fun p => ?_⟩
  · change ((f.accepted ++ [(⟨i, c.payload⟩ : Parcel C)]).map Parcel.ticket).Nodup
    rw [List.map_append, List.nodup_append]
    refine ⟨h.nodup, List.nodup_singleton _, fun a ha b hb => ?_⟩
    obtain ⟨p, hp, hpa⟩ := List.mem_map.1 ha
    rw [← hpa, List.mem_singleton.1 hb]
    exact hnew p hp
  · change p ∈ f.accepted ++ [⟨i, c.payload⟩] ↔ (f.mark i c (.answered (.ok ()))).Published p
    rw [Published, List.mem_append, List.mem_singleton, getElem?_mark hc]
    split
    · rename_i hip
      constructor
      · rintro (hp | rfl)
        · exact absurd hip.symm (hnew p hp)
        · exact ⟨_, rfl, rfl, rfl⟩
      · rintro ⟨d, ⟨⟩, hp, -⟩
        exact .inr (by cases p; cases hip; cases hp; rfl)
    · rename_i hip
      exact (or_iff_left fun hp => hip (congrArg Parcel.ticket hp).symm).trans (h.accepted p)

end

theorem Delivered.shift (h : f.Delivered) (hs : f.Shift m f') : f'.Delivered := by
  cases hs with
  | came | turnedAway => exact h.enter (by simp)
  | granted hc hb => exact h.mark hc (hb ▸ rfl) (by simp)
  | sent hc ho => exact h.deliver hc ho
  | @rejected i c hc hb =>
    have hmark : (f.mark i c (.answered (.error (.queueFull f.engine.name)))).Delivered :=
      h.mark hc (hb ▸ rfl) (by simp)
    exact hmark.congr rfl fun _ _ _ => .rfl
  | gone hc ho hstage => exact h.mark hc ho (by rcases hstage with rfl | rfl <;> simp)
  | _ => exact h.congr rfl fun _ _ _ => .rfl

/-! ### What is run -/

/-- What was accepted is what was taken and what waits, in this order. -/
structure Lined (f : Feed ω ι C) : Prop where
  accepted : f.accepted = f.taken ++ f.line
  queue : f.engine.hasWorker = true → f.engine.queue = f.line.map (·.payload)

theorem Lined.shift (h : f.Lined) (hs : f.Shift m f') : f'.Lined := by
  obtain ⟨ha, hq⟩ := h
  cases hs with
  | sent hc ho hroom =>
    refine ⟨?_, fun hw => ?_⟩
    · change f.accepted ++ _ = f.taken ++ (f.line ++ _)
      rw [ha, List.append_assoc]
    · change f.engine.queue ++ _ = (f.line ++ _).map _
      rw [hq hw, List.map_append]
      rfl
  | @took payload queue p line hr hw hqueue hl =>
    -- The payload at the head of the queue is that of the parcel at the head of the line.
    have hpq := hq (by rw [Ingest.hasWorker, hw])
    rw [hqueue, hl, List.map_cons] at hpq
    obtain ⟨rfl, rfl⟩ := List.cons.inj hpq
    refine ⟨?_, fun _ => rfl⟩
    simp only [taken, hr, hl, Option.toList_none, Option.toList_some, List.append_nil] at ha ⊢
    rw [ha, List.append_assoc]
    rfl
  | @concluded c e q t hr hc =>
    refine ⟨?_, fun hw' => ?_⟩
    · simp only [taken, hr, Option.toList_none, Option.toList_some, List.append_nil, List.map_append,
        List.map_cons, List.map_nil] at ha ⊢
      exact ha
    · cases e with
      | panicked t => cases hw'
      | completed | failed | blocked => exact hq hc.hasWorker
  | held hr hc => exact ⟨ha, fun _ => hq hc.hasWorker⟩
  | _ => exact ⟨ha, hq⟩

/-! ### What comes of it -/

/-- What the worker made of the payloads that it took: their endings, the run that is held, and the pipeline
and the store behind them. Each run is made on the pipeline and in the store that the one before left, but
for what `others` left in between; a run that is held goes on where its step answers. -/
inductive Worked (p : Pipeline ω ι C) (s : Store ω ι) (others : Pipeline ω ι C → Store ω ι → Prop) :
    List (Parcel C × Ending ω ι C (RunResult C)) → Option (Parcel C × Held ω ι C) →
      Pipeline ω ι C → Store ω ι → Prop
  | start : Worked p s others [] none p s
  | ran {rs : List (Parcel C × Ending ω ι C (RunResult C))} {q q' : Pipeline ω ι C} {t t' : Store ω ι}
    {c : Parcel C} {e : Ending ω ι C (RunResult C)} (hp : Worked p s others rs none q t)
    (h : q.execute none c.payload t = (e, q', t')) (he : ∀ h, e ≠ .blocked h) :
    Worked p s others (rs ++ [(c, e)]) none q' t'
  | held {rs : List (Parcel C × Ending ω ι C (RunResult C))} {q q' : Pipeline ω ι C} {t t' : Store ω ι}
    {c : Parcel C} {d : Held ω ι C} (hp : Worked p s others rs none q t)
    (h : q.execute none c.payload t = (.blocked d, q', t')) : Worked p s others rs (some (c, d)) q' t'
  | resumed {rs : List (Parcel C × Ending ω ι C (RunResult C))} {q : Pipeline ω ι C} {t t' : Store ω ι}
    {c : Parcel C} {d : Held ω ι C} {a : Answer C} {e : Ending ω ι C (RunResult C)}
    (hp : Worked p s others rs (some (c, d)) q t) (h : Executor.resume d a t = (e, t'))
    (he : ∀ h, e ≠ .blocked h) : Worked p s others (rs ++ [(c, e)]) none q t'
  | heldOn {rs : List (Parcel C × Ending ω ι C (RunResult C))} {q : Pipeline ω ι C} {t t' : Store ω ι}
    {c : Parcel C} {d d' : Held ω ι C} {a : Answer C} (hp : Worked p s others rs (some (c, d)) q t)
    (h : Executor.resume d a t = (.blocked d', t')) : Worked p s others rs (some (c, d')) q t'
  | shared {rs : List (Parcel C × Ending ω ι C (RunResult C))} {x : Option (Parcel C × Held ω ι C)}
    {q q' : Pipeline ω ι C} {t t' : Store ω ι} (hp : Worked p s others rs x q t) (ho : others q' t') :
    Worked p s others rs x q' t'

theorem Worked.mono {p q : Pipeline ω ι C} {s t : Store ω ι}
    {others others' : Pipeline ω ι C → Store ω ι → Prop}
    {rs : List (Parcel C × Ending ω ι C (RunResult C))} {x : Option (Parcel C × Held ω ι C)}
    (h : Worked p s others rs x q t) (ho : ∀ q t, others q t → others' q t) :
    Worked p s others' rs x q t := by
  induction h with
  | start => exact .start
  | ran _ hrun he ih => exact .ran ih hrun he
  | held _ hrun ih => exact .held ih hrun
  | resumed _ hrun he ih => exact .resumed ih hrun he
  | heldOn _ hrun ih => exact .heldOn ih hrun
  | shared _ hq ih => exact .shared ih (ho _ _ hq)

/-- The parcel whose run is held, and the run. -/
def held (f : Feed ω ι C) : Option (Parcel C × Held ω ι C) :=
  match f.running, f.engine.worker with
  | some c, .holding h => some (c, h)
  | _, _ => none

section
omit [Host ω] [LocalAction ω ι C]

theorem held_of_ready (h : f.engine.worker = .ready) : f.held = none := by
  unfold held
  rw [h]
  cases f.running <;> rfl

theorem held_of_holding {c : Parcel C} {h : Held ω ι C} (hr : f.running = some c)
    (hw : f.engine.worker = .holding h) : f.held = some (c, h) := by
  rw [held, hr, hw]

end

/-- All that came of the payloads is what the worker made of them. -/
def Made (p : Pipeline ω ι C) (s : Store ω ι) (others : Pipeline ω ι C → Store ω ι → Prop)
    (f : Feed ω ι C) : Prop :=
  Worked p s others f.ended f.held f.engine.pipeline f.store

variable {p : Pipeline ω ι C} {s : Store ω ι} {others : Pipeline ω ι C → Store ω ι → Prop}
  {x : Option (Parcel C × Held ω ι C)}

theorem made_iff (hx : f.held = x) :
    f.Made p s others ↔ Worked p s others f.ended x f.engine.pipeline f.store := by
  rw [Made, hx]

theorem Made.shift (h : f.Made p s others) (hs : f.Shift m f')
    (ho : ∀ q t, m = .elsewhere q t → others q t) : f'.Made p s others := by
  cases hs with
  | took hr hw hq hl =>
    -- A worker that is ready holds no run, whether it has taken a payload or not.
    refine (made_iff (held_of_ready ?_)).2 ((made_iff (held_of_ready hw)).1 h)
    exact hw
  | @held c d q t hr hc =>
    refine (made_iff (x := some (c, d)) (held_of_holding ?_ rfl)).2 ?_
    · exact hr
    cases hc with
    | ran hw hrun => exact .held ((made_iff (held_of_ready hw)).1 h) hrun
    | resumed hw hrun => exact .heldOn ((made_iff (held_of_holding hr hw)).1 h) hrun
  | concluded hr hc he =>
    refine (made_iff rfl).2 ?_
    rw [Ingest.afterRun_pipeline]
    cases hc with
    | ran hw hrun => exact .ran ((made_iff (held_of_ready hw)).1 h) hrun he
    | resumed hw hrun => exact .resumed ((made_iff (held_of_holding hr hw)).1 h) hrun he
  | shared hm => exact .shared h (ho _ _ hm)
  | _ => exact h

theorem made_run (g : Ingest ω ι C) (s : Store ω ι) (ms : List (Move ω ι C)) :
    ((new g s).run ms).Made g.pipeline s fun q t => .elsewhere q t ∈ ms :=
  run_keeps .start ms fun _ _ _ hm h hs => h.shift hs fun _ _ he => he ▸ hm

/-! ### What is counted -/

/-- The counts are those of the runs that came to their ends, unless one of them panicked. -/
structure Counted (f : Feed ω ι C) : Prop where
  processed : f.engine.hasWorker = true → f.engine.stats.processed = f.ended.length
  failed : f.engine.stats.failed = f.ended.countP (·.2.isFailure)
  panicked : f.engine.hasWorker = false → ∃ r ∈ f.ended, r.2.isPanic = true

theorem Counted.shift (h : f.Counted) (hs : f.Shift m f') : f'.Counted := by
  obtain ⟨hp, hf, hx⟩ := h
  cases hs with
  | held hr hc => exact ⟨fun _ => hp hc.hasWorker, hf, fun h => nomatch h⟩
  | @concluded p e q t hr hc he =>
    have hlen : (f.ended ++ [(p, e)]).length = f.ended.length + 1 := List.length_append
    have hcount : (f.ended ++ [(p, e)]).countP (·.2.isFailure) =
        f.ended.countP (·.2.isFailure) + if e.isFailure then 1 else 0 := by
      rw [List.countP_append, List.countP_singleton]
    have hdone : f.engine.stats.processed + 1 = (f.ended ++ [(p, e)]).length :=
      (congrArg (· + 1) (hp hc.hasWorker)).trans hlen.symm
    have hfail (n : Nat) : f.engine.stats.failed + n = f.ended.countP (·.2.isFailure) + n := congrArg (· + n) hf
    cases e with
    | completed r => exact ⟨fun _ => hdone, (hfail _).trans hcount.symm, (nomatch ·)⟩
    | failed e => exact ⟨fun _ => hdone, (hfail 1).trans hcount.symm, (nomatch ·)⟩
    | panicked t =>
      exact ⟨(nomatch ·), (hfail 0).trans hcount.symm, fun _ => ⟨_, List.mem_concat_self, rfl⟩⟩
    | blocked h => exact absurd rfl (he h)
  | _ => exact ⟨hp, hf, hx⟩

/-! ### The end of the queue -/

/-- Nothing is left to be run, and nobody can add to it. -/
structure Spent (f : Feed ω ι C) : Prop where
  stopped : f.engine.isRunning = false
  closed : ∀ c ∈ f.calls, c.stage.isOpen = false
  line : f.line = []
  running : f.running = none

theorem Spent.shift (h : f.Spent) (hs : f.Shift m f') : f'.Spent := by
  obtain ⟨hstop, hclosed, hline, hrun⟩ := h
  have hshut {i : Nat} {c : Call C} (hc : f.calls[i]? = some c) : c.stage.isOpen ≠ true :=
    Bool.eq_false_iff.1 (hclosed c (List.mem_of_getElem? hc))
  cases hs with
  | came payload way hr => exact nomatch hstop.symm.trans hr
  | turnedAway payload way hr =>
    refine ⟨hstop, fun c hc => ?_, hline, hrun⟩
    rcases List.mem_append.1 hc with hc | hc
    · exact hclosed c hc
    · rw [List.mem_singleton.1 hc]
      rfl
  | granted hc hb | rejected hc hb => exact absurd (hb ▸ rfl) (hshut hc)
  | sent hc ho | gone hc ho => exact absurd ho (hshut hc)
  | took hr hw hq hl => exact nomatch hline.symm.trans hl
  | held hr | concluded hr => exact nomatch hrun.symm.trans hr
  | stopped => exact ⟨rfl, hclosed, hline, hrun⟩
  | nothing | drained | joined | shared => exact ⟨hstop, hclosed, hline, hrun⟩

/-- A worker that found the queue at its end left nothing behind. -/
structure Closing (f : Feed ω ι C) : Prop where
  drained : f.drained = true → f.Spent
  joined : f.engine.joined = true → f.drained = true ∨ f.engine.hasWorker = false

theorem Closing.shift (h : f.Closing) (hl : f.Lined) (hs : f.Shift m f') : f'.Closing := by
  obtain ⟨hd, hj⟩ := h
  have hspent (h : f.drained = true) : f'.Spent := (hd h).shift hs
  cases hs with
  | drained hr hw hq hh =>
    -- An empty queue says that the line is empty only while there is a worker.
    obtain ⟨hstop, hclosed⟩ := hasHandle_eq_false.1 hh
    have hline : f.line = [] := List.map_eq_nil_iff.1 ((hl.queue hw).symm.trans hq)
    exact ⟨fun _ => ⟨hstop, hclosed, hline, hr⟩, fun _ => .inl rfl⟩
  | joined hstop hor => exact ⟨hspent, fun _ => hor⟩
  -- If the worker was waited for and has not panicked, it found the queue at its end.
  | held hr hc =>
    exact ⟨hspent, fun h => .inl ((hj h).resolve_right fun hno => nomatch hc.hasWorker.symm.trans hno)⟩
  | concluded hr hc =>
    refine ⟨hspent, fun h => .inl ((hj ?_).resolve_right fun hno => nomatch hc.hasWorker.symm.trans hno)⟩
    rwa [Ingest.afterRun_joined] at h
  | _ => exact ⟨hspent, hj⟩

/-! ### Every run -/

theorem Shift.capacity (hs : f.Shift m f') : f'.engine.capacity = f.engine.capacity := by
  cases hs with
  | concluded => exact Ingest.afterRun_capacity _ _
  | _ => rfl

theorem Shift.name (hs : f.Shift m f') : f'.engine.name = f.engine.name := by
  cases hs with
  | concluded => exact Ingest.afterRun_name _ _
  | _ => rfl

theorem Shift.isRunning (hs : f.Shift m f') (h : f.engine.isRunning = false) : f'.engine.isRunning = false := by
  cases hs with
  | concluded => exact (Ingest.afterRun_isRunning _ _).trans h
  | stopped => rfl
  | _ => exact h

/-- A call is told that the queue is full if no slot is free. It is counted, and nothing else happens. -/
theorem Shift.rejected_of (hs : f.Shift m f') {i : Nat} {c : Call C} (hc : f'.calls[i]? = some c)
    (hr : c.stage.isRejected = true) (hne : f.calls[i]? ≠ some c) :
    c.way = .attempt ∧ f.engine.capacity ≤ f.engine.queue.length + f.kept ∧
      f' = { f with calls := f.calls.set i c, engine := f.engine.reject } := by
  have hmarked {j : Nat} {d : Call C} {stage : Stage} (hd : f.calls[j]? = some d)
      (hm : (f.mark j d stage).calls[i]? = some c) : j = i ∧ { d with stage := stage } = c := by
    rw [getElem?_mark hd] at hm
    split at hm
    · exact ⟨‹_›, Option.some.inj hm⟩
    · exact absurd hm hne
  cases hs with
  | came | turnedAway =>
    rw [(f.getElem?_of_enter hc).resolve_left hne] at hr
    cases hr
  | granted hd | sent hd =>
    rw [← (hmarked hd hc).2] at hr
    cases hr
  | rejected hd hb hw hfull =>
    obtain ⟨rfl, rfl⟩ := hmarked hd hc
    exact ⟨hw, hfull, rfl⟩
  | gone hd ho hstage =>
    rw [← (hmarked hd hc).2] at hr
    rcases hstage with rfl | rfl <;> cases hr
  | _ => exact absurd hc hne

/-- All that holds of an engine and its producers behind every run. -/
structure Exact (name : String) (buffer : Nat) (f : Feed ω ι C) : Prop where
  name : f.engine.name = name
  capacity : f.engine.capacity = buffer
  booked : f.Booked
  delivered : f.Delivered
  lined : f.Lined
  counted : f.Counted
  closing : f.Closing

variable {name : String} {buffer : Nat}

theorem Exact.shift (h : f.Exact name buffer) (hs : f.Shift m f') : f'.Exact name buffer where
  name := hs.name.trans h.name
  capacity := hs.capacity.trans h.capacity
  booked := h.booked.shift hs
  delivered := h.delivered.shift hs
  lined := h.lined.shift hs
  counted := h.counted.shift hs
  closing := h.closing.shift h.lined hs

omit [Host ω] [LocalAction ω ι C] in
theorem Exact.taken_prefix (h : f.Exact name buffer) : f.taken <+: f.accepted :=
  ⟨f.line, h.lined.accepted.symm⟩

omit [Host ω] [LocalAction ω ι C] in
/-- A worker that was waited for, and of whose runs none panicked, has run what was accepted. -/
theorem Exact.of_joined (h : f.Exact name buffer) (hcalm : ∀ r ∈ f.ended, r.2.isPanic = false)
    (hj : f.engine.joined = true) :
    f.ended.map Prod.fst = f.accepted ∧ f.running = none ∧ f.engine.queue = [] ∧
      f.engine.stats.processed = f.accepted.length ∧
      f.engine.stats.failed = f.ended.countP (·.2.isFailure) := by
  have hw : f.engine.hasWorker = true := by
    refine Bool.eq_false_or_eq_true _ |>.resolve_right fun hno => ?_
    obtain ⟨r, hr, hp⟩ := h.counted.panicked hno
    exact nomatch (hcalm r hr).symm.trans hp
  have hdrained := (h.closing.joined hj).resolve_right fun hno => nomatch hw.symm.trans hno
  obtain ⟨-, -, hline, hrun⟩ := h.closing.drained hdrained
  have hall : f.ended.map Prod.fst = f.accepted := by
    rw [h.lined.accepted, taken, hrun, hline, Option.toList_none, List.append_nil, List.append_nil]
  refine ⟨hall, hrun, ?_, ?_, h.counted.failed⟩
  · rw [h.lined.queue hw, hline, List.map_nil]
  · rw [h.counted.processed hw, ← hall, List.length_map]

theorem exact_new {p : Pipeline ω ι C} {s s' : Store ω ι} {g : Ingest ω ι C}
    (h : Ingest.start name p buffer s = (.ok g, s')) : (new g s').Exact name buffer := by
  obtain ⟨q, rfl⟩ := Ingest.start_eq_ok h
  exact
    { name := rfl
      capacity := rfl
      booked := ⟨Nat.zero_le _, rfl⟩
      delivered := ⟨List.nodup_nil, fun p => ⟨(nomatch ·), fun ⟨_, h, _⟩ => nomatch h⟩⟩
      lined := ⟨rfl, fun _ => rfl⟩
      counted := ⟨fun _ => rfl, rfl, (nomatch ·)⟩
      closing := ⟨(nomatch ·), (nomatch ·)⟩ }

theorem Exact.run (h : f.Exact name buffer) (ms : List (Move ω ι C)) : (f.run ms).Exact name buffer :=
  run_keeps h ms fun _ _ _ _ h hs => h.shift hs

theorem Exact.never_taken (h : f.Exact name buffer) {i : Nat} {c : Call C} (hc : f.calls[i]? = some c)
    (ho : c.stage.isOpen = false) (hs : c.stage ≠ .answered (.ok ())) (ns : List (Move ω ι C)) :
    ∀ p ∈ (f.run ns).taken, p.ticket ≠ i := by
  rintro p hp rfl
  have hrun := h.run ns
  obtain ⟨d, hd, -, hok⟩ := (hrun.delivered.accepted p).1 (hrun.taken_prefix.subset hp)
  have hsame : (f.run ns).calls[p.ticket]? = some c :=
    run_keeps hc ns fun _ _ _ _ hc hs => hs.settled hc ho
  exact hs (Option.some.inj (hsame.symm.trans hd) ▸ hok)

/-- **An ingest engine loses and duplicates nothing**, however its producers, its worker and its shutdown
interleave. What the worker takes is, in this order, a prefix of what was accepted, each call once, and
accepted are the calls that were answered with success. Each ends as the pipeline executes it, in the store
and on the pipeline that the run before left, but for what others do to these. The queue stays within its
size. A call is told that the queue is full only if each slot is taken or kept for another call; then it is
counted, and nothing else happens. Behind a shutdown calls are turned away. What a call asked for that is over
without success is never run. Once a shutdown has waited for the worker, and no run has panicked, all that was
accepted was run and counted. -/
theorem delivers_exactly_once {p : Pipeline ω ι C} {s s' : Store ω ι} {g : Ingest ω ι C}
    (hstart : Ingest.start name p buffer s = (.ok g, s')) (ms : List (Move ω ι C)) :
    let f := (new g s').run ms
    f.taken <+: f.accepted ∧ (f.accepted.map (·.ticket)).Nodup ∧ (∀ p, p ∈ f.accepted ↔ f.Published p) ∧
    Worked g.pipeline s' (fun q t => .elsewhere q t ∈ ms) f.ended f.held f.engine.pipeline f.store ∧
    f.engine.queue.length ≤ buffer ∧
    f.engine.stats.rejected = f.refusals ∧
    (∀ m i c, (f.step m).calls[i]? = some c → c.stage.isRejected = true → f.calls[i]? ≠ some c →
      c.way = .attempt ∧ f.engine.queue.length + f.kept = buffer ∧
        f.step m = { f with calls := f.calls.set i c, engine := f.engine.reject }) ∧
    (∀ ns payload way, let t := (f.step .stop).run ns
      t.step (.publish payload way) =
        { t with calls := t.calls ++ [⟨payload, way, .answered (.error (.engineStopped name))⟩] }) ∧
    (∀ i c, f.calls[i]? = some c → c.stage.isOpen = false → c.stage ≠ .answered (.ok ()) →
      ∀ ns, ∀ p ∈ (f.run ns).taken, p.ticket ≠ i) ∧
    ((∀ r ∈ f.ended, r.2.isPanic = false) → f.engine.joined = true →
      f.ended.map Prod.fst = f.accepted ∧ f.running = none ∧ f.engine.queue = [] ∧
        f.engine.stats.processed = f.accepted.length ∧
        f.engine.stats.failed = f.ended.countP (·.2.isFailure)) := by
  intro f
  have h : f.Exact name buffer := (exact_new hstart).run ms
  have hroom : f.engine.queue.length + f.kept ≤ buffer := h.capacity ▸ h.booked.room
  refine ⟨h.taken_prefix, h.delivered.nodup, h.delivered.accepted, made_run g s' ms,
    Nat.le_of_add_right_le hroom, h.booked.rejected, fun m i c hc hr hne => ?_, fun ns payload way => ?_,
    fun i c hc ho hs ns => h.never_taken hc ho hs ns, fun hcalm hj => h.of_joined hcalm hj⟩
  · obtain ⟨hw, hfull, heq⟩ := (f.shift_step m).rejected_of hc hr hne
    exact ⟨hw, Nat.le_antisymm hroom (h.capacity ▸ hfull), heq⟩
  · intro t
    have hstop : t.engine.isRunning = false :=
      run_keeps (P := fun t => t.engine.isRunning = false) rfl ns fun _ _ _ _ h hs => hs.isRunning h
    have hname : t.engine.name = name := ((h.shift (m := .stop) .stopped).run ns).name
    rw [step, publish, hstop, hname]
    rfl

/-- A pipeline without steps, whose first run is asked to start at a label that it does not have. -/
def astray : Pipeline Bench Empty Nat := { Pipeline.new "astray" with startLabel := some "nowhere" }

def astray.plan : Plan Bench Empty Nat := .ofDefinition ⟨"astray", ⟨true, false⟩, none, ⟨[], [], []⟩⟩

/-- A call is given the only slot, so the next is rejected. The first sends its payload behind the shutdown
that turns the third away, and the worker runs it before the shutdown returns. -/
def astray.moves : List (Move Bench Empty Nat) :=
  [.publish 7 .blocking, .advance 0, .publish 8 .attempt, .advance 1, .stop, .publish 9 .async, .advance 0, .take,
    .finish, .drain, .join]

/-- The engine that runs it. -/
def astray.engine : Ingest Bench Empty Nat :=
  { name := "errands", pipeline := { astray with plan := some astray.plan }, capacity := 1, queue := []
    isRunning := true, worker := .ready, joined := false, stats := ⟨0, 0, 0⟩ }

theorem delivers_behind_shutdown :
    let f := (new astray.engine (.ofWorld (.new 1))).run astray.moves
    Ingest.start "errands" astray 1 (.ofWorld (.new 1)) = (.ok astray.engine, .ofWorld (.new 1)) ∧
      (∀ r ∈ f.ended, r.2.isPanic = false) ∧ f.engine.joined = true ∧
      f.accepted = [⟨0, 7⟩] ∧ f.ended.map Prod.fst = f.accepted ∧ f.engine.stats = ⟨1, 1, 1⟩ ∧
      f.engine.stats.rejected = f.refusals ∧ f.engine.stats.processed = f.accepted.length ∧
      Worked astray.engine.pipeline (.ofWorld (.new 1)) (fun _ _ => False)
        [(⟨0, 7⟩, .failed (.jump (.unknownLabel "astray" "nowhere")))] none f.engine.pipeline f.store := by
  intro f
  have hfault : Ingest.startFault? "errands" 1 = none := by decide +kernel
  have hstart : Ingest.start "errands" astray 1 (.ofWorld (.new 1)) =
      (.ok astray.engine, .ofWorld (.new 1)) := by
    simp only [Ingest.start, hfault]
    rfl
  have hended : f.ended = [(⟨0, 7⟩, .failed (.jump (.unknownLabel "astray" "nowhere")))] := rfl
  have hcalm : ∀ r ∈ f.ended, r.2.isPanic = false := by
    rw [hended]
    exact List.forall_mem_singleton.2 rfl
  have hjoined : f.engine.joined = true := rfl
  have haccepted : f.accepted = [⟨0, 7⟩] := rfl
  have hstats : f.engine.stats = ⟨1, 1, 1⟩ := rfl
  obtain ⟨-, -, -, hworked, -, hrejected, -, -, -, hdone⟩ := delivers_exactly_once hstart astray.moves
  obtain ⟨hall, -, -, hprocessed, -⟩ := hdone hcalm hjoined
  refine ⟨hstart, hcalm, hjoined, haccepted, hall, hstats, hrejected, hprocessed, ?_⟩
  -- Nobody else comes in between.
  have hnobody (q : Pipeline Bench Empty Nat) (t : Store Bench Empty) : Move.elsewhere q t ∉ astray.moves := by
    simp [astray.moves]
  exact hended ▸ hworked.mono hnobody

end Feed
end Pipeworks
