import Pipeworks.Pool.Traffic
/-!
# Wake-ups of a pool

`no_lost_wakeup`: while a borrower waits at an open pool and was not woken, as many borrowers are about
to look again as there are instances and slots to take, and nobody waits at a closed pool.

A wake-up may be given when nobody waits, and a borrower that was woken may find that another one came
first. Neither is a loss (`Alert.shift`): a borrower waits only if there is nothing to take, and every
section that leaves something to take owes a wake-up until it gives it.
-/

namespace Pipeworks
namespace Traffic
variable {α : Type} {t t' : Traffic α}

/-- What borrowers could take: idle instances and slots. -/
def free (t : Traffic α) : Nat := t.pool.idle.length + (t.pool.max - t.pool.created)

/-- Somebody is about to look after those that wait. -/
structure Alert (t : Traffic α) : Prop where
  covered : t.pool.closed = false → 0 < t.asleep → t.free ≤ t.woken + t.signals
  alarmed : t.pool.closed = true → 0 < t.asleep → 0 < t.alarms
  /-- Only a closed pool wakes all. -/
  sounded : 0 < t.alarms → t.pool.closed = true

theorem Alert.shift (h : t.Alert) (hs : t.Shift t') : t'.Alert := by
  obtain ⟨hcov, halarm, hsound⟩ := h
  cases hs with
  | nothing | changed hl | made a hm | panicked hm | noRoom a => exact ⟨hcov, halarm, hsound⟩
  | @lent w a rest hw hc hi =>
    refine ⟨fun _ hsleep => ?_, halarm, hsound⟩
    have hfree := hcov hc hsleep
    simp only [free, hi, List.length_cons] at hfree ⊢
    omega
  | reserved hw hc hi hlt =>
    refine ⟨fun _ hsleep => ?_, halarm, hsound⟩
    have hfree := hcov hc hsleep
    simp only [free] at hfree ⊢
    omega
  | exhausted n hc hi hle =>
    -- The only way to fall asleep: nothing is free.
    refine ⟨fun _ _ => ?_, fun hc' => ?_, hsound⟩
    · simp only [free, hi, List.length_nil]
      omega
    · rw [hc] at hc'
      nomatch hc'
  | turnedAway hc =>
    refine ⟨fun hc' => ?_, halarm, hsound⟩
    rw [hc] at hc'
    nomatch hc'
  | refused hm | discarded hp =>
    refine ⟨fun hc hsleep => ?_, halarm, hsound⟩
    have hfree := hcov hc hsleep
    simp only [free, Pool.forget] at hfree ⊢
    omega
  | returned hp hc | seeded a hc hlt =>
    refine ⟨fun hc hsleep => ?_, halarm, hsound⟩
    have hfree := hcov hc hsleep
    simp only [free, List.length_append, List.length_cons, List.length_nil] at hfree ⊢
    omega
  | tooLate hp hc =>
    refine ⟨fun hc' => ?_, halarm, hsound⟩
    rw [Pool.forget, hc] at hc'
    nomatch hc'
  | closed => exact ⟨fun hc => Bool.noConfusion hc, fun _ _ => Nat.succ_pos _, fun _ => rfl⟩
  | roused hs hle hl =>
    -- If somebody still waits, each of the `n` wake-ups found somebody.
    refine ⟨fun hc hsleep => ?_, fun hc hsleep => ?_,
      fun hpos => hsound (Nat.lt_of_lt_of_le hpos hle)⟩
    · have hfree := hcov hc
      simp only [free, wake] at hfree hsleep ⊢
      omega
    · have hpos := halarm hc
      simp only [wake] at hsleep ⊢
      omega

theorem alert_run (name : String) (max : Nat) (ms : List (Move α)) : ((start name max).run ms).Alert :=
  run_keeps ⟨fun _ h => absurd h (Nat.lt_irrefl _), fun _ h => absurd h (Nat.lt_irrefl _),
    fun h => absurd h (Nat.lt_irrefl _)⟩ (fun _ _ h hs => h.shift hs) ms

/-- A closed pool at which nobody waits, which stays so. -/
def Cleared (t : Traffic α) : Prop := t.pool.closed = true ∧ t.asleep = 0

theorem Cleared.shift (h : t.Cleared) (hs : t.Shift t') : t'.Cleared := by
  obtain ⟨hc, hz⟩ := h
  cases hs with
  | lent hw ho | reserved hw ho | exhausted n ho | returned hp ho | seeded a ho =>
    rw [hc] at ho
    nomatch ho
  | closed => exact ⟨rfl, hz⟩
  | roused hs hle hl =>
    refine ⟨hc, ?_⟩
    simp only [wake, hz, Nat.zero_sub]
  | _ => exact ⟨hc, hz⟩

theorem cleared_alarm (h : t.Alert) (ha : 0 < t.alarms) : (t.step .alarm).Cleared := by
  have hstep : t.step .alarm = { t with alarms := t.alarms - 1 }.wake t.asleep :=
    if_neg (Nat.pos_iff_ne_zero.1 ha)
  rw [hstep]
  exact ⟨h.sounded ha, Nat.sub_self _⟩

theorem closed_of_mem {ms : List (Move α)} (h : .close ∈ ms) (t : Traffic α) :
    (t.run ms).pool.closed = true := by
  obtain ⟨before, after, rfl⟩ := List.append_of_mem h
  rw [run_append, run_cons]
  refine run_keeps (P := fun t => t.pool.closed = true) rfl (fun t t' hc hs => ?_) after
  cases hs with
  | closed => rfl
  | _ => exact hc

/-! ### Prompt wake-ups -/

theorem run_alarms (n : Nat) (t : Traffic α) (h : t.alarms = n) :
    (t.run (List.replicate n .alarm)).alarms = 0 ∧
      (t.run (List.replicate n .alarm)).signals = t.signals := by
  induction n generalizing t with
  | zero => exact ⟨h, rfl⟩
  | succ n ih =>
    have hstep : t.step .alarm = { t with alarms := n }.wake t.asleep := by
      rw [step, h]
      rfl
    rw [List.replicate_succ, run_cons, hstep]
    exact ih _ rfl

theorem run_signals (n : Nat) (t : Traffic α) (h : t.signals = n) :
    (t.run (List.replicate n .signal)).signals = 0 ∧
      (t.run (List.replicate n .signal)).alarms = t.alarms := by
  induction n generalizing t with
  | zero => exact ⟨h, rfl⟩
  | succ n ih =>
    have hstep : t.step .signal = { t with signals := n }.wake 1 := by
      rw [step, h]
      rfl
    rw [List.replicate_succ, run_cons, hstep]
    exact ih _ rfl

theorem run_due (t : Traffic α) : (t.run t.due).signals = 0 ∧ (t.run t.due).alarms = 0 := by
  obtain ⟨hal, hsig⟩ := run_alarms t.alarms t rfl
  obtain ⟨hsig', hal'⟩ := run_signals t.signals _ hsig
  rw [due, run_append]
  exact ⟨hsig', hal'.trans hal⟩

/-- A prompt run is a run, with more wake-ups, and owes nothing. -/
theorem runPrompt_eq_run (t : Traffic α) (hs : t.signals = 0) (ha : t.alarms = 0)
    (ms : List (Move α)) : (∃ ns, t.runPrompt ms = t.run ns ∧ ms ⊆ ns) ∧
      (t.runPrompt ms).signals = 0 ∧ (t.runPrompt ms).alarms = 0 := by
  induction ms generalizing t with
  | nil => exact ⟨⟨[], rfl, List.Subset.refl _⟩, hs, ha⟩
  | cons m ms ih =>
    obtain ⟨hs', ha'⟩ := (t.step m).run_due
    obtain ⟨⟨ns, hns, hsub⟩, hend⟩ := ih _ hs' ha'
    refine ⟨⟨m :: (t.step m).due ++ ns, ?_, ?_⟩, hend⟩
    · show ((t.step m).run (t.step m).due).runPrompt ms = (t.step m).run ((t.step m).due ++ ns)
      rw [hns, run_append]
    · exact List.cons_subset_cons m fun n hn => List.mem_append_right _ (hsub hn)

/-- **No lost wake-up.** While a borrower waits unwoken at an open pool, the borrowers that were woken
and have not looked again are, with the wake-ups still to be given, as many as the instances and slots
to take; once a closed pool has woken all, nobody waits there. Where every wake-up is given at once,
the borrowers that were woken are enough by themselves, and nobody waits at a closed pool at all. A pool is
closed for good when `close` has run: whoever waits behind it is about to be woken, or has been at once. -/
theorem no_lost_wakeup (name : String) (max : Nat) (ms : List (Move α)) :
    let t := (start name max).run ms
    let u := (start name max).runPrompt ms
    (t.pool.closed = false → 0 < t.asleep →
      t.pool.idle.length + (t.pool.max - t.pool.created) ≤ t.woken + t.signals) ∧
    (∀ before after, ms = before ++ .alarm :: after → 0 < ((start name max).run before).alarms →
      t.asleep = 0) ∧
    (u.pool.closed = false → 0 < u.asleep →
      u.pool.idle.length + (u.pool.max - u.pool.created) ≤ u.woken) ∧
    (u.pool.closed = true → u.asleep = 0) ∧
    (.close ∈ ms → t.pool.closed = true ∧ (t.alarms = 0 → t.asleep = 0) ∧
      u.pool.closed = true ∧ u.asleep = 0) := by
  intro t u
  have ht : t.Alert := alert_run name max ms
  obtain ⟨⟨ns, hns, hsub⟩, hsig, hal⟩ := runPrompt_eq_run (start name max) rfl rfl ms
  have hu : u.Alert := by
    show ((start name max).runPrompt ms).Alert
    rw [hns]
    exact alert_run name max ns
  have hquiet {v : Traffic α} (hv : v.Alert) (hc : v.pool.closed = true) (hal : v.alarms = 0) :
      v.asleep = 0 := by
    by_contra hne
    have hpos := hv.alarmed hc (Nat.pos_of_ne_zero hne)
    rw [hal] at hpos
    exact Nat.lt_irrefl _ hpos
  refine ⟨ht.covered, ?_, ?_, fun hc => hquiet hu hc hal, fun hclose => ?_⟩
  · intro before after hms hpos
    have hcleared := cleared_alarm (alert_run name max before) hpos
    have hafter : t.Cleared := by
      show ((start name max).run ms).Cleared
      rw [hms, run_append, run_cons]
      exact run_keeps hcleared (fun _ _ h hs => h.shift hs) after
    exact hafter.2
  · intro hc hsleep
    have hfree := hu.covered hc hsleep
    rw [hsig] at hfree
    exact hfree
  · have hct : t.pool.closed = true := closed_of_mem hclose _
    have hcu : u.pool.closed = true := by
      show ((start name max).runPrompt ms).pool.closed = true
      rw [hns]
      exact closed_of_mem (hsub hclose) _
    exact ⟨hct, hquiet ht hct, hcu, hquiet hu hcu hal⟩

-- One instance comes back for two that wait: one of them is woken, and there is no more to take.
example :
    let u := (start "p" 1 : Traffic Unit).runPrompt
      [.borrow, .make (.made ()), .borrow, .borrow, .release 0]
    u.asleep = 1 ∧ u.woken = 1 ∧ u.pool.idle.length = 1 := by
  decide

end Traffic
end Pipeworks
