import Pipeworks.Pool.Traffic
/-!
# The slots and the instances of a pool

`pool_safety`: whatever the clients of a pool do, its count covers what is idle, lent or being made and
never exceeds its bound, every instance is in one place, and no section takes more from the count than
is there. The count is exact but for the slots of calls of the factory that panicked
(`slots_lost_to_panics`): nobody gives those back.
-/

namespace Pipeworks

/-- How often an instance is in a list. -/
def Piece.copies {α : Type} (n : Nat) (l : List (Piece α)) : Nat := (l.map (·.serial)).count n

namespace Piece
variable {α : Type} {n : Nat} {l l' : List (Piece α)} {p : Piece α}

@[simp] theorem copies_nil : copies n ([] : List (Piece α)) = 0 := rfl

@[simp] theorem copies_append : copies n (l ++ l') = copies n l + copies n l' := by
  simp [copies]

theorem copies_singleton : copies n [p] = if p.serial = n then 1 else 0 := by
  by_cases h : p.serial = n <;> simp [copies, h]

theorem copies_cons : copies n (p :: l) = copies n [p] + copies n l :=
  copies_append (l := [p])

theorem copies_perm (h : l.Perm l') : copies n l = copies n l' := (h.map _).count_eq n

end Piece

namespace Traffic
variable {α : Type} {t t' : Traffic α}

/-! ### The slots -/

structure Slots (t : Traffic α) : Prop where
  counted : t.pool.created = t.pool.idle.length + t.lent.length + t.making + t.panics
  bounded : t.pool.created ≤ t.pool.max

theorem Slots.shift (h : t.Slots) (hs : t.Shift t') : t'.Slots := by
  obtain ⟨hn, hb⟩ := h
  cases hs with
  | nothing | turnedAway hc | exhausted k hc hi hle | roused hs hle hl => exact ⟨hn, hb⟩
  | lent hw hc hi =>
    refine ⟨?_, hb⟩
    simp only [hi, List.length_cons, List.length_append, List.length_nil] at hn ⊢
    omega
  | reserved hw hc hi hlt =>
    refine ⟨?_, hlt⟩
    simp only [hi, List.length_nil] at hn ⊢
    omega
  | made a hm =>
    refine ⟨?_, hb⟩
    simp only [List.length_append, List.length_cons, List.length_nil]
    omega
  | refused hm =>
    refine ⟨?_, ?_⟩ <;> simp only [Pool.forget] <;> omega
  | @panicked n hm =>
    refine ⟨?_, hb⟩
    show t.pool.created = t.pool.idle.length + t.lent.length + n + (t.panics + 1)
    omega
  | changed hl =>
    refine ⟨?_, hb⟩
    have hlen := congrArg List.length hl
    simp only [List.length_map] at hlen
    rw [hn, hlen]
  | returned hp hc =>
    refine ⟨?_, hb⟩
    have hlen := hp.length_eq
    simp only [List.length_cons, List.length_append, List.length_nil] at hlen ⊢
    omega
  | tooLate hp hc | discarded hp =>
    have hlen := hp.length_eq
    simp only [List.length_cons] at hlen
    refine ⟨?_, ?_⟩ <;> simp only [Pool.forget] <;> omega
  | seeded a hc hlt =>
    refine ⟨?_, hlt⟩
    simp only [List.length_append, List.length_cons, List.length_nil]
    omega
  | noRoom a => exact ⟨hn, hb⟩
  | closed =>
    refine ⟨?_, ?_⟩ <;> simp only [close, Pool.close, List.length_nil] <;> omega

theorem slots_start (name : String) (max : Nat) : (start name max : Traffic α).Slots :=
  ⟨rfl, Nat.zero_le _⟩

theorem slots_run (name : String) (max : Nat) (ms : List (Move α)) : ((start name max).run ms).Slots :=
  run_keeps (slots_start name max) (fun _ _ h hs => h.shift hs) ms

/-! ### The instances -/

/-- The number of places where an instance is: idle, lent to a guard, or gone. -/
def places (t : Traffic α) (n : Nat) : Nat :=
  Piece.copies n t.pool.idle + Piece.copies n t.lent + Piece.copies n t.dropped

/-- Each instance that came to the pool is in one place. -/
def InPlace (t : Traffic α) : Prop := ∀ n, t.places n = if n < t.count then 1 else 0

theorem InPlace.moved (h : t.InPlace) (hc : t'.count = t.count) (hp : ∀ n, t'.places n = t.places n) :
    t'.InPlace := by
  intro n
  rw [hc, hp]
  exact h n

theorem InPlace.added (h : t.InPlace) {p : Piece α} (hs : p.serial = t.count)
    (hc : t'.count = t.count + 1) (hp : ∀ n, t'.places n = t.places n + Piece.copies n [p]) :
    t'.InPlace := by
  intro n
  rw [hc, hp, h n, Piece.copies_singleton, hs]
  split_ifs <;> omega

theorem InPlace.shift (h : t.InPlace) (hs : t.Shift t') : t'.InPlace := by
  cases hs with
  | nothing | turnedAway hc | exhausted k hc hi hle | roused hs hle hl | reserved hw hc hi hlt =>
    exact h.moved rfl fun _ => rfl
  | refused hm | panicked hm => exact h.moved rfl fun _ => rfl
  | @lent w a rest hw hc hi =>
    refine h.moved rfl fun n => ?_
    have hcons : Piece.copies n t.pool.idle = Piece.copies n [a] + Piece.copies n rest := by
      rw [hi, Piece.copies_cons]
    simp only [places, Piece.copies_append]
    omega
  | changed hl => exact h.moved rfl fun n => by simp only [places, Piece.copies, hl]
  | returned hp hc =>
    refine h.moved rfl fun n => ?_
    have hcons := (Piece.copies_perm (n := n) hp).trans Piece.copies_cons
    simp only [places, Piece.copies_append]
    omega
  | tooLate hp hc | discarded hp =>
    refine h.moved rfl fun n => ?_
    have hcons := (Piece.copies_perm (n := n) hp).trans Piece.copies_cons
    simp only [places, Pool.forget, Piece.copies_append]
    omega
  | made a hm | seeded a hc hlt | noRoom a =>
    refine h.added (p := ⟨t.count, a⟩) rfl rfl fun n => ?_
    simp only [places, Piece.copies_append]
    omega
  | closed =>
    refine h.moved rfl fun n => ?_
    simp only [places, close, Pool.close, Piece.copies_append, Piece.copies_nil]
    omega

theorem inPlace_run (name : String) (max : Nat) (ms : List (Move α)) :
    ((start name max).run ms).InPlace :=
  run_keeps (fun n => (if_neg (Nat.not_lt_zero n)).symm) (fun _ _ h hs => h.shift hs) ms

/-! ### What moves leave alone -/

theorem Shift.max_eq (hs : t.Shift t') : t'.pool.max = t.pool.max := by
  cases hs <;> rfl

theorem Shift.panics_le (hs : t.Shift t') : t.panics ≤ t'.panics := by
  cases hs with
  | panicked hm => exact Nat.le_succ _
  | _ => exact Nat.le_refl _

theorem max_run (t : Traffic α) (ms : List (Move α)) : (t.run ms).pool.max = t.pool.max :=
  run_keeps (P := fun t' => t'.pool.max = t.pool.max) rfl (fun _ _ h hs => hs.max_eq.trans h) ms

theorem panics_le_run (t : Traffic α) (ms : List (Move α)) : t.panics ≤ (t.run ms).panics :=
  run_keeps (P := fun t' => t.panics ≤ t'.panics) (Nat.le_refl _)
    (fun _ _ h hs => Nat.le_trans h hs.panics_le) ms

/-! ### The results -/

/-- **Pool safety.** In every state that clients of a pool can bring about, the count covers all that is
idle, lent or being made and stays within the bound; each instance is idle, lent to one guard, or gone,
and what a borrower finds idle nobody else has; and whatever a section takes from the count is there. -/
theorem pool_safety (name : String) (max : Nat) (ms : List (Move α)) :
    let t := (start name max).run ms
    (t.pool.idle.length + t.lent.length + t.making ≤ t.pool.created ∧
      t.pool.created ≤ t.pool.max ∧ t.pool.max = Nat.max max 1) ∧
    (∀ n, Piece.copies n t.pool.idle + Piece.copies n t.lent + Piece.copies n t.dropped =
      if n < t.count then 1 else 0) ∧
    (∀ a rest, t.pool.take = .idle a rest →
      Piece.copies a.serial t.lent = 0 ∧ Piece.copies a.serial rest.idle = 0) ∧
    t.pool.close.created + t.pool.idle.length = t.pool.created ∧
    (∀ a ∈ t.lent, t.pool.forget.created + 1 = t.pool.created ∧
      (t.pool.closed = true → (t.pool.release a).created + 1 = t.pool.created)) ∧
    (0 < t.making → ∀ e, (t.pool.finish (.refused e)).2.created + 1 = t.pool.created) := by
  intro t
  obtain ⟨hn, hb⟩ : t.Slots := slots_run name max ms
  have hp : t.InPlace := inPlace_run name max ms
  -- Every guard and every call of the factory stands for one slot of the count.
  have hforget (h : 0 < t.lent.length + t.making) : t.pool.forget.created + 1 = t.pool.created := by
    show t.pool.created - 1 + 1 = t.pool.created
    omega
  refine ⟨⟨?_, hb, max_run _ ms⟩, hp, ?_, ?_, ?_, ?_⟩
  · omega
  · intro a rest htake
    have hone : t.places a.serial ≤ 1 := by
      rw [hp]
      split_ifs <;> omega
    have hcons : Piece.copies a.serial t.pool.idle = 1 + Piece.copies a.serial rest.idle := by
      rw [Pool.idle_of_take htake, Piece.copies_cons, Piece.copies_singleton, if_pos rfl]
    simp only [places] at hone
    omega
  · show t.pool.created - t.pool.idle.length + t.pool.idle.length = t.pool.created
    omega
  · intro a ha
    have hlent : 0 < t.lent.length := List.length_pos_of_mem ha
    refine ⟨hforget (by omega), fun hc => ?_⟩
    rw [Pool.release_of_closed hc]
    exact hforget (by omega)
  · intro hm e
    exact hforget (by omega)

/-- What panics of the factory cost. The count is what is idle, lent or being made and one slot for
each panic, so that a pool without guards serves as long as an instance is idle or fewer calls
panicked than there are slots; and a pool that lost all its slots never serves again. -/
theorem slots_lost_to_panics (name : String) (max : Nat) (ms : List (Move α)) :
    let t := (start name max).run ms
    t.pool.created = t.pool.idle.length + t.lent.length + t.making + t.panics ∧
    (t.pool.closed = false → t.lent = [] → t.making = 0 →
      (t.pool.take.serves = true ↔ t.pool.idle ≠ [] ∨ t.panics < t.pool.max)) ∧
    (t.panics = t.pool.max → ∀ more, (t.run more).pool.take.serves = false) := by
  intro t
  have hslots : t.Slots := slots_run name max ms
  refine ⟨hslots.counted, ?_, ?_⟩
  · intro hc hlent hm
    have hn := hslots.counted
    rw [Pool.serves_take hc]
    cases hi : t.pool.idle with
    | cons a rest => simp
    | nil =>
      simp only [hi, hlent, hm, List.length_nil] at hn
      simp only [hn, ne_eq, not_true_eq_false, false_or, Nat.zero_add]
  · intro hall more
    obtain ⟨hn, hb⟩ : (t.run more).Slots := run_keeps hslots (fun _ _ h hs => h.shift hs) more
    have hmax := t.max_run more
    have hpan := t.panics_le_run more
    have hi : (t.run more).pool.idle = [] := List.length_eq_zero_iff.1 (by omega)
    cases hc : (t.run more).pool.closed with
    | true => rw [Pool.take_of_closed hc, Take.serves]
    | false => rw [Pool.take_of_le hc hi (by omega), Take.serves]

/-- One panic is enough for a pool of one instance. -/
theorem slot_lost_to_panic :
    let t := (start "p" 1 : Traffic Unit).run [.borrow, .make (.panicked "no instance")]
    t.making = 0 ∧ t.lent.length = 0 ∧ t.pool.closed = false ∧
      t.pool.created ≠ t.pool.idle.length + t.lent.length ∧ t.pool.take.serves = false := by
  decide

end Traffic
end Pipeworks
