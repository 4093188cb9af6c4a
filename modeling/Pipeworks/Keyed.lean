/-!
# Tables keyed by text

A table holds at most one value per key, in ascending order of the keys, so two tables with the
same look-ups are equal and a listing is in key order.
-/

namespace Pipeworks

structure Keyed (α : Type) where
  entries : List (String × α)
  sorted : entries.Pairwise (fun a b => a.1 < b.1)

namespace Keyed
variable {α β : Type}

def empty : Keyed α := ⟨[], .nil⟩

instance : Inhabited (Keyed α) := ⟨empty⟩
instance : EmptyCollection (Keyed α) := ⟨empty⟩

instance [DecidableEq α] : DecidableEq (Keyed α) := fun a b =>
  match decEq a.entries b.entries with
  | .isTrue h => .isTrue (by cases a; cases b; simp_all)
  | .isFalse h => .isFalse (fun e => h (e ▸ rfl))

def size (t : Keyed α) : Nat := t.entries.length
def isEmpty (t : Keyed α) : Bool := t.entries.isEmpty
def keys (t : Keyed α) : List String := t.entries.map (·.1)
def get? (t : Keyed α) (k : String) : Option α := t.entries.lookup k
def contains (t : Keyed α) (k : String) : Bool := (t.get? k).isSome

/-- Puts a value at its place in a sorted listing; a value already there is replaced. -/
def insertEntry (k : String) (v : α) : List (String × α) → List (String × α)
  | [] => [(k, v)]
  | e :: r => if k < e.1 then (k, v) :: e :: r else if e.1 < k then e :: insertEntry k v r else (k, v) :: r

theorem mem_insertEntry {k : String} {v : α} {l : List (String × α)} {e : String × α}
    (h : e ∈ insertEntry k v l) : e = (k, v) ∨ e ∈ l := by
  induction l with
  | nil => simpa [insertEntry] using h
  | cons a r ih =>
    unfold insertEntry at h
    split at h
    · simpa using h
    · split at h
      · rcases List.mem_cons.1 h with h | h
        · simp [h]
        · rcases ih h with h | h <;> simp [h]
      · rcases List.mem_cons.1 h with h | h <;> simp [h]

theorem eq_of_not_lt {a b : String} (h₁ : ¬a < b) (h₂ : ¬b < a) : a = b :=
  String.le_antisymm (String.not_lt.1 h₂) (String.not_lt.1 h₁)

theorem pairwise_insertEntry (k : String) (v : α) {l : List (String × α)}
    (h : l.Pairwise (fun a b => a.1 < b.1)) :
    (insertEntry k v l).Pairwise (fun a b => a.1 < b.1) := by
  induction l with
  | nil => simp [insertEntry]
  | cons a r ih =>
    have ⟨ha, hr⟩ := List.pairwise_cons.1 h
    unfold insertEntry
    split
    · rename_i hk
      refine List.pairwise_cons.2 ⟨fun e he => ?_, h⟩
      rcases List.mem_cons.1 he with rfl | he
      · exact hk
      · exact String.lt_trans hk (ha e he)
    · split
      · rename_i hk
        refine List.pairwise_cons.2 ⟨fun e he => ?_, ih hr⟩
        rcases mem_insertEntry he with rfl | he
        · exact hk
        · exact ha e he
      · rename_i h₁ h₂
        obtain rfl : k = a.1 := eq_of_not_lt h₁ h₂
        exact List.pairwise_cons.2 ⟨fun e he => ha e he, hr⟩

def insert (t : Keyed α) (k : String) (v : α) : Keyed α :=
  ⟨insertEntry k v t.entries, pairwise_insertEntry k v t.sorted⟩

def alter (t : Keyed α) (k : String) (f : Option α → α) : Keyed α := t.insert k (f (t.get? k))

/-- The table of a listing; of two values for one key the later one stays. -/
def ofList (l : List (String × α)) : Keyed α := l.foldl (fun t e => t.insert e.1 e.2) empty

theorem lookup_insertEntry (k k' : String) (v : α) (l : List (String × α)) :
    (insertEntry k v l).lookup k' = if k' = k then some v else l.lookup k' := by
  induction l with
  | nil => by_cases h : k' = k <;> simp [insertEntry, h]
  | cons a r ih =>
    obtain ⟨j, u⟩ := a
    have cons (i : String) (w : α) (l : List (String × α)) :
        ((i, w) :: l).lookup k' = if k' = i then some w else l.lookup k' := by
      by_cases h : k' = i
      · simp [h]
      · simp [List.lookup_cons, h, beq_eq_false_iff_ne.2 h]
    unfold insertEntry
    split
    · rw [cons]
    · split
      · rename_i hlt
        have hne : j ≠ k := fun e => String.lt_irrefl k (e ▸ hlt)
        rw [cons, cons, ih]
        by_cases h : k' = j
        · simp [h, hne]
        · simp [h]
      · rename_i h₁ h₂
        obtain rfl : k = j := eq_of_not_lt h₁ h₂
        rw [cons, cons]
        by_cases h : k' = k <;> simp [h]

theorem get?_insert (t : Keyed α) (k k' : String) (v : α) :
    (t.insert k v).get? k' = if k' = k then some v else t.get? k' :=
  lookup_insertEntry ..

@[simp] theorem get?_insert_self (t : Keyed α) (k : String) (v : α) : (t.insert k v).get? k = some v := by
  simp [get?_insert]

theorem get?_insert_ne (t : Keyed α) {k k' : String} (v : α) (h : k' ≠ k) :
    (t.insert k v).get? k' = t.get? k' := by
  simp [get?_insert, h]

end Keyed
end Pipeworks
