import Mathlib.Data.List.Nodup
import Mathlib.Data.List.Perm.Basic
import Pipeworks.Keyed

/-!
# Tables and listings

A table is told by its look-ups (`eq_of_get?_eq`). The table of a listing has under each key what the listing
says last (`get?_ofList`), so that a table is the table of its own entries in any order (`ofList_of_perm`).
-/

namespace Pipeworks.Keyed
variable {α : Type} {t u : Keyed α} {k : String} {v : α}

theorem nodup_keys (t : Keyed α) : t.keys.Nodup := by
  refine List.pairwise_map.2 (t.sorted.imp fun {a b} hlt heq => ?_)
  rw [heq] at hlt
  exact String.lt_irrefl _ hlt

theorem mem_entries : (k, v) ∈ t.entries ↔ t.get? k = some v := by
  obtain ⟨entries, sorted⟩ := t
  simp only [get?]
  induction entries with
  | nil => simp
  | cons e es ih =>
    obtain ⟨hhead, hes⟩ := List.pairwise_cons.1 sorted
    rw [List.mem_cons, List.lookup_cons]
    by_cases h : k = e.1
    · subst h
      -- The keys behind the first one are greater, so there is no second value under it.
      have hnot : (e.1, v) ∉ es := fun hmem => String.lt_irrefl _ (hhead (e.1, v) hmem)
      simp [hnot, Prod.ext_iff, eq_comm]
    · have hbeq : (k == e.1) = false := beq_eq_false_iff_ne.2 h
      simp [hbeq, Prod.ext_iff, h, ih hes]

theorem mem_keys : k ∈ t.keys ↔ ∃ v, t.get? k = some v := by
  rw [keys, List.mem_map]
  constructor
  · rintro ⟨⟨k, v⟩, hmem, rfl⟩
    exact ⟨v, mem_entries.1 hmem⟩
  · rintro ⟨v, hv⟩
    exact ⟨(k, v), mem_entries.2 hv, rfl⟩

theorem eq_of_get?_eq (h : ∀ k, t.get? k = u.get? k) : t = u := by
  have hperm : t.entries.Perm u.entries := by
    refine (List.perm_ext_iff_of_nodup t.nodup_keys.of_map u.nodup_keys.of_map).2 fun ⟨k, v⟩ => ?_
    rw [mem_entries, mem_entries, h]
  have hentries : t.entries = u.entries :=
    hperm.eq_of_pairwise (fun a b _ _ hab hba => absurd (String.lt_trans hab hba) (String.lt_irrefl _))
      t.sorted u.sorted
  cases t
  cases u
  cases hentries
  rfl

/-- Of the values that a listing has for a key, the last one stays. -/
theorem get?_ofList (l : List (String × α)) (k : String) : (ofList l).get? k = l.reverse.lookup k := by
  have hfold (l : List (String × α)) (t : Keyed α) :
      (l.foldl (fun t e => t.insert e.1 e.2) t).get? k = (l.reverse.lookup k).or (t.get? k) := by
    induction l generalizing t with
    | nil => rfl
    | cons e es ih =>
      have hone : [e].lookup k = if k = e.1 then some e.2 else none := by
        obtain ⟨j, v⟩ := e
        rw [List.lookup_cons]
        by_cases h : k = j
        · simp [h]
        · simp [h, beq_eq_false_iff_ne.2 h]
      rw [List.foldl_cons, ih, List.reverse_cons, List.lookup_append, Option.or_assoc, get?_insert, hone]
      split <;> rfl
  rw [ofList, hfold]
  exact Option.or_none

/-- A key that comes in no later entry of the listing has the value of its entry. -/
theorem get?_ofList_of_last {l r : List (String × α)} (h : ∀ e ∈ r, e.1 ≠ k) :
    (ofList (l ++ (k, v) :: r)).get? k = some v := by
  rw [get?_ofList, List.reverse_append, List.reverse_cons, List.append_assoc, List.lookup_eq_some_iff]
  refine ⟨r.reverse, l.reverse, rfl, fun e he => ?_⟩
  exact bne_iff_ne.2 (h e (List.mem_reverse.1 he)).symm

theorem mem_keys_ofList {l : List (String × α)} : k ∈ (ofList l).keys ↔ k ∈ l.map (·.1) := by
  rw [mem_keys, ← Option.isSome_iff_exists, get?_ofList, List.lookup_isSome_iff, List.mem_map]
  simp only [List.mem_reverse, beq_iff_eq, eq_comm (a := k)]

/-- A table is the table of its entries, in whatever order they are listed. -/
theorem ofList_of_perm {l : List (String × α)} (h : l.Perm t.entries) : ofList l = t := by
  have hkeys : (l.map (·.1)).Nodup := (h.map _).nodup_iff.2 t.nodup_keys
  have hvalue {k : String} {v : α} (hmem : (k, v) ∈ l) : (ofList l).get? k = some v := by
    obtain ⟨before, after, rfl⟩ := List.append_of_mem hmem
    refine get?_ofList_of_last fun e he heq => ?_
    rw [List.map_append, List.map_cons] at hkeys
    exact (List.nodup_cons.1 (List.nodup_append.1 hkeys).2.1).1 (List.mem_map.2 ⟨e, he, heq⟩)
  refine eq_of_get?_eq fun k => ?_
  cases ht : t.get? k with
  | some v => exact hvalue (h.mem_iff.2 (mem_entries.2 ht))
  | none =>
    refine Option.eq_none_iff_forall_ne_some.2 fun v hv => ?_
    obtain ⟨⟨k, w⟩, hmem, rfl⟩ := List.mem_map.1 (mem_keys_ofList.1 (mem_keys.2 ⟨v, hv⟩))
    rw [mem_entries.1 (h.mem_iff.1 hmem)] at ht
    cases ht

end Pipeworks.Keyed
