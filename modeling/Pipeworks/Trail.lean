/-!
# Trails

A list that grows at its end. The newest item is stored first, so that adding one takes the same time
however long the trail is; `toList` is the trail in the order of its growth.
-/

namespace Pipeworks

structure Trail (α : Type) where
  newestFirst : List α
  size : Nat
  size_eq : size = newestFirst.length

namespace Trail
variable {α : Type}

def empty : Trail α := ⟨[], 0, rfl⟩

instance : Inhabited (Trail α) := ⟨empty⟩
instance : EmptyCollection (Trail α) := ⟨empty⟩

def toList (t : Trail α) : List α := t.newestFirst.reverse

def push (t : Trail α) (a : α) : Trail α :=
  ⟨a :: t.newestFirst, t.size + 1, by rw [t.size_eq, List.length_cons]⟩

/-- Adds the items of a list, the first one first. -/
def pushAll (t : Trail α) (l : List α) : Trail α := l.foldl push t

@[simp] theorem toList_empty : (∅ : Trail α).toList = [] := rfl

@[simp] theorem toList_push (t : Trail α) (a : α) : (t.push a).toList = t.toList ++ [a] :=
  List.reverse_cons

@[simp] theorem toList_pushAll (t : Trail α) (l : List α) : (t.pushAll l).toList = t.toList ++ l := by
  induction l generalizing t with
  | nil => exact (List.append_nil _).symm
  | cons a l ih =>
    rw [pushAll, List.foldl_cons, ← pushAll, ih, toList_push, List.append_assoc, List.singleton_append]

theorem size_eq_length (t : Trail α) : t.size = t.toList.length := by
  rw [t.size_eq, toList, List.length_reverse]

theorem eq_of_toList_eq {t u : Trail α} (h : t.toList = u.toList) : t = u := by
  obtain ⟨l, n, hn⟩ := t
  obtain ⟨m, k, hk⟩ := u
  have hl : l = m := List.reverse_inj.1 h
  subst hl hn hk
  rfl

end Trail
end Pipeworks
