import Pipeworks.Json.Decode
import Pipeworks.Json.Spelling

/-!
# Values that survive their text

A type is written as values and read from values. If what is written prints in full, is read as what it was
written for, and whatever is read fits the type, then texts lose nothing (`Faithful.roundTrip`): neither a text
that was written for a value, nor a text of other making, once what was read from it is written again.
-/

namespace Pipeworks.Json

variable {α : Type}

/-- What a reader makes of the document in a text. -/
def read? (f : Json → Option α) (s : String) : Option α := (ofText? s).bind f

/-- Reading with `f` what `g` wrote gives back each value that fits, and again what any text was read as. -/
structure RoundTrip (f : Json → Option α) (g : α → Json) (fits : α → Prop) : Prop where
  value {a : α} (h : fits a) : read? f (g a).print = some a
  text {s : String} {a : α} (h : read? f s = some a) : read? f (g a).print = some a

/-- What a reader and a writer must keep for it. -/
structure Faithful (f : Json → Option α) (g : α → Json) (fits : α → Prop) : Prop where
  printable {a : α} (h : fits a) : (g a).Printable
  read {a : α} (h : fits a) : f (g a) = some a
  fits_of_read {v : Json} {a : α} (h : f v = some a) : fits a

theorem read?_print {f : Json → Option α} {v : Json} (h : v.Printable) : read? f v.print = f v := by
  rw [read?, ofText?_print h, Option.bind_some]

theorem Faithful.roundTrip {f : Json → Option α} {g : α → Json} {fits : α → Prop} (h : Faithful f g fits) :
    RoundTrip f g fits where
  value ha := (read?_print (h.printable ha)).trans (h.read ha)
  text hs := by
    obtain ⟨v, -, hv⟩ := Option.bind_eq_some_iff.1 hs
    have ha := h.fits_of_read hv
    exact (read?_print (h.printable ha)).trans (h.read ha)

/-! ### Single values -/

@[simp] theorem string?_string (s : String) : string? (string s) = some s := rfl

@[simp] theorem bool?_bool (b : Bool) : bool? (.bool b) = some b := rfl

theorem nat?_nat {n : Nat} (h : n ≤ maxWord) : nat? (nat n) = some n := by
  simp [nat, nat?, Number.word?, Number.isWhole, h]

theorem le_of_nat? {v : Json} {n : Nat} (h : nat? v = some n) : n ≤ maxWord := by
  cases v with
  | number m =>
    rw [nat?, Number.word?] at h
    split at h
    · rename_i hword
      cases h
      simp only [Bool.and_eq_true, decide_eq_true_eq] at hword
      exact hword.2
    · cases h
  | _ => cases h

theorem Printable.nat (n : Nat) : (nat n).Printable := .number nofun

/-! ### Values that may be missing -/

theorem nullable?_orNull {f : Json → Option α} {g : α → Json} {a : Option α}
    (h : ∀ x ∈ a, g x ≠ null ∧ f (g x) = some x) : nullable? f (orNull g a) = some a := by
  cases a with
  | none => rfl
  | some x =>
    obtain ⟨hne, hx⟩ := h x rfl
    rw [orNull, Option.elim_some, nullable?, hx]
    · rfl
    · exact hne

theorem nullable?_eq_some {f : Json → Option α} {v : Json} {x : α} (h : nullable? f v = some (some x)) :
    f v = some x := by
  cases v with
  | null => cases h
  | _ => simpa [nullable?] using h

theorem Printable.orNull {g : α → Json} {a : Option α} (h : ∀ x, (g x).Printable) : (orNull g a).Printable := by
  cases a with
  | none => exact .null
  | some x => exact h x

/-! ### Records -/

theorem members?_record (members : List (String × Json)) : members? (record members) = some members := by
  rw [record, members?, List.mapM_map]
  exact List.mapM_pure.trans (congrArg some (List.map_id members))

/-- A record that is written with all its fields is read with the same. -/
theorem fields?_record {names : List String} {members : List (String × Json)}
    (hnames : members.map (·.1) = names) (hnodup : names.Nodup) :
    fields? names (record members) = some ⟨false, members⟩ := by
  have hknown : members.filter (names.contains ·.1) = members := by
    refine List.filter_eq_self.2 fun m hm => List.contains_iff_mem.2 ?_
    exact hnames ▸ List.mem_map_of_mem hm
  have hguard : guard (members.map (·.1)).Nodup = some () := if_pos (hnames ▸ hnodup)
  rw [record, fields?, ← record, members?_record, Option.bind_eq_bind, Option.bind_some]
  · rw [hknown]
    exact congrArg (fun g : Option Unit => g.bind fun _ => some (Fields.mk false members)) hguard
  · exact fun _ h => Json.noConfusion h

namespace Fields

variable {r : Fields} {name : String} {f : Json → Option α}

theorem required_eq_some {a : α} : r.required name f = some a ↔ ∃ v, r.find? name = some v ∧ f v = some a :=
  Option.bind_eq_some_iff

theorem optional_eq_some {a : α} (h : r.optional name f = some (some a)) : ∃ v, f v = some a := by
  rw [optional] at h
  split at h
  · cases h
  · rename_i v _
    exact ⟨v, by simpa using h⟩

end Fields

/-! ### Tagged choices -/

/-- Behind a tag that comes first and only once stand the members of the choice. -/
theorem tagged?_record {tag name : String} {members : List (String × Json)}
    (hplain : (record members).isPlain) (hdepth : (record members).depth ≤ maxDepth)
    (htag : ∀ m ∈ members, m.1 ≠ tag) :
    tagged? tag (record ((tag, string name) :: members)) = some (name, record members) := by
  have hguard : guard ((record ((tag, string name) :: members)).isPlain
      && (record ((tag, string name) :: members)).depth ≤ maxDepth) = some () := by
    simp only [record, isPlain, depth] at hplain hdepth
    refine if_pos ?_
    simp [record, string, isPlain, membersPlain, depth, membersDepth, hplain, hdepth]
  have hother : ∀ m ∈ members.map fun m => (some m.1, m.2), m.1 ≠ some tag :=
    List.forall_mem_map.2 fun m hm heq => htag m hm (Option.some.inj heq)
  have hnone : (members.map fun m => (some m.1, m.2)).filter (·.1 == some tag) = [] :=
    List.filter_eq_nil_iff.2 fun m hm => mt beq_iff_eq.1 (hother m hm)
  have hall : (members.map fun m => (some m.1, m.2)).filter (·.1 != some tag)
      = members.map fun m => (some m.1, m.2) :=
    List.filter_eq_self.2 fun m hm => bne_iff_ne.2 (hother m hm)
  unfold tagged?
  rw [hguard]
  simp only [record, List.map_cons, List.filter_cons, beq_self_eq_true, bne_self_eq_false, hnone, hall]
  rfl

end Pipeworks.Json
