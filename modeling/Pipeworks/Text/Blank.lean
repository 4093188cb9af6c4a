/-!
# Blanks

The characters with the property `White_Space`, and trimming them off both ends of a text. What is
left is the one text with no blank at its ends that makes the whole with blanks around it
(`trims_iff`).
-/

namespace Pipeworks.Text

/-- The first and last code points of the runs of blanks. -/
def blankRuns : List (Nat × Nat) :=
  [(0x09, 0x0d), (0x20, 0x20), (0x85, 0x85), (0xa0, 0xa0), (0x1680, 0x1680), (0x2000, 0x200a),
   (0x2028, 0x2029), (0x202f, 0x202f), (0x205f, 0x205f), (0x3000, 0x3000)]

def inRuns (runs : List (Nat × Nat)) (c : Char) : Bool :=
  runs.any fun r => r.1 ≤ c.toNat && c.toNat ≤ r.2

def isBlank (c : Char) : Bool := inRuns blankRuns c

def trimChars (cs : List Char) : List Char :=
  ((cs.dropWhile isBlank).reverse.dropWhile isBlank).reverse

/-- A text without the blanks at its ends. -/
def trim (s : String) : String := String.ofList (trimChars s.toList)

/-- `t` is `s` without the blanks at its ends. -/
def Trims (s t : String) : Prop :=
  ∃ before after : List Char, s.toList = before ++ t.toList ++ after ∧
    (∀ c ∈ before, isBlank c) ∧ (∀ c ∈ after, isBlank c) ∧
    (∀ c ∈ t.toList.head?, ¬isBlank c) ∧ ∀ c ∈ t.toList.getLast?, ¬isBlank c

theorem not_isBlank_head?_dropWhile {cs : List Char} {c : Char}
    (h : c ∈ (cs.dropWhile isBlank).head?) : ¬isBlank c := by
  have := List.head?_dropWhile_not isBlank cs
  rw [Option.mem_def.mp h] at this
  simpa using this

theorem dropWhile_eq_self {cs : List Char} (h : ∀ c ∈ cs.head?, ¬isBlank c) :
    cs.dropWhile isBlank = cs := by
  cases cs with
  | nil => rfl
  | cons c cs => exact List.dropWhile_cons_of_neg (h c rfl)

theorem isBlank_of_mem_takeWhile {cs : List Char} {c : Char} (h : c ∈ cs.takeWhile isBlank) :
    isBlank c :=
  List.all_eq_true.mp List.all_takeWhile c h

/-- Blanks at both ends of a text with none at its ends are what is trimmed. -/
theorem trimChars_append {before cs after : List Char} (hbefore : ∀ c ∈ before, isBlank c)
    (hafter : ∀ c ∈ after, isBlank c) (hhead : ∀ c ∈ cs.head?, ¬isBlank c)
    (hlast : ∀ c ∈ cs.getLast?, ¬isBlank c) : trimChars (before ++ cs ++ after) = cs := by
  rw [trimChars, List.append_assoc, List.dropWhile_append_of_pos hbefore]
  cases cs with
  | nil =>
    rw [List.nil_append, ← List.append_nil after, List.dropWhile_append_of_pos hafter]
    rfl
  | cons c cs =>
    have hfront : (c :: cs ++ after).dropWhile isBlank = c :: cs ++ after := dropWhile_eq_self hhead
    rw [hfront, List.reverse_append,
      List.dropWhile_append_of_pos fun x hx => hafter x (List.mem_reverse.mp hx),
      dropWhile_eq_self (by simpa only [List.head?_reverse] using hlast), List.reverse_reverse]

theorem trim_trims (s : String) : Trims s (trim s) := by
  obtain ⟨front, hfront⟩ : ∃ front, front = s.toList.dropWhile isBlank := ⟨_, rfl⟩
  have hkept : (trim s).toList = (front.reverse.dropWhile isBlank).reverse := by
    rw [trim, String.toList_ofList, trimChars, hfront]
  have hback : front = (trim s).toList ++ (front.reverse.takeWhile isBlank).reverse := by
    rw [hkept, ← List.reverse_append, List.takeWhile_append_dropWhile, List.reverse_reverse]
  refine ⟨s.toList.takeWhile isBlank, (front.reverse.takeWhile isBlank).reverse, ?_, ?_, ?_, ?_, ?_⟩
  · rw [List.append_assoc, ← hback, hfront, List.takeWhile_append_dropWhile]
  · exact fun c hc => isBlank_of_mem_takeWhile hc
  · exact fun c hc => isBlank_of_mem_takeWhile (List.mem_reverse.mp hc)
  · intro c hc
    have hfirst : c ∈ front.head? := by
      rw [hback, Option.mem_def, List.head?_append, Option.mem_def.mp hc]
      rfl
    exact not_isBlank_head?_dropWhile (hfront ▸ hfirst)
  · intro c hc
    rw [hkept, List.getLast?_reverse] at hc
    exact not_isBlank_head?_dropWhile hc

theorem trims_iff {s t : String} : Trims s t ↔ trim s = t := by
  constructor
  · rintro ⟨before, after, hs, hbefore, hafter, hhead, hlast⟩
    rw [trim, hs, trimChars_append hbefore hafter hhead hlast, String.ofList_toList]
  · rintro rfl
    exact trim_trims s

end Pipeworks.Text
