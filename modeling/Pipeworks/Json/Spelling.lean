import Pipeworks.Json.Numeral
import Pipeworks.Json.Tokenized

/-!
# Printed values read back

The print of a value is made of the characters of its tokens (`Printable.spells`), so that reading it gives the
value back (`ofText?_print`). A text ends at its quote whatever it holds, since the quotes inside are escaped.
-/

namespace Pipeworks.Json.Token

/-! ### Characters of tokens -/

/-- The characters are those of the tokens. -/
def Lexes (cs : List Char) (ts : List Token) : Prop := ∀ n, cs.length ≤ n → lex n cs = some ts

theorem Lexes.nil : Lexes [] [] := by
  intro n _
  cases n <;> rfl

theorem Lexes.cons {c : Char} {cs rest : List Char} {t : Token} {ts : List Token} (hblank : isBlank c = false)
    (hnext : next? c (cs ++ rest) = some (t, rest)) (h : Lexes rest ts) :
    Lexes (c :: cs ++ rest) (t :: ts) := by
  intro n hn
  cases n with
  | zero => cases hn
  | succ n =>
    have hrest : rest.length ≤ n := by
      rw [List.cons_append, List.length_cons, List.length_append] at hn
      omega
    have hdrop : (c :: cs ++ rest).dropWhile isBlank = c :: (cs ++ rest) :=
      List.dropWhile_cons_of_neg (by rw [hblank]; nofun)
    rw [lex.eq_def]
    simp only [hdrop, hnext, Option.bind_some, h n hrest, Option.map_some]

theorem Lexes.mark {c : Char} {rest : List Char} {t : Token} {ts : List Token} (hblank : isBlank c = false)
    (hnext : next? c rest = some (t, rest)) (h : Lexes rest ts) : Lexes (c :: rest) (t :: ts) := by
  rw [← List.nil_append rest] at hnext
  exact .cons hblank hnext h

/-! ### Texts -/

/-- What a character of a text is read as: a control that has no letter as a unit, all others as themselves. -/
def piece (c : Char) : Piece :=
  if (controlLetter? c).isNone ∧ c.toNat < 0x20 then .unit c.toNat else .char c

theorem hexDigit?_hexDigit {n : Nat} (h : n < 16) : hexDigit? (hexDigit n) = some n := by
  revert n
  decide

theorem pieces?_printedChar (c : Char) (cs : List Char) :
    pieces? (printedChar c ++ cs) = (pieces? cs).map (cons (piece c)) := by
  fun_cases printedChar c with
  | case1 h =>
    rcases h with rfl | rfl <;> rfl
  | case2 h l hl =>
    have hmem : (c, l) ∈ [('\x08', 'b'), ('\x0c', 'f'), ('\n', 'n'), ('\r', 'r'), ('\t', 't')] := by
      obtain ⟨before, after, heq, -⟩ := List.lookup_eq_some_iff.1 hl
      exact heq ▸ List.mem_append_right before (List.mem_cons_self ..)
    simp only [List.mem_cons, Prod.mk.injEq, List.not_mem_nil, or_false] at hmem
    rcases hmem with ⟨rfl, rfl⟩ | ⟨rfl, rfl⟩ | ⟨rfl, rfl⟩ | ⟨rfl, rfl⟩ | ⟨rfl, rfl⟩ <;> rfl
  | case3 h hl hlow =>
    -- A control is below 0x20, so that two digits say it.
    have hunit : unit? '0' '0' (hexDigit (c.toNat / 16)) (hexDigit (c.toNat % 16)) = some (.unit c.toNat) := by
      rw [unit?, hexDigit?_hexDigit (by omega), hexDigit?_hexDigit (by omega)]
      have hvalue : ((0 * 16 + 0) * 16 + c.toNat / 16) * 16 + c.toNat % 16 = c.toNat := by omega
      exact congrArg (fun n => some (Piece.unit n)) hvalue
    have hpiece : piece c = .unit c.toNat := if_pos ⟨by rw [hl]; rfl, hlow⟩
    rw [hpiece]
    simp only [List.cons_append, List.nil_append, pieces?, hunit, Option.bind_some]
  | case4 h hl hlow =>
    have hpiece : piece c = .char c := if_neg fun h => hlow h.2
    obtain ⟨hquote, hslash⟩ := not_or.1 h
    rw [List.singleton_append, pieces?, if_neg (not_or.2 ⟨hlow, hslash⟩), hpiece]
    · exact hquote
    · exact fun _ _ _ _ _ h _ => hslash h
    · exact fun _ _ h _ => hslash h

theorem pieces?_printed (l rest : List Char) :
    pieces? (l.flatMap printedChar ++ '"' :: rest) = some (l.map piece, rest) := by
  induction l with
  | nil => rfl
  | cons c l ih =>
    rw [List.flatMap_cons, List.append_assoc, pieces?_printedChar, ih]
    rfl

/-- A unit that is not half of a pair is a character by itself. -/
theorem chars?_unit {n : Nat} (h : n < 0xd800) (ps : List Piece) :
    chars? (.unit n :: ps) = (chars? ps).map (Char.ofNat n :: ·) := by
  have hhigh : isHigh n = false := by simp [isHigh]; omega
  have hlow : isLow n = false := by simp [isLow]; omega
  cases ps with
  | nil => simp [chars?, hhigh, hlow]
  | cons p ps => cases p <;> simp [chars?, hhigh, hlow]

theorem chars?_piece (l : List Char) : chars? (l.map piece) = some l := by
  induction l with
  | nil => rfl
  | cons c l ih =>
    rw [List.map_cons, piece]
    split
    · rename_i h
      rw [chars?_unit (by omega), ih, Char.ofNat_toNat]
      rfl
    · rw [chars?, ih]
      rfl

/-! ### Documents -/

/-- Where a number may end, the characters are read as the tokens. -/
def Spells (cs : List Char) (ts : List Token) : Prop :=
  ∀ rest us, (∀ c ∈ rest.head?, EndsNumber c) → Lexes rest us → Lexes (cs ++ rest) (ts ++ us)

theorem spells_of_next? {c : Char} {cs : List Char} {t : Token} (hblank : isBlank c = false)
    (hnext : ∀ rest, next? c (cs ++ rest) = some (t, rest)) : Spells (c :: cs) [t] :=
  fun rest _ _ h => .cons hblank (hnext rest) h

theorem spells_text (s : String) : Spells (printedText s).toList [.text (some s)] := by
  rw [printedText, String.toList_ofList, List.cons_append]
  refine spells_of_next? rfl fun rest => ?_
  rw [next?, List.append_assoc, List.singleton_append, pieces?_printed]
  simp only [Option.map_some, chars?_piece, String.ofList_toList]

theorem spells_number {n : Number} (h : ∀ d ∈ n.fraction, d < 10) : Spells n.print.toList [.number n] := by
  intro rest us hrest hus
  obtain ⟨c, cs, hcs, hblank, hnext⟩ := next?_print h hrest
  rw [hcs]
  exact .cons hblank hnext hus

/-- Items with commas between them, if each ends where a comma follows. -/
theorem spells_row {α : Type} {f : α → List Char} {g : α → List Token} {as : List α}
    (h : ∀ a ∈ as, Spells (f a) (g a)) :
    Spells ([','].intercalate (as.map f)) ([Token.comma].intercalate (as.map g)) := by
  induction as with
  | nil => exact fun _ _ _ hus => hus
  | cons a as ih =>
    obtain ⟨ha, has⟩ := List.forall_mem_cons.1 h
    cases as with
    | nil =>
      rw [List.map_singleton, List.intercalate_singleton, List.map_singleton, List.intercalate_singleton]
      exact ha
    | cons b bs =>
      intro rest us hrest hus
      simp only [List.map_cons, List.intercalate_cons_cons, List.append_assoc]
      have hmore : Lexes _ _ := .mark (c := ',') rfl rfl (ih has rest us hrest hus)
      -- What follows the first item is the comma.
      refine ha _ _ ?_ hmore
      rintro c ⟨⟩
      exact ⟨rfl, by decide⟩

/-- What is in brackets, with the opening and the closing one. -/
theorem Spells.bracketed {o c : Char} {ot ct : Token} {cs : List Char} {ts : List Token} (h : Spells cs ts)
    (ho : isBlank o = false ∧ ∀ rest, next? o rest = some (ot, rest))
    (hc : isBlank c = false ∧ ∀ rest, next? c rest = some (ct, rest)) (hends : EndsNumber c) :
    Spells (o :: (cs ++ [c])) (ot :: (ts ++ [ct])) := by
  intro rest us _ hus
  rw [List.cons_append, List.cons_append, List.append_assoc, List.append_assoc]
  refine .mark ho.1 (ho.2 _) (h _ _ ?_ (.mark hc.1 (hc.2 _) hus))
  rintro _ ⟨⟩
  exact hends

end Token

open Token

theorem printItems_eq (items : List Json) : printItems items = items.map print := by
  induction items with
  | nil => rfl
  | cons v vs ih => rw [printItems, ih, List.map_cons]

theorem printMembers_eq (members : List (String × Json)) :
    printMembers (members.map fun m => (some m.1, m.2))
      = members.map fun m => printedText m.1 ++ ":" ++ print m.2 := by
  induction members with
  | nil => rfl
  | cons m ms ih => rw [List.map_cons, printMembers, ih, List.map_cons]

theorem spells_member {m : String × Json} (h : Spells m.2.print.toList m.2.tokens) :
    Spells (printedText m.1 ++ ":" ++ m.2.print).toList (tokensOfMember m) := by
  intro rest us hrest hus
  rw [String.toList_append, String.toList_append, List.append_assoc, List.append_assoc]
  refine spells_text m.1 _ _ ?_ (.mark (c := ':') rfl rfl (h rest us hrest hus))
  rintro _ ⟨⟩
  exact ⟨rfl, by decide⟩

theorem Printable.spells {v : Json} (h : v.Printable) : Spells v.print.toList v.tokens := by
  induction h with
  | null => exact spells_of_next? rfl fun _ => rfl
  | bool b => cases b <;> exact spells_of_next? rfl fun _ => rfl
  | number h => exact spells_number h
  | string s => exact spells_text s
  | @array items _ ih =>
    have hrow := (spells_row ih).bracketed (o := '[') (c := ']') ⟨rfl, fun _ => rfl⟩ ⟨rfl, fun _ => rfl⟩
      ⟨rfl, by decide⟩
    have hchars : (print (.array items)).toList
        = '[' :: ([','].intercalate (items.map (·.print.toList)) ++ [']']) := by
      rw [print, String.toList_append, String.toList_append, String.toList_intercalate, printItems_eq,
        List.map_map]
      rfl
    rwa [hchars, tokens, itemTokens_eq]
  | @record members _ ih =>
    have hrow := (spells_row fun m hm => spells_member (ih m hm)).bracketed (o := '\x7b') (c := '\x7d')
      ⟨rfl, fun _ => rfl⟩ ⟨rfl, fun _ => rfl⟩ ⟨rfl, by decide⟩
    have hchars : (print (.record members)).toList = '\x7b' :: ([','].intercalate
        (members.map fun m => (printedText m.1 ++ ":" ++ m.2.print).toList) ++ ['\x7d']) := by
      rw [Json.record, print, String.toList_append, String.toList_append, String.toList_intercalate,
        printMembers_eq, List.map_map]
      rfl
    rwa [hchars, Json.record, tokens, memberTokens_eq]

/-- A printed value is read back. -/
theorem ofText?_print {v : Json} (h : v.Printable) : ofText? v.print = some v := by
  have hlex : Token.ofText? v.print = some v.tokens := by
    have hspells := h.spells [] [] nofun .nil
    rw [List.append_nil, List.append_nil] at hspells
    exact hspells _ (Nat.le_of_eq String.length_toList)
  rw [ofText?, hlex]
  exact congrArg (fun r => r.bind Reader.result) (h.reads .value [] (.inl rfl))

end Pipeworks.Json
