import Pipeworks.Json.Reader

/-!
# Values as tokens

The tokens of a value, one behind the other. Where a value may begin, reading its tokens puts the value there
(`Printable.reads`): what is open around it stays as it is.
-/

namespace Pipeworks.Json

mutual

/-- The tokens of a value. -/
def tokens : Json → List Token
  | null => [.null]
  | bool b => [.bool b]
  | number n => [.number n]
  | text s => [.text s]
  | array items => .openArray :: ([.comma].intercalate (itemTokens items) ++ [.closeArray])
  | object ms => .openObject :: ([.comma].intercalate (memberTokens ms) ++ [.closeObject])

def itemTokens : List Json → List (List Token)
  | [] => []
  | v :: vs => tokens v :: itemTokens vs

def memberTokens : List (Option String × Json) → List (List Token)
  | [] => []
  | (s, v) :: ms => (.text s :: .colon :: tokens v) :: memberTokens ms

end

/-- A value that its print says in full: its texts and the names of its members have characters, and what stands
behind a point is digits. -/
inductive Printable : Json → Prop
  | null : Printable null
  | bool (b : Bool) : Printable (bool b)
  | number {n : Number} (h : ∀ d ∈ n.fraction, d < 10) : Printable (number n)
  | string (s : String) : Printable (string s)
  | array {items : List Json} (h : ∀ v ∈ items, Printable v) : Printable (array items)
  | record {members : List (String × Json)} (h : ∀ m ∈ members, Printable m.2) : Printable (record members)

theorem itemTokens_eq (items : List Json) : itemTokens items = items.map tokens := by
  induction items with
  | nil => rfl
  | cons v vs ih => rw [itemTokens, ih, List.map_cons]

/-- The tokens of a member: its name, a colon and its value. -/
def tokensOfMember (m : String × Json) : List Token := .text (some m.1) :: .colon :: m.2.tokens

theorem memberTokens_eq (members : List (String × Json)) :
    memberTokens (members.map fun m => (some m.1, m.2)) = members.map tokensOfMember := by
  induction members with
  | nil => rfl
  | cons m ms ih => rw [List.map_cons, memberTokens, ih, List.map_cons, tokensOfMember]

namespace Reader

/-- Wherever a value may begin, reading the tokens of this one puts it there. -/
def Reads (v : Json) : Prop :=
  ∀ (p : Place) (stack : List Open), p = .value ∨ p = .firstItem →
    v.tokens.foldlM step ⟨p, stack, none⟩ = put v stack

theorem foldlM_cons {r r' : Reader} {t : Token} (h : r.step t = some r') (ts : List Token) :
    (t :: ts).foldlM step r = ts.foldlM step r' := by
  rw [List.foldlM_cons, h]
  rfl

/-- The first item of a row is read from where the row begins, each other one from behind a comma. -/
theorem foldlM_row {α σ : Type} {f : α → List Token} {add : σ → α → σ} (waits : σ → Reader)
    {begins : σ → Reader} (hcomma : ∀ s, (waits s).step .comma = some (begins s)) {as : List α}
    (hitem : ∀ a ∈ as, ∀ s ts, (f a ++ ts).foldlM step (begins s) = ts.foldlM step (waits (add s a)))
    {a : α} {r : Reader} {s : σ} (hfirst : ∀ ts, (f a ++ ts).foldlM step r = ts.foldlM step (waits (add s a)))
    (ts : List Token) :
    ([Token.comma].intercalate ((a :: as).map f) ++ ts).foldlM step r
      = ts.foldlM step (waits ((a :: as).foldl add s)) := by
  -- Behind the first item and a comma, the next one is the first of the rest.
  induction as generalizing a r s with
  | nil => rw [List.map_singleton, List.intercalate_singleton, hfirst, List.foldl_cons, List.foldl_nil]
  | cons b bs ih =>
    obtain ⟨hb, hbs⟩ := List.forall_mem_cons.1 hitem
    rw [List.map_cons, List.map_cons, List.intercalate_cons_cons, List.append_assoc, List.append_assoc,
      hfirst, List.singleton_append, foldlM_cons (hcomma _), ← List.map_cons, ih hbs (hb _)]
    rfl

theorem foldlM_item {v : Json} (h : Reads v) {p : Place} (hp : p = .value ∨ p = .firstItem) (stack : List Open)
    (items : Trail Json) (ts : List Token) :
    (v.tokens ++ ts).foldlM step ⟨p, .array items :: stack, none⟩
      = ts.foldlM step ⟨.separator, .array (items.push v) :: stack, none⟩ := by
  rw [List.foldlM_append, h p _ hp]
  rfl

theorem foldlM_items {items : List Json} (h : ∀ v ∈ items, Reads v) (stack : List Open) :
    ([Token.comma].intercalate (items.map tokens) ++ [Token.closeArray]).foldlM step
        ⟨.firstItem, .array ∅ :: stack, none⟩
      = put (.array items) stack := by
  cases items with
  | nil => exact bind_pure _
  | cons v vs =>
    obtain ⟨hv, hvs⟩ := List.forall_mem_cons.1 h
    rw [foldlM_row (fun t => ⟨.separator, .array t :: stack, none⟩) (fun _ => rfl)
      (fun w hw => foldlM_item (hvs w hw) (.inl rfl) stack) (foldlM_item hv (.inr rfl) stack ∅)]
    have hlist : (Trail.pushAll ∅ (v :: vs)).toList = v :: vs := Trail.toList_pushAll ..
    exact (bind_pure _).trans (congrArg (fun l => put (.array l) stack) hlist)

theorem foldlM_member {m : String × Json} (h : Reads m.2) {p : Place} (hp : p = .name ∨ p = .firstName)
    (stack : List Open) (members : Trail (Option String × Json)) (ts : List Token) :
    (tokensOfMember m ++ ts).foldlM step ⟨p, .object members :: stack, none⟩
      = ts.foldlM step ⟨.separator, .object (members.push (some m.1, m.2)) :: stack, none⟩ := by
  have hname : (⟨p, .object members :: stack, none⟩ : Reader).step (.text (some m.1))
      = some ⟨.colon, .member members (some m.1) :: stack, none⟩ := by
    rcases hp with rfl | rfl <;> rfl
  have hcolon : (⟨.colon, .member members (some m.1) :: stack, none⟩ : Reader).step .colon
      = some ⟨.value, .member members (some m.1) :: stack, none⟩ := rfl
  rw [tokensOfMember, List.cons_append, foldlM_cons hname, List.cons_append, foldlM_cons hcolon,
    List.foldlM_append, h .value _ (.inl rfl)]
  rfl

theorem foldlM_members {members : List (String × Json)} (h : ∀ m ∈ members, Reads m.2) (stack : List Open) :
    ([Token.comma].intercalate (members.map tokensOfMember) ++ [Token.closeObject]).foldlM step
        ⟨.firstName, .object ∅ :: stack, none⟩
      = put (.record members) stack := by
  cases members with
  | nil => exact bind_pure _
  | cons m ms =>
    obtain ⟨hm, hms⟩ := List.forall_mem_cons.1 h
    rw [foldlM_row (fun t => ⟨.separator, .object t :: stack, none⟩) (fun _ => rfl)
      (fun n hn => foldlM_member (hms n hn) (.inl rfl) stack) (foldlM_member hm (.inr rfl) stack ∅)]
    have hlist : ((m :: ms).foldl (fun t m => t.push (some m.1, m.2)) ∅ : Trail (Option String × Json)).toList
        = (m :: ms).map fun m => (some m.1, m.2) := by
      rw [← List.foldl_map]
      exact Trail.toList_pushAll ..
    exact (bind_pure _).trans (congrArg (fun l => put (.object l) stack) hlist)

end Reader

theorem Printable.reads {v : Json} (h : v.Printable) : Reader.Reads v := by
  induction h with
  | null | bool | number | string =>
    rintro p stack (rfl | rfl) <;> exact bind_pure _
  | @array items _ ih =>
    intro p stack hp
    have hopen : (⟨p, stack, none⟩ : Reader).step .openArray
        = some ⟨.firstItem, .array ∅ :: stack, none⟩ := by
      rcases hp with rfl | rfl <;> rfl
    rw [tokens, itemTokens_eq, Reader.foldlM_cons hopen, Reader.foldlM_items ih]
  | @record members _ ih =>
    intro p stack hp
    have hopen : (⟨p, stack, none⟩ : Reader).step .openObject
        = some ⟨.firstName, .object ∅ :: stack, none⟩ := by
      rcases hp with rfl | rfl <;> rfl
    rw [Json.record, tokens, memberTokens_eq, Reader.foldlM_cons hopen, Reader.foldlM_members ih, Json.record]

end Pipeworks.Json
