import Mathlib
import Pipeworks.Config.Environment
import Pipeworks.Host
/-!
# The variables of the environment

The six variables as a table: the name of each, the setting that it gives, and what the texts mean
that can be read for it. Reading a variable is reading its text by that table (`look_eq_some`), and
the variables are read in the order of the table up to the first that cannot be (`ofLookup_eq_ok`,
`ofLookup_eq_error`). Which texts are blank around a word, and which are numerals, is said in
`Text.Blank` and `Text.Decimal`.
-/

namespace Pipeworks

namespace Text

/-! ### Words in any case -/

/-- `t` is the word with each of its letters small or capital. -/
def InAnyCase (word t : String) : Prop :=
  List.Forall₂ (fun l c => c = l ∨ c = l.toUpper) word.toList t.toList

theorem toLower_eq_iff {c l : Char} (hl : l.isLower) : c.toLower = l ↔ c = l ∨ c = l.toUpper := by
  have hsmall : l.toLower = l := Char.toLower_eq_of_not_isUpper (Char.not_isUpper_of_isLower hl)
  constructor
  · rintro rfl
    by_cases hc : c.isUpper
    · right
      rw [Char.toUpper_toLower_eq_toUpper,
        Char.toUpper_eq_of_not_isLower (Char.not_isLower_of_isUpper hc)]
    · left
      rw [Char.toLower_eq_of_not_isUpper hc]
  · rintro (rfl | rfl)
    · exact hsmall
    · rw [Char.toLower_toUpper_eq_toLower, hsmall]

theorem map_toLower_eq_iff {word cs : List Char} (h : ∀ l ∈ word, l.isLower) :
    cs.map Char.toLower = word ↔ List.Forall₂ (fun l c => c = l ∨ c = l.toUpper) word cs := by
  induction word generalizing cs with
  | nil => rw [List.map_eq_nil_iff, List.forall₂_nil_left_iff]
  | cons l word ih =>
    rw [List.forall_mem_cons] at h
    cases cs with
    | nil => simp
    | cons c cs =>
      rw [List.map_cons, List.cons.injEq, List.forall₂_cons, toLower_eq_iff h.1, ih h.2]

theorem ofList_map_toLower_eq_iff {word t : String} (h : word.toList.all Char.isLower) :
    String.ofList (t.toList.map Char.toLower) = word ↔ InAnyCase word t := by
  rw [← String.toList_inj, String.toList_ofList]
  exact map_toLower_eq_iff (List.all_eq_true.mp h)

end Text

/-! ### Texts and what they mean -/

/-- A switch is one of two words. -/
def SwitchText (t : String) : Bool → Prop
  | true => t = "true"
  | false => t = "false"

/-- A limit is the numeral of a word of 64 bits. -/
structure LimitText (t : String) (n : Nat) : Prop where
  numeral : Text.IsLimit t.toList n
  word : n ≤ maxWord

/-- A format is one of three words, in any case. -/
def FormatText (t : String) : LogFormat → Prop
  | .text => Text.InAnyCase "text" t ∨ Text.InAnyCase "pretty" t
  | .json => Text.InAnyCase "json" t

theorem LogFormat.ofText_eq_ok {t : String} {f : LogFormat} :
    ofText t = .ok f ↔ FormatText t f := by
  have small (word : String) (h : word.toList.all Char.isLower) :=
    Text.ofList_map_toLower_eq_iff (t := t) h
  simp only [ofText, beq_iff_eq, Bool.or_eq_true]
  cases f with
  | text =>
    rw [FormatText, ← small "text" rfl, ← small "pretty" rfl]
    split_ifs with h <;> simp [h]
  | json =>
    rw [FormatText, ← small "json" rfl]
    split_ifs with h h'
    · rcases h with h | h <;> simp [h]
    · simp [h']
    · simp [h']

namespace Settings

theorem readSwitch_eq_ok {t : String} {b : Bool} : readSwitch t = .ok b ↔ SwitchText t b := by
  simp only [readSwitch, beq_iff_eq]
  cases b with
  | true =>
    rw [SwitchText]
    split_ifs with hon <;> simp [hon]
  | false =>
    rw [SwitchText]
    split_ifs with hon hoff
    · simp [hon]
    · simp [hoff]
    · simp [hoff]

theorem readLimit_eq_ok {t : String} {n : Nat} : readLimit t = .ok n ↔ LimitText t n := by
  have hread : readLimit t = .ok n ↔ Text.readLimit t.toList = .ok n := by
    rw [readLimit]
    split <;> simp_all
  rw [hread, Text.readLimit_eq_ok]
  exact ⟨fun h => ⟨h.1, h.2⟩, fun h => ⟨h.1, h.2⟩⟩

/-! ### The table -/

inductive Variable where
  | shortCircuit
  | prePostAbort
  | maxJumpsPerRun
  | poolMax
  | ingestBuffer
  | logFormat

namespace Variable

/-- The variables in the order in which they are read. -/
def inOrder : List Variable :=
  [shortCircuit, prePostAbort, maxJumpsPerRun, poolMax, ingestBuffer, logFormat]

/-- The variables whose settings must not be zero, in the order in which that is checked. -/
def limits : List Variable := [maxJumpsPerRun, poolMax, ingestBuffer]

/-- The name of a variable without the prefix that all have. -/
def name : Variable → String
  | shortCircuit => "SHORT_CIRCUIT"
  | prePostAbort => "PRE_POST_ABORT"
  | maxJumpsPerRun => "MAX_JUMPS_PER_RUN"
  | poolMax => "POOL_MAX"
  | ingestBuffer => "INGEST_BUFFER"
  | logFormat => "LOG_FORMAT"

/-- The setting that a variable gives. -/
def setting : Variable → String
  | shortCircuit => "short_circuit_on_exception"
  | prePostAbort => "pre_post_abort"
  | maxJumpsPerRun => "max_jumps_per_run"
  | poolMax => "pool_max"
  | ingestBuffer => "ingest_buffer"
  | logFormat => "log_format"

abbrev Value : Variable → Type
  | shortCircuit | prePostAbort => Bool
  | maxJumpsPerRun | poolMax | ingestBuffer => Nat
  | logFormat => LogFormat

/-- What a text without blanks at its ends means for a variable. -/
def Means : (v : Variable) → String → v.Value → Prop
  | shortCircuit | prePostAbort => SwitchText
  | maxJumpsPerRun | poolMax | ingestBuffer => LimitText
  | logFormat => FormatText

/-- The limits must be at least one. -/
def InRange : (v : Variable) → v.Value → Prop
  | shortCircuit, _ | prePostAbort, _ | logFormat, _ => True
  | maxJumpsPerRun, n | poolMax, n | ingestBuffer, n => 1 ≤ n

def reader : (v : Variable) → String → Except String v.Value
  | shortCircuit | prePostAbort => readSwitch
  | maxJumpsPerRun | poolMax | ingestBuffer => readLimit
  | logFormat => LogFormat.ofText

theorem reader_eq_ok {v : Variable} {t : String} {a : v.Value} :
    v.reader t = .ok a ↔ v.Means t a := by
  cases v with
  | shortCircuit | prePostAbort => exact readSwitch_eq_ok
  | maxJumpsPerRun | poolMax | ingestBuffer => exact readLimit_eq_ok
  | logFormat => exact LogFormat.ofText_eq_ok

/-! ### One variable -/

variable {lookup : String → Option String} {v : Variable}

/-- The variable is there, and `t` is its text without the blanks at its ends. -/
def HasText (lookup : String → Option String) (v : Variable) (t : String) : Prop :=
  ∃ s, lookup (variablePrefix ++ v.name) = some s ∧ Text.Trims s t

/-- The variable is there with a text that means nothing. -/
def Unreadable (lookup : String → Option String) (v : Variable) : Prop :=
  ∃ t, v.HasText lookup t ∧ ∀ a, ¬v.Means t a

/-- The variable is there with a value out of its range. -/
def OutOfRange (lookup : String → Option String) (v : Variable) : Prop :=
  ∃ t a, v.HasText lookup t ∧ v.Means t a ∧ ¬v.InRange a

/-- If the variable is there, its text means a value in its range. -/
def Accepted (lookup : String → Option String) (v : Variable) : Prop :=
  ∀ t, v.HasText lookup t → ∃ a, v.Means t a ∧ v.InRange a

/-- What is read of the variable. -/
def look (lookup : String → Option String) (v : Variable) : Except ConfigError (Option v.Value) :=
  readVariable lookup v.name v.reader

theorem Means.inj {t : String} {a b : v.Value} (ha : v.Means t a) (hb : v.Means t b) : a = b :=
  Except.ok.inj ((reader_eq_ok.mpr ha).symm.trans (reader_eq_ok.mpr hb))

theorem HasText.inj {t t' : String} (h : v.HasText lookup t) (h' : v.HasText lookup t') :
    t = t' := by
  obtain ⟨s, hs, ht⟩ := h
  obtain ⟨s', hs', ht'⟩ := h'
  obtain rfl := Option.some.inj (hs.symm.trans hs')
  exact (Text.trims_iff.mp ht).symm.trans (Text.trims_iff.mp ht')

theorem look_of_means {t : String} {a : v.Value} (ht : v.HasText lookup t) (ha : v.Means t a) :
    v.look lookup = .ok (some a) := by
  obtain ⟨s, hs, ht⟩ := ht
  simp only [look, readVariable, hs, Text.trims_iff.mp ht, reader_eq_ok.mpr ha]

/-- A variable is not there, or its text means a value, or its text means none. -/
theorem look_cases (lookup : String → Option String) (v : Variable) :
    (lookup (variablePrefix ++ v.name) = none ∧ v.look lookup = .ok none) ∨
      (∃ t a, v.HasText lookup t ∧ v.Means t a ∧ v.look lookup = .ok (some a)) ∨
      ∃ reason, v.Unreadable lookup ∧ v.look lookup = .error (.invalidValue v.name reason) := by
  cases hs : lookup (variablePrefix ++ v.name) with
  | none => exact .inl ⟨rfl, by simp only [look, readVariable, hs]⟩
  | some s =>
    have ht : v.HasText lookup (Text.trim s) := ⟨s, hs, Text.trim_trims s⟩
    cases hread : v.reader (Text.trim s) with
    | ok a =>
      have ha : v.Means (Text.trim s) a := reader_eq_ok.mp hread
      exact .inr (.inl ⟨_, a, ht, ha, look_of_means ht ha⟩)
    | error reason =>
      refine .inr (.inr ⟨reason, ⟨_, ht, fun a ha => ?_⟩, ?_⟩)
      · cases hread.symm.trans (reader_eq_ok.mpr ha)
      · simp only [look, readVariable, hs, hread]

theorem look_eq_none (h : v.look lookup = .ok none) : lookup (variablePrefix ++ v.name) = none := by
  rcases look_cases lookup v with ⟨hs, -⟩ | ⟨t, a, -, -, ha⟩ | ⟨reason, -, hr⟩
  · exact hs
  · cases h.symm.trans ha
  · cases h.symm.trans hr

theorem look_eq_some {a : v.Value} (h : v.look lookup = .ok (some a)) :
    ∃ t, v.HasText lookup t ∧ v.Means t a := by
  rcases look_cases lookup v with ⟨-, hs⟩ | ⟨t, b, ht, hb, hlook⟩ | ⟨reason, -, hr⟩
  · cases h.symm.trans hs
  · obtain rfl := Option.some.inj (Except.ok.inj (h.symm.trans hlook))
    exact ⟨t, ht, hb⟩
  · cases h.symm.trans hr

theorem look_eq_error {e : ConfigError} (h : v.look lookup = .error e) :
    v.Unreadable lookup ∧ ∃ reason, e = .invalidValue v.name reason := by
  rcases look_cases lookup v with ⟨-, hs⟩ | ⟨t, b, -, -, hb⟩ | ⟨reason, hbad, hr⟩
  · cases h.symm.trans hs
  · cases h.symm.trans hb
  · exact ⟨hbad, reason, Except.error.inj (h.symm.trans hr)⟩

theorem Unreadable.look_ne (h : v.Unreadable lookup) (x : Option v.Value) :
    v.look lookup ≠ .ok x := by
  obtain ⟨t, ⟨s, hs, ht⟩, hnone⟩ := h
  cases x with
  | none => exact fun hx => nomatch hs.symm.trans (look_eq_none hx)
  | some a =>
    intro hx
    obtain ⟨t', ht', ha⟩ := look_eq_some hx
    exact hnone a (HasText.inj ht' ⟨s, hs, ht⟩ ▸ ha)

end Variable

/-! ### All variables -/

/-- The value that settings have for a variable. -/
def get (s : Settings) : (v : Variable) → Option v.Value
  | .shortCircuit => s.shortCircuitOnException
  | .prePostAbort => s.prePostAbort
  | .maxJumpsPerRun => s.maxJumpsPerRun
  | .poolMax => s.poolMax
  | .ingestBuffer => s.ingestBuffer
  | .logFormat => s.logFormat

variable {lookup : String → Option String}

theorem ofLookup_eq (lookup : String → Option String) :
    ofLookup lookup = (do
      let shortCircuit ← Variable.shortCircuit.look lookup
      let prePostAbort ← Variable.prePostAbort.look lookup
      let maxJumps ← Variable.maxJumpsPerRun.look lookup
      let poolMax ← Variable.poolMax.look lookup
      let ingestBuffer ← Variable.ingestBuffer.look lookup
      let logFormat ← Variable.logFormat.look lookup
      pure ⟨shortCircuit, prePostAbort, maxJumps, poolMax, ingestBuffer, logFormat⟩) := rfl

theorem ofLookup_eq_ok {s : Settings} (h : ofLookup lookup = .ok s) (v : Variable) :
    v.look lookup = .ok (s.get v) := by
  simp only [ofLookup_eq, ConfigError.bind_eq_ok, pure, Except.pure, Except.ok.injEq] at h
  obtain ⟨a, ha, b, hb, m, hm, p, hp, i, hi, f, hf, rfl⟩ := h
  cases v <;> assumption

/-- The first variable that cannot be read is the one that is reported. -/
theorem ofLookup_eq_error {e : ConfigError} (h : ofLookup lookup = .error e) :
    ∃ before v after, Variable.inOrder = before ++ v :: after ∧
      (∀ u ∈ before, ∃ x, u.look lookup = .ok x) ∧ v.look lookup = .error e := by
  simp only [ofLookup_eq, ConfigError.bind_eq_error, pure, Except.pure, reduceCtorEq, and_false,
    exists_false, or_false] at h
  rcases h with h | ⟨a, ha, h | ⟨b, hb, h | ⟨m, hm, h | ⟨p, hp, h | ⟨i, hi, h⟩⟩⟩⟩⟩
  · exact ⟨[], _, _, rfl, by simp, h⟩
  · exact ⟨[.shortCircuit], _, _, rfl, by simp [ha], h⟩
  · exact ⟨[.shortCircuit, .prePostAbort], _, _, rfl, by simp [ha, hb], h⟩
  · exact ⟨[.shortCircuit, .prePostAbort, .maxJumpsPerRun], _, _, rfl, by simp [ha, hb, hm], h⟩
  · exact ⟨[.shortCircuit, .prePostAbort, .maxJumpsPerRun, .poolMax], _, _, rfl,
      by simp [ha, hb, hm, hp], h⟩
  · exact ⟨[.shortCircuit, .prePostAbort, .maxJumpsPerRun, .poolMax, .ingestBuffer], _, _, rfl,
      by simp [ha, hb, hm, hp, hi], h⟩

end Settings

namespace EngineConfig

/-- The setting of a configuration that a variable gives. -/
def get (c : EngineConfig) : (v : Settings.Variable) → v.Value
  | .shortCircuit => c.shortCircuitOnException
  | .prePostAbort => c.prePostAbort
  | .maxJumpsPerRun => c.maxJumpsPerRun
  | .poolMax => c.poolMax
  | .ingestBuffer => c.ingestBuffer
  | .logFormat => c.logFormat

theorem get_ofSettings (poolMax : Nat) (s : Settings) (v : Settings.Variable) :
    (ofSettings poolMax s).get v = (s.get v).getD ((default poolMax).get v) := by
  cases v <;> rfl

theorem validate_eq_ok {c c' : EngineConfig} (h : c.validate = .ok c') :
    c' = c ∧ ∀ v : Settings.Variable, v.InRange (c.get v) := by
  rw [validate] at h
  split_ifs at h with hjumps hpool hbuffer
  refine ⟨(Except.ok.inj h).symm, fun v => ?_⟩
  cases v with
  | shortCircuit | prePostAbort | logFormat => trivial
  | maxJumpsPerRun => exact Nat.pos_of_ne_zero hjumps
  | poolMax => exact Nat.pos_of_ne_zero hpool
  | ingestBuffer => exact Nat.pos_of_ne_zero hbuffer

/-- The first limit that is zero is the one that is reported. -/
theorem validate_eq_error {c : EngineConfig} {e : ConfigError} (h : c.validate = .error e) :
    ∃ before v after, Settings.Variable.limits = before ++ v :: after ∧
      (∀ u ∈ before, u.InRange (c.get u)) ∧ ¬v.InRange (c.get v) ∧
      ∃ reason, e = .invalidValue v.setting reason := by
  rw [validate] at h
  have zero {n : Nat} (hn : n = 0) : ¬1 ≤ n := by omega
  split_ifs at h with hjumps hpool hbuffer
  · exact ⟨[], .maxJumpsPerRun, _, rfl, List.forall_mem_nil _, zero hjumps, _,
      (Except.error.inj h).symm⟩
  · exact ⟨[.maxJumpsPerRun], .poolMax, _, rfl,
      List.forall_mem_singleton.mpr (Nat.pos_of_ne_zero hjumps), zero hpool, _,
      (Except.error.inj h).symm⟩
  · exact ⟨[.maxJumpsPerRun, .poolMax], .ingestBuffer, _, rfl,
      List.forall_mem_cons.mpr ⟨Nat.pos_of_ne_zero hjumps,
        List.forall_mem_singleton.mpr (Nat.pos_of_ne_zero hpool)⟩,
      zero hbuffer, _, (Except.error.inj h).symm⟩

theorem default_inRange {ω : Type} [Host ω] (w : ω) (v : Settings.Variable) :
    v.InRange ((default (defaultPoolMax w)).get v) := by
  cases v with
  | shortCircuit | prePostAbort | logFormat => trivial
  | maxJumpsPerRun => exact (by decide : 1 ≤ defaultMaxJumps)
  | poolMax => exact defaultPoolMax_pos w
  | ingestBuffer => exact (by decide : 1 ≤ 1024)

end EngineConfig
end Pipeworks
