import Pipeworks.Config.Variables
/-!
# The configuration of an environment

`environment_read_exactly`: an environment makes a configuration exactly if the text of each variable
that is there is accepted. The configuration then holds the values of the texts, and the defaults for
the variables that are not there. Any other environment is refused for its first offender: the first
variable whose text means nothing, and only where all texts mean something the first limit that is
zero.

A limit that is zero has been given: the defaults are in range on every machine
(`EngineConfig.default_inRange`). So the second kind of offender is one of the variables as well.
-/

namespace Pipeworks

open Settings

variable {lookup : String → Option String}

/-- The offender that an environment is refused for, under the name that its error gives it: the
name of the variable if its text means nothing, the name of the setting if its value is zero. -/
inductive FirstOffender (lookup : String → Option String) : String → Prop
  | unreadable {before after : List Variable} {v : Variable}
      (order : Variable.inOrder = before ++ v :: after)
      (readable : ∀ u ∈ before, ¬u.Unreadable lookup) (bad : v.Unreadable lookup) :
      FirstOffender lookup v.name
  | zero {before after : List Variable} {v : Variable}
      (readable : ∀ u : Variable, ¬u.Unreadable lookup)
      (order : Variable.limits = before ++ v :: after)
      (inRange : ∀ u ∈ before, ¬u.OutOfRange lookup) (bad : v.OutOfRange lookup) :
      FirstOffender lookup v.setting

/-- The configuration has the value of the variable's text, or the default without one. -/
def EngineConfig.Follows (c d : EngineConfig) (lookup : String → Option String) (v : Variable) :
    Prop :=
  (lookup (variablePrefix ++ v.name) = none ∧ c.get v = d.get v) ∨
    ∃ t, v.HasText lookup t ∧ v.Means t (c.get v)

theorem FirstOffender.not_accepted {field : String} (h : FirstOffender lookup field) :
    ∃ v : Variable, ¬v.Accepted lookup := by
  cases h with
  | @unreadable _ _ v _ _ bad =>
    obtain ⟨t, ht, hnone⟩ := bad
    refine ⟨v, fun hv => ?_⟩
    obtain ⟨a, ha, -⟩ := hv t ht
    exact hnone a ha
  | @zero _ _ v _ _ _ bad =>
    obtain ⟨t, a, ht, ha, hout⟩ := bad
    refine ⟨v, fun hv => ?_⟩
    obtain ⟨b, hb, hin⟩ := hv t ht
    exact hout (ha.inj hb ▸ hin)

/-! ### Settings over the defaults -/

section Over

variable {s : Settings} {v : Variable}

theorem follows_of_look (poolMax : Nat) (h : v.look lookup = .ok (s.get v)) :
    (EngineConfig.ofSettings poolMax s).Follows (.default poolMax) lookup v := by
  rw [EngineConfig.Follows, EngineConfig.get_ofSettings]
  cases hs : s.get v with
  | none => exact .inl ⟨Variable.look_eq_none (h.trans (congrArg _ hs)), rfl⟩
  | some a => exact .inr (Variable.look_eq_some (h.trans (congrArg _ hs)))

theorem get_of_means (poolMax : Nat) {t : String} {a : v.Value} (h : v.look lookup = .ok (s.get v))
    (ht : v.HasText lookup t) (ha : v.Means t a) :
    (EngineConfig.ofSettings poolMax s).get v = a := by
  have hs : s.get v = some a := Except.ok.inj (h.symm.trans (Variable.look_of_means ht ha))
  rw [EngineConfig.get_ofSettings, hs, Option.getD_some]

end Over

/-! ### Environments -/

theorem accepted_of_ofLookup {poolMax : Nat} {c : EngineConfig}
    (h : EngineConfig.ofLookup poolMax lookup = .ok c) :
    (∀ v, c.Follows (.default poolMax) lookup v) ∧ ∀ v : Variable, v.Accepted lookup := by
  obtain ⟨s, hs, hvalid⟩ := ConfigError.bind_eq_ok.mp h
  have hlook := Settings.ofLookup_eq_ok hs
  obtain ⟨rfl, hin⟩ := EngineConfig.validate_eq_ok hvalid
  refine ⟨fun v => follows_of_look poolMax (hlook v), fun v t ht => ?_⟩
  rcases Variable.look_cases lookup v with ⟨hnone, -⟩ | ⟨t', a, ht', ha, -⟩ | ⟨reason, -, hr⟩
  · obtain ⟨s', hs', -⟩ := ht
    cases hnone.symm.trans hs'
  · refine ⟨a, ht.inj ht' ▸ ha, ?_⟩
    rw [← get_of_means poolMax (hlook v) ht' ha]
    exact hin v
  · cases (hlook v).symm.trans hr

/-- A limit out of range was given by its variable, for the defaults are in range. -/
theorem outOfRange_iff {ω : Type} [Host ω] (w : ω) {s : Settings} {v : Variable}
    (h : v.look lookup = .ok (s.get v)) :
    v.OutOfRange lookup ↔ ¬v.InRange ((EngineConfig.ofSettings (defaultPoolMax w) s).get v) := by
  constructor
  · rintro ⟨t, a, ht, ha, hout⟩
    rwa [get_of_means _ h ht ha]
  · intro hout
    rcases follows_of_look (defaultPoolMax w) h with ⟨-, hdefault⟩ | ⟨t, ht, ha⟩
    · rw [hdefault] at hout
      exact absurd (EngineConfig.default_inRange w v) hout
    · exact ⟨t, _, ht, ha, hout⟩

theorem firstOffender_of_ofLookup {ω : Type} [Host ω] {w : ω} {e : ConfigError}
    (h : EngineConfig.ofLookup (defaultPoolMax w) lookup = .error e) :
    ∃ field reason, e = .invalidValue field reason ∧ FirstOffender lookup field := by
  rcases ConfigError.bind_eq_error.mp h with hread | ⟨s, hs, hvalid⟩
  · obtain ⟨before, v, after, horder, hbefore, hv⟩ := Settings.ofLookup_eq_error hread
    obtain ⟨hbad, reason, rfl⟩ := Variable.look_eq_error hv
    refine ⟨v.name, reason, rfl, .unreadable horder (fun u hu hbad => ?_) hbad⟩
    obtain ⟨x, hx⟩ := hbefore u hu
    exact hbad.look_ne x hx
  · have hlook := Settings.ofLookup_eq_ok hs
    obtain ⟨before, v, after, horder, hbefore, hv, reason, rfl⟩ :=
      EngineConfig.validate_eq_error hvalid
    refine ⟨v.setting, reason, rfl, .zero (fun u hbad => hbad.look_ne _ (hlook u)) horder
      (fun u hu hout => ?_) ((outOfRange_iff w (hlook v)).mpr hv)⟩
    exact (outOfRange_iff w (hlook u)).mp hout (hbefore u hu)

/-- Every environment makes a configuration exactly if the texts of its variables are accepted; the
configuration has the values of the texts over the defaults of the machine. All others are refused
for their first offender. -/
theorem environment_read_exactly {ω : Type} [Host ω] (w : ω) (lookup : String → Option String) :
    ((∃ c, EngineConfig.ofLookup (defaultPoolMax w) lookup = .ok c) ↔
        ∀ v : Variable, v.Accepted lookup) ∧
      (∀ c, EngineConfig.ofLookup (defaultPoolMax w) lookup = .ok c →
        ∀ v, c.Follows (.default (defaultPoolMax w)) lookup v) ∧
      ∀ e, EngineConfig.ofLookup (defaultPoolMax w) lookup = .error e →
        e.code? = some "CONFIG-007-INVALID_VALUE" ∧
          ∃ field reason, e = .invalidValue field reason ∧ FirstOffender lookup field := by
  refine ⟨⟨?_, fun haccepted => ?_⟩, fun c hc => (accepted_of_ofLookup hc).1, fun e he => ?_⟩
  · rintro ⟨c, hc⟩
    exact (accepted_of_ofLookup hc).2
  · cases hread : EngineConfig.ofLookup (defaultPoolMax w) lookup with
    | ok c => exact ⟨c, rfl⟩
    | error e =>
      obtain ⟨field, reason, -, hfirst⟩ := firstOffender_of_ofLookup hread
      obtain ⟨v, hv⟩ := hfirst.not_accepted
      exact absurd (haccepted v) hv
  · obtain ⟨field, reason, rfl, hfirst⟩ := firstOffender_of_ofLookup he
    exact ⟨rfl, field, reason, rfl, hfirst⟩

/-- A format that cannot be read is reported before a limit that is zero. -/
example : EngineConfig.ofLookup 8
    (fun name => if name = "PHASEFLOW_MAX_JUMPS_PER_RUN" then some "0" else
      if name = "PHASEFLOW_LOG_FORMAT" then some "xml" else none) =
      .error (.invalidValue "LOG_FORMAT" "unknown log format 'xml'") := by decide +kernel

end Pipeworks
