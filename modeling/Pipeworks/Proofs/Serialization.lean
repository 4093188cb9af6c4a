import Pipeworks.Bench
import Pipeworks.Config.Document
import Pipeworks.Config.Variables
import Pipeworks.Json.Records
import Pipeworks.Json.RoundTrip
import Pipeworks.Keyed.Listing

/-!
# Written values read back

`written_values_read_back`: what is written for a lifecycle, a key of the cache, a timing or the details of an
error is read as that value, and what was read from any text stays the same when it is written and read again.
A configuration comes back through its reader exactly if its limits are not zero, and else is refused for a value
that is out of range.

The details of an error hold a table whose entries are written in any order.
-/

namespace Pipeworks

open Json

/-! ### Choices -/

theorem Phase.ofJson?_toJson (p : Phase) : ofJson? p.toJson = some p := by
  cases p <;> rfl

theorem LogFormat.ofJson?_toJson (f : LogFormat) : ofJson? f.toJson = some f := by
  cases f <;> rfl

namespace Lifecycle

/-- The size of a pool is a word. -/
def Fits : Lifecycle → Prop
  | pooled (some max) => max ≤ maxWord
  | _ => True

theorem printable (l : Lifecycle) : l.toJson.Printable := by
  cases l with
  | shared | perRun => exact .record (by simp [Printable.string])
  | pooled max => exact .record (by simp [Printable.string, Printable.orNull Printable.nat])

theorem ofJson?_toJson {l : Lifecycle} (h : l.Fits) : ofJson? l.toJson = some l := by
  cases l with
  | shared | perRun =>
    rw [ofJson?, toJson, tagged?_record rfl (by decide) (List.forall_mem_nil _)]
    rfl
  | pooled max =>
    have hword : ∀ n ∈ max, nat? (nat n) = some n := by
      rintro n rfl
      exact nat?_nat h
    rw [ofJson?, toJson, tagged?_record]
    · have hmax : nullable? nat? (orNull nat max) = some max :=
        nullable?_orNull fun n hn => ⟨nofun, hword n hn⟩
      simp only [Option.bind_eq_bind, Option.bind_some]
      rw [fields?_record]
      · simp [Fields.optional, Fields.find?, hmax]
      · rfl
      · decide
    · cases max with
      | none => rfl
      | some n =>
        have hn : Number.word? ⟨false, n, [], none⟩ = some n := hword n rfl
        simp [record, orNull, nat, isPlain, membersPlain, hn]
    · cases max <;> simp [record, orNull, nat, depth, membersDepth, maxDepth]
    · simp

theorem fits_of_ofJson? {v : Json} {l : Lifecycle} (h : ofJson? v = some l) : l.Fits := by
  rw [ofJson?] at h
  obtain ⟨⟨mode, rest⟩, -, h⟩ := Option.bind_eq_some_iff.1 h
  simp only at h
  split at h
  · split at h <;> cases h; trivial
  · split at h <;> cases h; trivial
  · simp only [Option.bind_eq_bind, Option.bind_eq_some_iff] at h
    obtain ⟨r, -, max, hmax, ⟨⟩⟩ := h
    cases max with
    | none => trivial
    | some max =>
      cases max with
      | none => trivial
      | some n =>
        obtain ⟨v, hv⟩ := Fields.optional_eq_some hmax
        exact le_of_nat? (nullable?_eq_some hv)
  · cases h

theorem faithful : Faithful ofJson? toJson Fits := ⟨fun _ => printable _, ofJson?_toJson, fits_of_ofJson?⟩

end Lifecycle

/-! ### Records -/

namespace CacheKey

/-- The index is a word. -/
def Fits (k : CacheKey) : Prop := k.index ≤ maxWord

theorem printable (k : CacheKey) : k.toJson.Printable :=
  .record (by simp [Phase.toJson, Printable.string, Printable.nat, Printable.orNull Printable.string])

theorem ofJson?_toJson {k : CacheKey} (h : k.Fits) : ofJson? k.toJson = some k := by
  rw [ofJson?, toJson, fields?_record]
  · have hindex := nat?_nat h
    have hname : nullable? string? (orNull string k.name) = some k.name :=
      nullable?_orNull fun _ _ => ⟨nofun, rfl⟩
    simp [Fields.required, Fields.nullable, Fields.find?, List.lookup_cons, hindex, hname, Phase.ofJson?_toJson]
  · rfl
  · decide

theorem fits_of_ofJson? {v : Json} {k : CacheKey} (h : ofJson? v = some k) : k.Fits := by
  simp only [ofJson?, Option.bind_eq_bind, Option.bind_eq_some_iff] at h
  obtain ⟨r, -, pipeline, -, phase, -, index, hindex, name, -, ⟨⟩⟩ := h
  obtain ⟨v, -, hv⟩ := Fields.required_eq_some.1 hindex
  exact le_of_nat? hv

theorem faithful : Faithful ofJson? toJson Fits := ⟨fun _ => printable _, ofJson?_toJson, fits_of_ofJson?⟩

end CacheKey

namespace Timing

/-- The numbers are words. -/
structure Fits (t : Timing) : Prop where
  index : t.index ≤ maxWord
  elapsed : t.elapsed ≤ maxWord

theorem printable (t : Timing) : t.toJson.Printable :=
  .record (by simp [Phase.toJson, Printable.string, Printable.nat, Printable.bool])

theorem ofJson?_toJson {t : Timing} (h : t.Fits) : ofJson? t.toJson = some t := by
  rw [ofJson?, toJson, fields?_record]
  · have hindex := nat?_nat h.index
    have helapsed := nat?_nat h.elapsed
    simp [Fields.required, Fields.find?, List.lookup_cons, hindex, helapsed, Phase.ofJson?_toJson]
  · rfl
  · decide

theorem fits_of_ofJson? {v : Json} {t : Timing} (h : ofJson? v = some t) : t.Fits := by
  simp only [ofJson?, Option.bind_eq_bind, Option.bind_eq_some_iff] at h
  obtain ⟨r, -, phase, -, index, hindex, name, -, elapsed, helapsed, success, -, ⟨⟩⟩ := h
  obtain ⟨v, -, hv⟩ := Fields.required_eq_some.1 hindex
  obtain ⟨u, -, hu⟩ := Fields.required_eq_some.1 helapsed
  exact ⟨le_of_nat? hv, le_of_nat? hu⟩

theorem faithful : Faithful ofJson? toJson Fits := ⟨fun _ => printable _, ofJson?_toJson, fits_of_ofJson?⟩

end Timing

namespace ErrorInfo

/-- The details with the entries of their table in a given order. -/
def listed (i : ErrorInfo) (entries : List (String × String)) : Json :=
  .record [("code", .string i.code), ("summary", .string i.summary), ("fix_hint", orNull .string i.fixHint),
    ("context", .record (entries.map fun e => (e.1, .string e.2)))]

theorem printable (i : ErrorInfo) (entries : List (String × String)) : (i.listed entries).Printable :=
  .record (by
    have hcontext : (Json.record (entries.map fun e => (e.1, Json.string e.2))).Printable :=
      .record (List.forall_mem_map.2 fun _ _ => .string _)
    simp [Printable.string, Printable.orNull Printable.string, hcontext])

theorem ofJson?_listed {i : ErrorInfo} {entries : List (String × String)} (h : entries.Perm i.context.entries) :
    ofJson? (i.listed entries) = some i := by
  rw [ofJson?, listed, fields?_record]
  · have hhint : nullable? string? (orNull string i.fixHint) = some i.fixHint :=
      nullable?_orNull fun _ _ => ⟨nofun, rfl⟩
    have hcontext : Keyed.ofJson? string? (record (entries.map fun e => (e.1, string e.2)))
        = some i.context := by
      rw [Keyed.ofJson?, members?_record, Option.bind_eq_bind, Option.bind_some, List.mapM_map]
      have hread : entries.mapM (fun e => some (e.1, e.2)) = some entries :=
        List.mapM_pure.trans (congrArg some (List.map_id entries))
      exact (congrArg (fun r => r.bind fun l => some (Keyed.ofList l)) hread).trans
        (congrArg some (Keyed.ofList_of_perm h))
    simp [Fields.required, Fields.nullable, Fields.optional, Fields.find?, List.lookup_cons, hhint, hcontext]
  · rfl
  · decide

theorem toJson_eq_listed (i : ErrorInfo) : i.toJson = i.listed i.context.entries := rfl

theorem faithful {order : ErrorInfo → List (String × String)} (h : ∀ i, (order i).Perm i.context.entries) :
    Faithful ofJson? (fun i => i.listed (order i)) fun _ => True :=
  ⟨fun {i} _ => i.printable (order i), fun {i} _ => ofJson?_listed (h i), fun _ => trivial⟩

end ErrorInfo

/-! ### Configurations -/

namespace EngineConfig

/-- A configuration as it is read, before its limits are checked. -/
def ofJson? (poolMax : Nat) (v : Json) : Option EngineConfig := (Settings.ofJson? v).map (ofSettings poolMax)

/-- The limits are words. -/
structure Fits (c : EngineConfig) : Prop where
  maxJumpsPerRun : c.maxJumpsPerRun ≤ maxWord
  poolMax : c.poolMax ≤ maxWord
  ingestBuffer : c.ingestBuffer ≤ maxWord

theorem printable (c : EngineConfig) : c.toJson.Printable :=
  .record (by simp [LogFormat.toJson, Printable.string, Printable.nat, Printable.bool])

theorem ofJson?_toJson (poolMax : Nat) {c : EngineConfig} (h : c.Fits) : ofJson? poolMax c.toJson = some c := by
  rw [ofJson?, Settings.ofJson?, toJson, fields?_record]
  · have hjumps := nat?_nat h.maxJumpsPerRun
    have hpool := nat?_nat h.poolMax
    have hbuffer := nat?_nat h.ingestBuffer
    simp [Fields.optional, Fields.find?, List.lookup_cons, hjumps, hpool, hbuffer,
      LogFormat.ofJson?_toJson, ofSettings]
  · rfl
  · decide

theorem fits_of_ofJson? {poolMax : Nat} (hdefault : poolMax ≤ maxWord) {v : Json} {c : EngineConfig}
    (h : ofJson? poolMax v = some c) : c.Fits := by
  obtain ⟨s, hs, rfl⟩ := Option.map_eq_some_iff.1 h
  simp only [Settings.ofJson?, Option.bind_eq_bind, Option.bind_eq_some_iff] at hs
  obtain ⟨r, -, short, -, abort, -, jumps, hjumps, pool, hpool, buffer, hbuffer, format, -, ⟨⟩⟩ := hs
  have hlimit {o : Option Nat} {d : Nat} {name : String} (ho : r.optional name nat? = some o)
      (hd : d ≤ maxWord) : o.getD d ≤ maxWord := by
    cases o with
    | none => exact hd
    | some n =>
      obtain ⟨v, hv⟩ := Fields.optional_eq_some ho
      exact le_of_nat? hv
  have hjumpsDefault : (default poolMax).maxJumpsPerRun ≤ maxWord := (by decide : defaultMaxJumps ≤ maxWord)
  have hbufferDefault : (default poolMax).ingestBuffer ≤ maxWord := (by decide : 1024 ≤ maxWord)
  exact ⟨hlimit hjumps hjumpsDefault, hlimit hpool hdefault, hlimit hbuffer hbufferDefault⟩

theorem faithful {poolMax : Nat} (h : poolMax ≤ maxWord) : Faithful (ofJson? poolMax) toJson Fits :=
  ⟨fun _ => printable _, ofJson?_toJson poolMax, fits_of_ofJson? h⟩

theorem validate_eq_ok_iff {c : EngineConfig} :
    c.validate = .ok c ↔ 1 ≤ c.maxJumpsPerRun ∧ 1 ≤ c.poolMax ∧ 1 ≤ c.ingestBuffer := by
  rw [validate]
  split_ifs <;> simp <;> omega

/-- A text is refused as a whole, or its configuration for its limits. -/
theorem ofText_eq (poolMax : Nat) (s : String) :
    ofText poolMax s = match read? (ofJson? poolMax) s with
      | some c => c.validate.mapError .configuration
      | none => .error (.serialization "not a document of settings") := by
  have hread : read? (ofJson? poolMax) s
      = ((Json.ofText? s).bind Settings.ofJson?).map (ofSettings poolMax) := by
    rw [Option.map_bind]
    rfl
  rw [hread, ofText, Settings.ofText]
  cases (Json.ofText? s).bind Settings.ofJson? with
  | none => rfl
  | some settings =>
    change ofDocument poolMax settings = (ofSettings poolMax settings).validate.mapError .configuration
    rw [ofDocument]
    cases (ofSettings poolMax settings).validate <;> rfl

theorem ofText_eq_ok {poolMax : Nat} {s : String} {c : EngineConfig} (h : ofText poolMax s = .ok c) :
    read? (ofJson? poolMax) s = some c ∧ c.validate = .ok c := by
  rw [ofText_eq] at h
  split at h
  · rename_i c' hread
    cases hvalid : c'.validate with
    | ok c'' =>
      rw [hvalid] at h
      cases h
      obtain ⟨rfl, -⟩ := validate_eq_ok hvalid
      exact ⟨hread, hvalid⟩
    | error e =>
      rw [hvalid] at h
      cases h
  · cases h

theorem ofText_print (poolMax : Nat) {c : EngineConfig} (h : c.Fits) :
    ofText poolMax c.toJson.print = c.validate.mapError .configuration := by
  rw [ofText_eq, read?_print c.printable, ofJson?_toJson poolMax h]

end EngineConfig

/-! ### All of them -/

/-- What is written for a value is read as that value, and what was read from any text is read again from the text
that is written for it. The numbers of a value are words, and the entries of a table are written in any order. A
configuration comes through its reader exactly if its limits are not zero. Once it has, and is written, every
machine reads it as the first one did, whatever its own defaults are. -/
theorem written_values_read_back {ω : Type} [Host ω] (w w' : ω) :
    RoundTrip Lifecycle.ofJson? Lifecycle.toJson Lifecycle.Fits ∧
      RoundTrip CacheKey.ofJson? CacheKey.toJson CacheKey.Fits ∧
      RoundTrip Timing.ofJson? Timing.toJson Timing.Fits ∧
      (∀ order : ErrorInfo → List (String × String), (∀ i, (order i).Perm i.context.entries) →
        RoundTrip ErrorInfo.ofJson? (fun i => i.listed (order i)) fun _ => True) ∧
      RoundTrip (EngineConfig.ofJson? (defaultPoolMax w)) EngineConfig.toJson EngineConfig.Fits ∧
      (∀ c : EngineConfig, c.Fits →
        (EngineConfig.ofText (defaultPoolMax w) c.toJson.print = .ok c ↔
          1 ≤ c.maxJumpsPerRun ∧ 1 ≤ c.poolMax ∧ 1 ≤ c.ingestBuffer) ∧
        (¬(1 ≤ c.maxJumpsPerRun ∧ 1 ≤ c.poolMax ∧ 1 ≤ c.ingestBuffer) →
          ∃ e, EngineConfig.ofText (defaultPoolMax w) c.toJson.print = .error (.configuration e) ∧
            e.code? = some "CONFIG-007-INVALID_VALUE")) ∧
      ∀ s c, EngineConfig.ofText (defaultPoolMax w) s = .ok c →
        EngineConfig.ofText (defaultPoolMax w') c.toJson.print = .ok c := by
  have hconfig := EngineConfig.faithful (defaultPoolMax_le w)
  refine ⟨Lifecycle.faithful.roundTrip, CacheKey.faithful.roundTrip, Timing.faithful.roundTrip, ?_,
    hconfig.roundTrip, ?_, ?_⟩
  · intro order horder
    exact (ErrorInfo.faithful horder).roundTrip
  · intro c hc
    rw [EngineConfig.ofText_print _ hc, ← EngineConfig.validate_eq_ok_iff]
    cases hvalid : c.validate with
    | ok c' =>
      obtain ⟨rfl, -⟩ := EngineConfig.validate_eq_ok hvalid
      exact ⟨iff_of_true rfl rfl, fun h => absurd rfl h⟩
    | error e =>
      obtain ⟨-, v, -, -, -, -, reason, rfl⟩ := EngineConfig.validate_eq_error hvalid
      exact ⟨iff_of_false nofun nofun, fun _ => ⟨_, rfl, rfl⟩⟩
  · intro s c hs
    obtain ⟨hread, hvalid⟩ := EngineConfig.ofText_eq_ok hs
    obtain ⟨v, -, hv⟩ := Option.bind_eq_some_iff.1 hread
    rw [EngineConfig.ofText_print _ (hconfig.fits_of_read hv), hvalid]
    rfl

/-- A key of the greatest index, under a name that must be escaped. -/
def escapedKey : CacheKey := ⟨"a\"b\\c\x01", .post, maxWord, none⟩

def longTiming : Timing := ⟨.main, 0, "s0", maxWord, false⟩

def hintedInfo : ErrorInfo :=
  ⟨"CONFIG-009", "line\nline", some "", .ofList [("b", "2"), ("a", "1"), ("", "\u00e9")]⟩

theorem written_values_read_back_awkward :
    (Lifecycle.Fits (.pooled (some maxWord)) ∧
      read? Lifecycle.ofJson? (Lifecycle.pooled (some maxWord)).toJson.print = some (.pooled (some maxWord))) ∧
      (read? Lifecycle.ofJson? "[\"pooled\"]" = some (.pooled none) ∧
        read? Lifecycle.ofJson? (Lifecycle.pooled none).toJson.print = some (.pooled none)) ∧
      (escapedKey.Fits ∧ read? CacheKey.ofJson? escapedKey.toJson.print = some escapedKey) ∧
      (longTiming.Fits ∧ read? Timing.ofJson? longTiming.toJson.print = some longTiming) ∧
      ((∀ i : ErrorInfo, i.context.entries.reverse.Perm i.context.entries) ∧
        read? ErrorInfo.ofJson? (hintedInfo.listed hintedInfo.context.entries.reverse).print = some hintedInfo ∧
        read? ErrorInfo.ofJson? hintedInfo.toJson.print = some hintedInfo) ∧
      ((EngineConfig.default 0).Fits ∧
        ∃ e, EngineConfig.ofText 8 (EngineConfig.default 0).toJson.print = .error (.configuration e) ∧
          e.code? = some "CONFIG-007-INVALID_VALUE") ∧
      EngineConfig.ofText 8 "[false]" = .ok ⟨false, false, 128, 8, 1024, .text⟩ ∧
        EngineConfig.ofText 16 (EngineConfig.toJson ⟨false, false, 128, 8, 1024, .text⟩).print
          = .ok ⟨false, false, 128, 8, 1024, .text⟩ := by
  obtain ⟨hlifecycle, hkey, htiming, hinfo, -, hlimits, hagain⟩ :=
    written_values_read_back (Bench.new 1) (Bench.new 2)
  have hpooled : read? Lifecycle.ofJson? "[\"pooled\"]" = some (.pooled none) := by decide +kernel
  have hperm (i : ErrorInfo) : i.context.entries.reverse.Perm i.context.entries := List.reverse_perm _
  have hsorted : read? ErrorInfo.ofJson? hintedInfo.toJson.print = some hintedInfo := by
    rw [ErrorInfo.toJson_eq_listed]
    exact (hinfo (·.context.entries) fun _ => .refl _).value trivial
  have hzero : (EngineConfig.default 0).Fits := ⟨by decide, by decide, by decide⟩
  have hshort : EngineConfig.ofText 8 "[false]" = .ok ⟨false, false, 128, 8, 1024, .text⟩ := by decide +kernel
  have hword : maxWord ≤ maxWord := Nat.le_refl _
  exact ⟨⟨hword, hlifecycle.value hword⟩, ⟨hpooled, hlifecycle.text hpooled⟩, ⟨hword, hkey.value hword⟩,
    ⟨⟨by decide, hword⟩, htiming.value ⟨by decide, hword⟩⟩,
    ⟨hperm, (hinfo _ hperm).value trivial, hsorted⟩, ⟨hzero, (hlimits _ hzero).2 (by decide)⟩, hshort,
    hagain _ _ hshort⟩

end Pipeworks
