import Mathlib.Logic.Basic
import OplogRelay.Settings.Environment
import OplogRelay.Settings.Validation
/-!
What the check of the settings asks for, and how it refuses: as a matter of configuration, wherever the
settings have values.
-/
namespace OplogRelay

namespace Settings

variable {α β : Type} {x : Except Failure α} {f : α → Except Failure β} {s : Settings}

theorem bind_eq_ok_iff {ε : Type} {y : Except ε α} {g : α → Except ε β} {b : β} :
    (y >>= g) = .ok b ↔ ∃ a, y = .ok a ∧ g a = .ok b := by
  cases y with
  | error e => exact ⟨nofun, fun ⟨_, h, _⟩ => nomatch h⟩
  | ok a =>
    constructor
    · intro h
      exact ⟨a, rfl, h⟩
    · rintro ⟨_, ⟨⟩, h⟩
      exact h

theorem demand_eq_ok_iff {holds : Bool} {e : SettingsError} {u : Unit} :
    demand holds e = .ok u ↔ holds = true := by
  unfold demand
  split
  · next h => exact ⟨fun _ => h, fun _ => rfl⟩
  · next h => exact ⟨nofun, fun hholds => absurd hholds h⟩

theorem operand_eq_ok_iff {given : Given α} {e : String → KindError} {a : α} :
    operand given e = .ok a ↔ given = .value a := by
  cases given with
  | value b => simp [operand]
  | nothing => simp [operand, Given.require]

def ConfigurationOnly (x : Except Failure α) : Prop := ∀ e, x = .error e → ∃ c, e = .configuration c

theorem ConfigurationOnly.bind (hx : ConfigurationOnly x) (hf : ∀ a, ConfigurationOnly (f a)) :
    ConfigurationOnly (x >>= f) := by
  cases x with
  | error e =>
    intro failure h
    rw [← Except.error.inj h]
    exact hx e rfl
  | ok a => exact hf a

/-- What the check asks of settings. -/
structure Checked (s : Settings) : Prop where
  source : ∃ host, s.source.host = .value host ∧ host ≠ ""
  ns : ∃ ns, s.ns? = .ok ns
  sourceHosts : ∃ spec, hosts? s.sourceConnection = .ok spec
  destinationHosts : ∃ spec, hosts? s.destination = .ok spec
  lookback : ∃ n, s.source.lookback = .value n ∧ 0 ≤ n
  idleWait : ∃ x, s.source.idleWait = .value x ∧ x.isNonpositive = false
  maxSize : ∃ n, s.batch.maxSize = .value n ∧ 1 ≤ n
  flushInterval : ∃ x, s.batch.flushInterval = .value x ∧ x.isNonpositive = false
  format : ∃ name ∈ logFormats, s.logging.format = .value name
  password : s.destination.user? ≠ none → s.destination.password ≠ none

theorem any_value?_iff {given : Given α} {p : α → Bool} :
    (given.value?).any p = true ↔ ∃ a, given = .value a ∧ p a = true := by
  cases given with
  | value a => simp [Given.value?]
  | nothing => simp [Given.value?]

theorem validate_eq_ok_iff : s.validate = .ok () ↔ s.Checked := by
  unfold validate
  simp only [bind_eq_ok_iff, demand_eq_ok_iff, operand_eq_ok_iff, any_value?_iff]
  constructor
  · rintro ⟨_, ⟨host, hhost, hnonempty⟩, ns, hns, source, hsource, destination, hdestination, lookback,
      hlookback, _, hwindow, idle, hidle, _, hwait, size, hsize, _, hroom, flush, hflush, _, htimer, _,
      ⟨format, hformat, hknown⟩, hpassword⟩
    exact {
      source := ⟨host, hhost, by simpa using hnonempty⟩
      ns := ⟨ns, hns⟩
      sourceHosts := ⟨source, hsource⟩
      destinationHosts := ⟨destination, hdestination⟩
      lookback := ⟨lookback, hlookback, of_decide_eq_true hwindow⟩
      idleWait := ⟨idle, hidle, by simpa using hwait⟩
      maxSize := ⟨size, hsize, of_decide_eq_true hroom⟩
      flushInterval := ⟨flush, hflush, by simpa using htimer⟩
      format := ⟨format, List.contains_iff_mem.mp hknown, hformat⟩
      password := by
        intro huser
        simpa [huser, Option.isSome_iff_ne_none] using hpassword }
  · intro h
    obtain ⟨host, hhost, hnonempty⟩ := h.source
    obtain ⟨ns, hns⟩ := h.ns
    obtain ⟨source, hsource⟩ := h.sourceHosts
    obtain ⟨destination, hdestination⟩ := h.destinationHosts
    obtain ⟨lookback, hlookback, hwindow⟩ := h.lookback
    obtain ⟨idle, hidle, hwait⟩ := h.idleWait
    obtain ⟨size, hsize, hroom⟩ := h.maxSize
    obtain ⟨flush, hflush, htimer⟩ := h.flushInterval
    obtain ⟨format, hknown, hformat⟩ := h.format
    have hpassword : (s.destination.user?.isNone || s.destination.password.isSome) = true := by
      by_cases huser : s.destination.user? = none
      · simp [huser]
      · simp [Option.isSome_iff_ne_none.mpr (h.password huser)]
    exact ⟨(), ⟨host, hhost, by simpa using hnonempty⟩, ns, hns, source, hsource, destination,
      hdestination, lookback, hlookback, (), decide_eq_true hwindow, idle, hidle, (), by simpa using hwait,
      size, hsize, (), decide_eq_true hroom, flush, hflush, (), by simpa using htimer, (),
      ⟨format, hformat, List.contains_iff_mem.mpr hknown⟩, hpassword⟩

def ofSeconds (idle flush : Binary64) : Settings where
  source := { host := .value "src", idleWait := .value idle }
  batch := { flushInterval := .value flush }

theorem validate_ofSeconds {idle flush : Binary64} (hidle : idle.isNonpositive = false)
    (hflush : flush.isNonpositive = false) : (ofSeconds idle flush).validate = .ok () :=
  validate_eq_ok_iff.mpr {
    source := ⟨_, rfl, by decide⟩
    ns := ⟨_, rfl⟩
    sourceHosts := ⟨_, rfl⟩
    destinationHosts := ⟨_, rfl⟩
    lookback := ⟨_, rfl, by decide⟩
    idleWait := ⟨_, rfl, hidle⟩
    maxSize := ⟨_, rfl, by decide⟩
    flushInterval := ⟨_, rfl, hflush⟩
    format := ⟨"text", by decide, rfl⟩
    password := fun huser => absurd rfl huser }

/-- There is a value for each setting that the check works on. Only a command line can leave one without. -/
structure IsStated (s : Settings) : Prop where
  destination : s.destination.host ≠ .nothing
  oplog : s.source.oplog ≠ .nothing
  lookback : s.source.lookback ≠ .nothing
  idleWait : s.source.idleWait ≠ .nothing
  maxSize : s.batch.maxSize ≠ .nothing
  flushInterval : s.batch.flushInterval ≠ .nothing

theorem text_ne_nothing (env : Environment) (name : String) {default : Given String}
    (h : default ≠ .nothing) : env.text name default ≠ .nothing := by
  unfold Environment.text Environment.text?
  cases env.lookup name with
  | none => exact h
  | some text => nofun

theorem number?_ne_nothing {env : Environment} {read : String → Except NumeralError α} {name : String}
    {default given : Given α} (h : env.number? read name default = .ok given)
    (hdefault : default ≠ .nothing) : given ≠ .nothing := by
  unfold Environment.number? at h
  split at h
  · next text _ =>
    cases hread : read text with
    | error e => simp [hread, Except.map] at h
    | ok a =>
      rw [hread] at h
      rw [← Except.ok.inj h]
      nofun
  · rw [← Except.ok.inj h]
    exact hdefault

theorem isStated_of_environment {env : Environment} (h : ofEnvironment? env = .ok s) : s.IsStated := by
  have hread : read? env = .ok s := by
    unfold ofEnvironment? at h
    split at h
    · next hread => rw [hread, Except.ok.inj h]
    · cases h
  unfold read? ConnectionSettings.ofEnvironment? SourceSettings.ofEnvironment?
    BatchSettings.ofEnvironment? at hread
  simp only [bind_eq_ok_iff] at hread
  obtain ⟨destination, ⟨port, _, timeout, _, hdestination⟩, source,
    ⟨lookback, hlookback, idle, hidle, hsource⟩, batch, ⟨size, hsize, flush, hflush, hbatch⟩,
    hsettings⟩ := hread
  cases hdestination
  cases hsource
  cases hbatch
  cases hsettings
  exact {
    destination := text_ne_nothing env _ nofun
    oplog := text_ne_nothing env _ nofun
    lookback := number?_ne_nothing hlookback nofun
    idleWait := number?_ne_nothing hidle nofun
    maxSize := number?_ne_nothing hsize nofun
    flushInterval := number?_ne_nothing hflush nofun }

end Settings

end OplogRelay
