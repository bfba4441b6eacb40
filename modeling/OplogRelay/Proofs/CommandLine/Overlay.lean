import OplogRelay.CommandLine.Parse
import OplogRelay.Proofs.Settings.Validation
/-!
Arguments laid over settings. Settings and arguments are looked at setting by setting: each setting of the
result is what was given for it, or else what it was before. Arguments can therefore be laid over each other
first, and the result over the settings.
-/
namespace OplogRelay

/-- What settings tell, one by one. All but the last can be given on the command line. -/
inductive Setting where
  | source
  | oplog
  | lookback
  | idleWait
  | host
  | port
  | username
  | password
  | authDatabase
  | batchSize
  | flushInterval
  | logLevel
  | logFormat
  | selectionTimeout
  deriving DecidableEq, Repr

def Setting.Kind : Setting → Type
  | source | oplog | host | authDatabase | logFormat => Given String
  | lookback | batchSize => Given Int
  | idleWait | flushInterval => Given Binary64
  | port => Option (Given Int)
  | username | password => Option (Given String)
  | logLevel => String
  | selectionTimeout => Int

namespace Settings

def get (s : Settings) : (x : Setting) → x.Kind
  | .source => s.source.host
  | .oplog => s.source.oplog
  | .lookback => s.source.lookback
  | .idleWait => s.source.idleWait
  | .host => s.destination.host
  | .port => s.destination.port
  | .username => s.destination.username
  | .password => s.destination.password
  | .authDatabase => s.destination.authDatabase
  | .batchSize => s.batch.maxSize
  | .flushInterval => s.batch.flushInterval
  | .logLevel => s.logging.level
  | .logFormat => s.logging.format
  | .selectionTimeout => s.destination.selectionTimeout

def ofValues (f : (x : Setting) → x.Kind) : Settings where
  destination := {
    host := f .host
    port := f .port
    username := f .username
    password := f .password
    authDatabase := f .authDatabase
    selectionTimeout := f .selectionTimeout }
  source := { host := f .source, oplog := f .oplog, lookback := f .lookback, idleWait := f .idleWait }
  batch := { maxSize := f .batchSize, flushInterval := f .flushInterval }
  logging := { level := f .logLevel, format := f .logFormat }

theorem ofValues_get (s : Settings) : ofValues s.get = s := rfl

/-- There is nothing more to settings than the values of each. -/
theorem eq_of_get {s t : Settings} (h : ∀ x, s.get x = t.get x) : s = t := by
  rw [← ofValues_get s, ← ofValues_get t, funext h]

end Settings

namespace Arguments

/-- What is given for a setting. The switches for silence and for detail are about one setting. -/
def given? (a : Arguments) : (x : Setting) → Option x.Kind
  | .source => a.source
  | .oplog => a.oplog
  | .lookback => a.lookback
  | .idleWait => a.idleWait
  | .host => a.host
  | .port => a.port.map some
  | .username => a.username.map some
  | .password => a.password.map some
  | .authDatabase => a.authDatabase
  | .batchSize => a.batchSize
  | .flushInterval => a.flushInterval
  | .logLevel => a.logLevel?
  | .logFormat => a.logFormat
  | .selectionTimeout => none

def asksForLevel (a : Arguments) : Bool := a.quiet || a.verbose != 0

def onTop (a b : Arguments) : Arguments where
  source := a.source.or b.source
  oplog := a.oplog.or b.oplog
  lookback := a.lookback.or b.lookback
  idleWait := a.idleWait.or b.idleWait
  host := a.host.or b.host
  port := a.port.or b.port
  username := a.username.or b.username
  password := a.password.or b.password
  authDatabase := a.authDatabase.or b.authDatabase
  batchSize := a.batchSize.or b.batchSize
  flushInterval := a.flushInterval.or b.flushInterval
  verbose := if a.asksForLevel then a.verbose else b.verbose
  quiet := if a.asksForLevel then a.quiet else b.quiet
  logFormat := a.logFormat.or b.logFormat

variable {a b : Arguments} {c : Settings}

theorem logLevel?_eq_none_iff : a.logLevel? = none ↔ a.asksForLevel = false := by
  unfold logLevel? asksForLevel
  cases a.quiet with
  | true => simp
  | false => grind

theorem logLevel?_onTop (a b : Arguments) : (a.onTop b).logLevel? = a.logLevel?.or b.logLevel? := by
  cases hasks : a.asksForLevel with
  | false =>
    rw [logLevel?_eq_none_iff.mpr hasks, Option.none_or]
    simp [logLevel?, onTop, hasks]
  | true =>
    have hsome : a.logLevel? ≠ none := by
      rw [ne_eq, logLevel?_eq_none_iff, hasks]
      exact Bool.noConfusion
    obtain ⟨level, hlevel⟩ := Option.ne_none_iff_exists'.mp hsome
    rw [hlevel, Option.some_or, ← hlevel]
    simp [logLevel?, onTop, hasks]

theorem given?_onTop (a b : Arguments) (x : Setting) :
    (a.onTop b).given? x = (a.given? x).or (b.given? x) := by
  cases x with
  | logLevel => exact logLevel?_onTop a b
  | port | username | password => exact Option.map_or
  | _ => rfl

theorem or_eq_getD {α : Type} (x y : Option α) : x.or y = (x.map some).getD y := by
  cases x <;> rfl

theorem get_overlay (a : Arguments) (c : Settings) (x : Setting) :
    (a.overlay c).get x = (a.given? x).getD (c.get x) := by
  cases x with
  | port | username | password => exact or_eq_getD _ _
  | _ => rfl

def settingOf? : Switch → Option Setting
  | .source => some .source
  | .oplog => some .oplog
  | .lookback => some .lookback
  | .idleWait => some .idleWait
  | .host => some .host
  | .port => some .port
  | .username => some .username
  | .password => some .password
  | .authDatabase => some .authDatabase
  | .batchSize => some .batchSize
  | .flushInterval => some .flushInterval
  | .logFormat => some .logFormat
  | .help | .version | .verbose | .quiet => none

theorem given?_assign {a a' : Arguments} {s : Switch} {text : String} {x : Setting}
    (hs : settingOf? s = some x) (h : CommandLine.assign a s text = .ok a') :
    (∃ v, a'.given? x = some v) ∧ ∀ y, y ≠ x → a'.given? y = a.given? y := by
  unfold CommandLine.assign at h
  cases s with
  | help | version | verbose | quiet => cases hs
  | _ =>
    obtain ⟨v, _, hassigned⟩ := Settings.bind_eq_ok_iff.mp h
    cases hs
    cases hassigned
    refine ⟨⟨_, rfl⟩, fun y hy => ?_⟩
    cases y <;> first | rfl | exact absurd rfl hy

theorem overlay_overlay (a b : Arguments) (c : Settings) :
    a.overlay (b.overlay c) = (a.onTop b).overlay c := by
  apply Settings.eq_of_get
  intro x
  calc (a.overlay (b.overlay c)).get x
      = (a.given? x).getD ((b.given? x).getD (c.get x)) := by rw [get_overlay, get_overlay]
    _ = ((a.given? x).or (b.given? x)).getD (c.get x) := Option.getD_or.symm
    _ = ((a.onTop b).overlay c).get x := by rw [get_overlay, given?_onTop]

/-- Silence wins over any number of calls for detail. -/
theorem overlay_quiet (h : a.quiet = true) (n : Nat) :
    ({ a with verbose := n } : Arguments).overlay c = a.overlay c := by
  have hlevel : ({ a with verbose := n } : Arguments).logLevel? = a.logLevel? := by simp [logLevel?, h]
  apply Settings.eq_of_get
  intro x
  rw [get_overlay, get_overlay]
  cases x with
  | logLevel => exact congrArg (·.getD c.logging.level) hlevel
  | _ => rfl

/-- Laying arguments over settings one after the other is laying them over each other first. Every setting of
the result is what is given for it, whatever that is, or else that of the settings below, and hangs on nothing
else; nothing is changed where nothing is given. Silence and detail are one setting, and silence wins. A switch
that could be read has given its setting a value, and no other one. -/
theorem overlays_compose (a b : Arguments) (c : Settings) :
    a.overlay (b.overlay c) = (a.onTop b).overlay c ∧
    (∀ x, (a.onTop b).given? x = (a.given? x).or (b.given? x)) ∧
    (∀ x, (a.overlay c).get x = (a.given? x).getD (c.get x)) ∧
    ((∀ x, a.given? x = none) → a.overlay c = c) ∧
    (∀ n, a.quiet = true → ({ a with verbose := n } : Arguments).overlay c = a.overlay c) ∧
    ∀ (s : Switch) (x : Setting) (text : String) (a' : Arguments), settingOf? s = some x →
      CommandLine.assign a s text = .ok a' →
      (∃ v, a'.given? x = some v ∧ (a'.overlay c).get x = v) ∧
        ∀ y, y ≠ x → (a'.overlay c).get y = (a.overlay c).get y := by
  refine ⟨overlay_overlay a b c, given?_onTop a b, get_overlay a c, ?_, fun n h => overlay_quiet h n, ?_⟩
  · intro hnone
    apply Settings.eq_of_get
    intro x
    rw [get_overlay, hnone, Option.getD_none]
  · intro s x text a' hs hassign
    obtain ⟨⟨v, hv⟩, hothers⟩ := given?_assign hs hassign
    refine ⟨⟨v, hv, ?_⟩, ?_⟩
    · rw [get_overlay, hv, Option.getD_some]
    · intro y hy
      rw [get_overlay, get_overlay, hothers y hy]

def stated : Settings where
  source := { host := .value "src" }
  logging := { level := "ERROR" }

def falsy : Arguments where
  port := some (.value 0)
  source := some (.value "")
  lookback := some (.value (-5))
  quiet := true

theorem overlays_compose_falsy :
    CommandLine.parse ["--port", "0", "--from", "", "-s", "-5", "--quiet"] = .ok falsy ∧
    ({ falsy with verbose := 2 } : Arguments).overlay {} = falsy.overlay {} ∧
    falsy.overlay (({ verbose := 1, port := some (.value 1) } : Arguments).overlay {}) =
      { destination := { port := some (.value 0) }
        source := { host := .value "", lookback := .value (-5) }
        logging := { level := "WARNING" } } ∧
    CommandLine.parse [] = .ok {} ∧ ({} : Arguments).overlay stated = stated ∧
    ∃ a', CommandLine.assign falsy .port "-1" = .ok a' ∧
      (a'.overlay {}).get .lookback = (falsy.overlay {}).get .lookback := by
  obtain ⟨hcompose, _, _, _, hquiet, hassign⟩ := overlays_compose falsy
    { verbose := 1, port := some (.value 1) } {}
  refine ⟨rfl, hquiet 2 rfl, hcompose.trans rfl, rfl, ?_, ?_⟩
  · refine (overlays_compose {} {} stated).2.2.2.1 fun x => ?_
    cases x <;> rfl
  · exact ⟨_, rfl, (hassign .port .port "-1" _ rfl rfl).2 .lookback (by decide)⟩

end Arguments

end OplogRelay
