import Mathlib.Data.List.Forall2
import OplogRelay.Program
/-!
The password is kept to itself. Environments and arguments that differ in a password only, and not in whether
there is one, are told apart by nothing that the program says: not by the outcome of a check, not by any
message, record or address, and not by what a launched program does. Only the options of a client differ, in
the password itself.
-/
namespace OplogRelay

/-- Both fail, for the same reason, or both succeed, with results that are related. -/
inductive Agree {ε α β : Type} (R : α → β → Prop) : Except ε α → Except ε β → Prop where
  | ok {a : α} {b : β} : R a b → Agree R (.ok a) (.ok b)
  | error (e : ε) : Agree R (.error e) (.error e)

namespace Agree

variable {ε α β γ δ : Type} {R : α → β → Prop} {Q : γ → δ → Prop} {x : Except ε α} {y : Except ε β}

theorem bind {f : α → Except ε γ} {g : β → Except ε δ} (h : Agree R x y)
    (hf : ∀ a b, R a b → Agree Q (f a) (g b)) : Agree Q (x >>= f) (y >>= g) := by
  cases h with
  | ok hr => exact hf _ _ hr
  | error e => exact .error e

theorem bind_same {f : α → Except ε γ} {g : α → Except ε δ} (hf : ∀ a, Agree Q (f a) (g a)) :
    Agree Q (x >>= f) (x >>= g) := by
  cases x with
  | ok a => exact hf a
  | error e => exact .error e

theorem mono {R' : α → β → Prop} (h : Agree R x y) (hr : ∀ a b, R a b → R' a b) : Agree R' x y := by
  cases h with
  | ok hab => exact .ok (hr _ _ hab)
  | error e => exact .error e

end Agree

/-- Passwords that are not to be told apart: one and the same, or two texts that are not empty. -/
inductive Password.Alike : Option (Given String) → Option (Given String) → Prop where
  | same (p : Option (Given String)) : Alike p p
  | texts {p q : String} : p ≠ "" → q ≠ "" → Alike (some (.value p)) (some (.value q))

def ConnectionSettings.withPassword (c : ConnectionSettings) (p : Option (Given String)) :
    ConnectionSettings := { c with password := p }

def Settings.withPassword (s : Settings) (p : Option (Given String)) : Settings :=
  { s with destination := s.destination.withPassword p }

def ClientProvider.withPassword (x : ClientProvider) (p : Option (Given String)) : ClientProvider :=
  { x with settings := x.settings.withPassword p }

def Blueprint.withPassword (b : Blueprint) (p : Option (Given String)) : Blueprint :=
  { b with destination := b.destination.withPassword p, source := b.source.withPassword p }

def ConnectionSettings.Alike (c d : ConnectionSettings) : Prop :=
  ∃ p, Password.Alike c.password p ∧ d = c.withPassword p

def Settings.Alike (s t : Settings) : Prop :=
  ∃ p, Password.Alike s.destination.password p ∧ t = s.withPassword p

def Arguments.Alike (a b : Arguments) : Prop :=
  ∃ p, Password.Alike a.password p ∧ b = { a with password := p }

/-- The same variables are set to the same texts, but for the password. -/
structure Environment.Alike (env env' : Environment) : Prop where
  rest : ∀ name, name ≠ "MONGO_PASSWORD" → env.lookup name = env'.lookup name
  password : Password.Alike (env.text? "MONGO_PASSWORD") (env'.text? "MONGO_PASSWORD")

variable {p q : Option (Given String)} {s t : Settings} {a b : Arguments} {env env' : Environment}

section WithPassword

variable (s : Settings) (c : ConnectionSettings) (p : Option (Given String))

@[simp]
theorem Settings.source_withPassword : (s.withPassword p).source = s.source := rfl

@[simp]
theorem Settings.batch_withPassword : (s.withPassword p).batch = s.batch := rfl

@[simp]
theorem Settings.logging_withPassword : (s.withPassword p).logging = s.logging := rfl

@[simp]
theorem Settings.destination_withPassword :
    (s.withPassword p).destination = s.destination.withPassword p := rfl

@[simp]
theorem Settings.sourceConnection_withPassword :
    (s.withPassword p).sourceConnection = s.sourceConnection.withPassword p := rfl

@[simp]
theorem Settings.ns?_withPassword : (s.withPassword p).ns? = s.ns? := rfl

@[simp]
theorem ConnectionSettings.host_withPassword : (c.withPassword p).host = c.host := rfl

@[simp]
theorem ConnectionSettings.defaultPort?_withPassword :
    (c.withPassword p).defaultPort? = c.defaultPort? := rfl

@[simp]
theorem Settings.hosts?_withPassword : hosts? (c.withPassword p) = hosts? c := by
  simp only [hosts?, ConnectionSettings.host_withPassword, ConnectionSettings.defaultPort?_withPassword]

@[simp]
theorem ConnectionSettings.user?_withPassword : (c.withPassword p).user? = c.user? := rfl

@[simp]
theorem ConnectionSettings.password_withPassword : (c.withPassword p).password = p := rfl

end WithPassword

namespace Password.Alike

theorem isSome (h : Alike p q) : p.isSome = q.isSome := by
  cases h <;> rfl

theorem veiled (h : Alike p q) : Settings.veiled p = Settings.veiled q := by
  cases h with
  | same => rfl
  | texts hp hq => simp [Settings.veiled, hp, hq]

theorem or {p' q' : Option (Given String)} (h : Alike p q) (h' : Alike p' q') :
    Alike (p.or p') (q.or q') := by
  cases h with
  | same p =>
    cases p with
    | none => exact h'
    | some given => exact .same _
  | texts hp hq => exact .texts hp hq

end Password.Alike

namespace Environment.Alike

variable {name : String} (h : env.Alike env') (hname : name ≠ "MONGO_PASSWORD")
include h hname

theorem text? : env.text? name = env'.text? name := by
  rw [Environment.text?, Environment.text?, h.rest name hname]

theorem text (default : Given String) : env.text name default = env'.text name default := by
  rw [Environment.text, Environment.text, h.text? hname]

theorem integer? (default : Int) : env.integer? name default = env'.integer? name default := by
  rw [Environment.integer?, Environment.integer?, h.rest name hname]

theorem number? {α : Type} (read : String → Except NumeralError α) (default : Given α) :
    env.number? read name default = env'.number? read name default := by
  rw [Environment.number?, Environment.number?, h.rest name hname]

theorem port? : env.port? name = env'.port? name := by
  rw [Environment.port?, Environment.port?, h.rest name hname]

end Environment.Alike

theorem ConnectionSettings.agree_ofEnvironment? (h : env.Alike env') :
    Agree Alike (ofEnvironment? env) (ofEnvironment? env') := by
  unfold ofEnvironment?
  dsimp only
  rw [h.port? (by decide), h.integer? (by decide), h.text (by decide), h.text? (by decide),
    h.text (by decide)]
  exact .bind_same fun port => .bind_same fun timeout => .ok ⟨_, h.password, rfl⟩

theorem SourceSettings.ofEnvironment?_alike (h : env.Alike env') :
    ofEnvironment? env = ofEnvironment? env' := by
  unfold ofEnvironment?
  dsimp only
  rw [h.number? (by decide), h.number? (by decide), h.text (by decide), h.text (by decide)]

theorem BatchSettings.ofEnvironment?_alike (h : env.Alike env') :
    ofEnvironment? env = ofEnvironment? env' := by
  unfold ofEnvironment?
  dsimp only
  rw [h.number? (by decide), h.number? (by decide)]

theorem LoggingSettings.ofEnvironment_alike (h : env.Alike env') :
    ofEnvironment env = ofEnvironment env' := by
  unfold ofEnvironment
  dsimp only
  rw [h.rest _ (by decide), h.text (by decide)]

namespace Settings

theorem agree_read? (h : env.Alike env') : Agree Settings.Alike (read? env) (read? env') := by
  unfold read?
  rw [SourceSettings.ofEnvironment?_alike h, BatchSettings.ofEnvironment?_alike h,
    LoggingSettings.ofEnvironment_alike h]
  refine (ConnectionSettings.agree_ofEnvironment? h).bind fun c d hcd => ?_
  obtain ⟨p, hp, rfl⟩ := hcd
  exact .bind_same fun source => .bind_same fun batch => .ok ⟨p, hp, rfl⟩

theorem agree_ofEnvironment? (h : env.Alike env') :
    Agree Settings.Alike (ofEnvironment? env) (ofEnvironment? env') := by
  have hread := agree_read? h
  unfold ofEnvironment?
  generalize read? env = x, read? env' = y at hread
  cases hread with
  | ok halike => exact .ok halike
  | error e => exact .error _

theorem Alike.overlay (h : s.Alike t) (ha : a.Alike b) : (a.overlay s).Alike (b.overlay t) := by
  obtain ⟨p, hp, rfl⟩ := h
  obtain ⟨q, hq, rfl⟩ := ha
  exact ⟨q.or p, hq.or hp, rfl⟩

theorem validate_withPassword (h : s.destination.password.isSome = p.isSome) :
    s.validate = (s.withPassword p).validate := by
  simp only [validate, source_withPassword, ns?_withPassword, sourceConnection_withPassword,
    destination_withPassword, hosts?_withPassword, batch_withPassword, logging_withPassword,
    ConnectionSettings.user?_withPassword, ConnectionSettings.password_withPassword, h]

theorem record_withPassword (h : veiled s.destination.password = veiled p) :
    s.record = (s.withPassword p).record := by
  have hveiled : veiled (s.withPassword p).destination.password = veiled s.destination.password := h.symm
  unfold record
  rw [hveiled]
  rfl

end Settings

/-- Documents with the same fields, which have the same values but for one field. -/
def Document.SameBut (key : String) : Document → Document → Prop :=
  List.Forall₂ fun f g => f.1 = g.1 ∧ (f.1 ≠ key → f.2 = g.2)

theorem Document.SameBut.refl (key : String) (d : Document) : d.SameBut key d :=
  List.forall₂_same.mpr fun _ _ => ⟨rfl, fun _ => rfl⟩

namespace ClientProvider

variable {c : ConnectionSettings} {preference : ReadPreference} {timeout : Option Int}

theorem credentials_withPassword (x : ClientProvider) (p : Option (Given String)) :
    x.credentials.SameBut "password" (x.withPassword p).credentials := by
  have hsettings : (x.withPassword p).settings = x.settings.withPassword p := rfl
  unfold credentials
  rw [hsettings, ConnectionSettings.user?_withPassword]
  cases x.settings.user? with
  | none => exact .nil
  | some name => exact .cons ⟨rfl, fun _ => rfl⟩ (.cons ⟨rfl, absurd rfl⟩ (.cons ⟨rfl, fun _ => rfl⟩ .nil))

theorem options_withPassword (x : ClientProvider) (p : Option (Given String)) :
    x.options.SameBut "password" (x.withPassword p).options :=
  List.rel_append (Document.SameBut.refl "password" _) (x.credentials_withPassword p)

theorem agree_make?_withPassword : Agree (fun x y => y = x.withPassword p)
    (make? c preference timeout) (make? (c.withPassword p) preference timeout) := by
  unfold make?
  rw [Settings.hosts?_withPassword]
  exact .bind_same fun spec => .ok rfl

/-- Providers that name their server alike, and whose clients differ in the password at most. -/
structure TellAlike (x y : ClientProvider) : Prop where
  describe : x.describe = y.describe
  options : x.options.SameBut "password" y.options

theorem agree_make? : Agree TellAlike (make? c preference timeout)
    (make? (c.withPassword p) preference timeout) := by
  refine agree_make?_withPassword.mono ?_
  rintro x _ rfl
  exact ⟨rfl, x.options_withPassword p⟩

end ClientProvider

namespace Blueprint

theorem agree_providers? : Agree (fun x y => y = (x.1.withPassword p, x.2.withPassword p))
    (providers? s) (providers? (s.withPassword p)) := by
  unfold providers?
  rw [Settings.destination_withPassword, Settings.sourceConnection_withPassword]
  refine ClientProvider.agree_make?_withPassword.bind ?_
  rintro destination _ rfl
  refine ClientProvider.agree_make?_withPassword.bind ?_
  rintro source _ rfl
  exact .ok rfl

theorem plan?_withPassword (b : Blueprint) (p : Option (Given String)) (clock : Quantity) :
    (b.withPassword p).plan? clock = b.plan? clock := rfl

theorem agree_checked (b : Blueprint) (p : Option (Given String)) :
    Agree (fun b d => d = b.withPassword p)
      (match b.plan? (.whole 0) with
        | .error e => .error (Failure.misuse e)
        | .ok _ => .ok b)
      (match (b.withPassword p).plan? (.whole 0) with
        | .error e => .error (Failure.misuse e)
        | .ok _ => .ok (b.withPassword p)) := by
  rw [plan?_withPassword]
  cases b.plan? (.whole 0) with
  | error e => exact .error _
  | ok _ => exact .ok rfl

theorem agree_ofSettings? : Agree (fun b d => d = b.withPassword p)
    (ofSettings? s) (ofSettings? (s.withPassword p)) := by
  simp only [ofSettings?, Settings.source_withPassword, Settings.batch_withPassword]
  refine agree_providers?.bind ?_
  rintro ⟨destination, source⟩ _ rfl
  refine .bind_same fun ns => .bind_same fun lookback => .bind_same fun idle => .bind_same fun size =>
    .bind_same fun flush => ?_
  exact agree_checked ⟨destination, source, ns, lookback, idle, size, flush⟩ p

end Blueprint

namespace Program

theorem prepare_withPassword (surroundings : Surroundings) :
    prepare s surroundings = prepare (s.withPassword p) surroundings := by
  have hblueprint := Blueprint.agree_ofSettings? (s := s) (p := p)
  unfold prepare
  generalize Blueprint.ofSettings? s = x, Blueprint.ofSettings? (s.withPassword p) = y at hblueprint
  cases hblueprint with
  | ok hb =>
    subst hb
    rfl
  | error e => rfl

theorem conclude_congr (h : s.record = t.record) (turns : Turns) :
    conclude s turns = conclude t turns := by
  unfold conclude
  rw [h]

theorem launch_withPassword (h : s.record = (s.withPassword p).record) (surroundings : Surroundings)
    (incidents : List (Span × Incident)) :
    launch s surroundings incidents = launch (s.withPassword p) surroundings incidents := by
  unfold launch
  rw [prepare_withPassword (p := p), h]
  simp only [conclude_congr h]

end Program

namespace Settings

/-- Settings that nothing which the program says tells apart: whether they are accepted, what is logged of them,
how both servers are named and, but for the password itself, the options that clients are made with; nor
anything that a program launched with them does, in whatever surroundings. -/
structure TellAlike (s t : Settings) : Prop where
  validate : s.validate = t.validate
  record : s.record = t.record
  destination : ∀ preference timeout, Agree ClientProvider.TellAlike
    (ClientProvider.make? s.destination preference timeout)
    (ClientProvider.make? t.destination preference timeout)
  source : ∀ preference timeout, Agree ClientProvider.TellAlike
    (ClientProvider.make? s.sourceConnection preference timeout)
    (ClientProvider.make? t.sourceConnection preference timeout)
  report : ∀ surroundings incidents,
    Program.launch s surroundings incidents = Program.launch t surroundings incidents

theorem Alike.tellAlike (h : s.Alike t) : s.TellAlike t := by
  obtain ⟨p, hp, rfl⟩ := h
  have hrecord := record_withPassword hp.veiled
  exact {
    validate := validate_withPassword hp.isSome
    record := hrecord
    destination := fun _ _ => ClientProvider.agree_make?
    source := fun _ _ => ClientProvider.agree_make?
    report := Program.launch_withPassword hrecord }

end Settings

theorem Environment.alike_cons (env : Environment) {p q : String} (hp : p ≠ "") (hq : q ≠ "") :
    Alike (("MONGO_PASSWORD", p) :: env) (("MONGO_PASSWORD", q) :: env) := by
  refine ⟨?_, .texts hp hq⟩
  intro name hname
  have hother : (name == "MONGO_PASSWORD") = false := beq_false_of_ne hname
  rw [List.lookup_cons, List.lookup_cons, hother]

theorem Arguments.agree_same {x : Except CommandLine.Stop Arguments} : Agree Alike x x := by
  cases x with
  | error stop => exact .error stop
  | ok a => exact .ok ⟨a.password, .same _, rfl⟩

namespace Program

theorem agree_configure {words words' : List String} (h : env.Alike env')
    (hwords : Agree Arguments.Alike (CommandLine.parse words) (CommandLine.parse words')) :
    Agree Settings.TellAlike (configure words env) (configure words' env') := by
  have hbase := Settings.agree_ofEnvironment? h
  unfold configure
  generalize CommandLine.parse words = x, CommandLine.parse words' = x' at hwords
  generalize Settings.ofEnvironment? env = y, Settings.ofEnvironment? env' = y' at hbase
  cases hwords with
  | error stop => exact .error _
  | ok ha =>
    cases hbase with
    | error e => exact .error _
    | ok hs =>
      have htell := (hs.overlay ha).tellAlike
      dsimp only
      rw [htell.validate]
      split
      · exact .error _
      · exact .ok htell

/-- No password is given away. From environments and arguments that differ in a password only, and not in
whether there is one, the same comes about: settings cannot be read, for the same reason, or there are settings
that nothing tells apart. So it is too with all of the program's way from a command line to settings, which are
checked on it. -/
theorem keeps_password (h : env.Alike env') (ha : a.Alike b) :
    Agree (fun s t => (a.overlay s).TellAlike (b.overlay t)) (Settings.ofEnvironment? env)
      (Settings.ofEnvironment? env') ∧
    ∀ words words', Agree Arguments.Alike (CommandLine.parse words) (CommandLine.parse words') →
      Agree Settings.TellAlike (configure words env) (configure words' env') := by
  constructor
  · exact (Settings.agree_ofEnvironment? h).mono fun s t hs => (hs.overlay ha).tellAlike
  · exact fun words words' => agree_configure h

def signedIn : List String := ["--from", "src", "-u", "app"]

theorem keeps_password_signedIn :
    (∃ s t, configure signedIn [("MONGO_PASSWORD", "hunter2")] = .ok s ∧
      configure signedIn [("MONGO_PASSWORD", "correct horse")] = .ok t ∧
      s.destination.password ≠ t.destination.password ∧ s.record = t.record ∧ s.TellAlike t) ∧
    Agree (fun s t => Settings.TellAlike
        (({ password := some (.value "hunter2") } : Arguments).overlay s)
        (({ password := some (.value "correct horse") } : Arguments).overlay t))
      (Settings.ofEnvironment? []) (Settings.ofEnvironment? []) := by
  have hp : "hunter2" ≠ "" := by decide
  have hq : "correct horse" ≠ "" := by decide
  constructor
  · have hfirst : (configure signedIn [("MONGO_PASSWORD", "hunter2")]).toOption.map
        (·.destination.password) = some (some (.value "hunter2")) := by decide +kernel
    have hsecond : (configure signedIn [("MONGO_PASSWORD", "correct horse")]).toOption.map
        (·.destination.password) = some (some (.value "correct horse")) := by decide +kernel
    have hnone : ({} : Arguments).Alike {} := ⟨none, .same none, rfl⟩
    have hagree := (keeps_password (Environment.alike_cons [] hp hq) hnone).2
      signedIn signedIn Arguments.agree_same
    generalize configure signedIn _ = x, configure signedIn [("MONGO_PASSWORD", "correct horse")] = y at *
    cases hagree with
    | error stop => cases hfirst
    | ok htell =>
      refine ⟨_, _, rfl, rfl, ?_, htell.record, htell⟩
      intro hsame
      exact absurd ((Option.some.inj hfirst).symm.trans (hsame.trans (Option.some.inj hsecond))) (by decide)
  · exact (keeps_password ⟨fun _ _ => rfl, .same _⟩ ⟨_, .texts hp hq, rfl⟩).1

end Program

end OplogRelay
