import OplogRelay.CommandLine.Arguments
import OplogRelay.CommandLine.Switch
import OplogRelay.Number.Numeral
/-!
Reading a command line. Words are told apart first: a switch may be spelled in full, by the start
of a long spelling that no other has, with its value behind an equals sign or, for a short one,
right behind it. Then the words are used from left to right.
-/
namespace OplogRelay.CommandLine

inductive UsageError where
  | ambiguous (word : String) (matching : List String)
  | missingValue (s : Switch)
  | unusedValue (s : Switch) (value : String)
  | notInteger (s : Switch) (value : String)
  | notDecimal (s : Switch) (value : String)
  | notAChoice (s : Switch) (value : String) (choices : List String)
  | unrecognized (words : List String)
  deriving DecidableEq, Repr

def UsageError.message : UsageError → String
  | .ambiguous word matching =>
    s!"ambiguous option: {word} could match " ++ ", ".intercalate matching
  | .missingValue s => s!"argument {s.label}: expected one argument"
  | .unusedValue s value =>
    s!"argument {s.label}: ignored explicit argument " ++ Text.quoted value
  | .notInteger s value => s!"argument {s.label}: invalid int value: " ++ Text.quoted value
  | .notDecimal s value => s!"argument {s.label}: invalid float value: " ++ Text.quoted value
  | .notAChoice s value choices =>
    s!"argument {s.label}: invalid choice: {Text.quoted value} (choose from " ++
      ", ".intercalate (choices.map Text.quoted) ++ ")"
  | .unrecognized words => "unrecognized arguments: " ++ " ".intercalate words

inductive Stop where
  | help
  | version
  | usage (e : UsageError)
  deriving DecidableEq, Repr

inductive Word where
  | switch (s : Switch) (name : String) (value : Option String)
  | unknown (text : String)
  | plain (text : String)
  | separator
  deriving DecidableEq, Repr

/-- A minus and digits, with a point among them or without; a line break may follow. -/
def isNegativeNumeral (cs : List Char) : Bool :=
  match cs with
  | '-' :: rest =>
    let body := if rest.getLast? == some '\n' then rest.dropLast else rest
    match Text.cutFirst? '.' body with
    | none => !body.isEmpty && body.all Text.isDecimalDigit
    | some (whole, fraction) =>
      whole.all Text.isDecimalDigit && !fraction.isEmpty && fraction.all Text.isDecimalDigit
  | _ => false

def candidates (cs : List Char) : List Word :=
  match cs with
  | '-' :: '-' :: _ =>
    let (stem, value) := match Text.cutFirst? '=' cs with
      | some (stem, value) => (stem, some (String.ofList value))
      | none => (cs, none)
    Switch.vocabulary.filterMap fun (name, s) =>
      if stem.isPrefixOf name.toList then some (.switch s name value) else none
  | '-' :: c :: value =>
    Switch.vocabulary.filterMap fun (name, s) =>
      if name.toList = ['-', c] then some (.switch s name (some (String.ofList value)))
      else none
  | _ => []

def Word.name : Word → String
  | .switch _ name _ => name
  | .unknown text => text
  | .plain text => text
  | .separator => "--"

def guess (word : String) : Except UsageError Word :=
  match candidates word.toList with
  | [found] => .ok found
  | [] =>
    if isNegativeNumeral word.toList || word.toList.contains ' ' then .ok (.plain word)
    else .ok (.unknown word)
  | several => .error (.ambiguous word (several.map Word.name))

def classify (word : String) : Except UsageError Word :=
  match word.toList with
  | '-' :: rest =>
    match Switch.find? word with
    | some s => .ok (.switch s word none)
    | none =>
      if rest.isEmpty then .ok (.plain word)
      else match Text.cutFirst? '=' word.toList with
        | none => guess word
        | some (name, value) =>
          match Switch.find? (String.ofList name) with
          | some s => .ok (.switch s (String.ofList name) (some (String.ofList value)))
          | none => guess word
  | _ => .ok (.plain word)

/-- Behind two dashes alone all words are plain. -/
def classifyAll : List String → Except UsageError (List Word)
  | [] => .ok []
  | word :: rest =>
    if word = "--" then .ok (.separator :: rest.map Word.plain)
    else do
      let first ← classify word
      let others ← classifyAll rest
      return first :: others

/-- Switches run together in one word: those without a value, and at the end perhaps one that takes
a value, which may stand in the same word. -/
structure Bundle where
  flags : List Switch
  valued : Option (Switch × Option String) := none
  deriving DecidableEq, Repr

def Bundle.single (s : Switch) : Bundle :=
  if s.takesValue then { flags := [], valued := some (s, none) } else { flags := [s] }

def unbundle (s : Switch) (short : Bool) (value : List Char) : Except UsageError Bundle :=
  if s.takesValue then .ok { flags := [], valued := some (s, some (String.ofList value)) }
  else match value with
    | [] => .error (.unusedValue s "")
    | c :: more =>
      match short, Switch.find? (String.ofList ['-', c]) with
      | true, some next =>
        if more.isEmpty then
          .ok { Bundle.single next with flags := s :: (Bundle.single next).flags }
        else
          (unbundle next true more).map fun b => { b with flags := s :: b.flags }
      | _, _ => .error (.unusedValue s (String.ofList value))

def integer (s : Switch) (text : String) : Except UsageError Int :=
  match Numeral.integer? text with
  | .ok n => .ok n
  | .error _ => .error (.notInteger s text)

def decimal (s : Switch) (text : String) : Except UsageError Binary64 :=
  match Numeral.decimal? text with
  | .ok x => .ok x
  | .error _ => .error (.notDecimal s text)

def choice (choices : List String) (s : Switch) (text : String) : Except UsageError String :=
  if choices.contains text then .ok text else .error (.notAChoice s text choices)

/-- The value of a switch as a reader takes it. The mark that ends the switches is no value even
where it stands in the same word as its switch, which is then given nothing. -/
def given {α : Type} (read : Switch → String → Except UsageError α) (s : Switch) (text : String) :
    Except UsageError (Given α) :=
  if text = Word.separator.name then .ok .nothing else (read s text).map .value

def text : Switch → String → Except UsageError (Given String) := given fun _ t => .ok t

/-- Gives a switch its value; of two values the later one counts. -/
def assign (a : Arguments) (s : Switch) (t : String) : Except UsageError Arguments := do
  match s with
  | .source => return { a with source := some (← text s t) }
  | .oplog => return { a with oplog := some (← text s t) }
  | .lookback => return { a with lookback := some (← given integer s t) }
  | .idleWait => return { a with idleWait := some (← given decimal s t) }
  | .host => return { a with host := some (← text s t) }
  | .port => return { a with port := some (← given integer s t) }
  | .username => return { a with username := some (← text s t) }
  | .password => return { a with password := some (← text s t) }
  | .authDatabase => return { a with authDatabase := some (← text s t) }
  | .batchSize => return { a with batchSize := some (← given integer s t) }
  | .flushInterval => return { a with flushInterval := some (← given decimal s t) }
  | .logFormat => return { a with logFormat := some (← given (choice logFormats) s t) }
  | .help | .version | .verbose | .quiet => return a

def raise (a : Arguments) : List Switch → Except Stop Arguments
  | [] => .ok a
  | .help :: _ => .error .help
  | .version :: _ => .error .version
  | .verbose :: rest => raise { a with verbose := a.verbose + 1 } rest
  | .quiet :: rest => raise { a with quiet := true } rest
  | _ :: rest => raise a rest

def applyBundle (a : Arguments) (flags : List Switch) (valued : Option (Switch × String)) :
    Except Stop Arguments := do
  let raised ← raise a flags
  match valued with
  | none => return raised
  | some (s, text) =>
    match assign raised s text with
    | .ok assigned => return assigned
    | .error e => .error (.usage e)

def bundle (s : Switch) (name : String) (value : Option String) : Except Stop Bundle :=
  match value with
  | none => .ok (Bundle.single s)
  | some text =>
    match unbundle s (!Switch.isLong name) text.toList with
    | .ok b => .ok b
    | .error e => .error (.usage e)

def consume (a : Arguments) : List Word → Except Stop (Arguments × List String)
  | [] => .ok (a, [])
  | .switch s name value :: rest =>
    match bundle s name value with
    | .error stop => .error stop
    | .ok ⟨flags, none⟩ =>
      match applyBundle a flags none with
      | .error stop => .error stop
      | .ok used => consume used rest
    | .ok ⟨flags, some (last, some text)⟩ =>
      match applyBundle a flags (some (last, text)) with
      | .error stop => .error stop
      | .ok used => consume used rest
    | .ok ⟨flags, some (last, none)⟩ =>
      match rest with
      | .plain text :: more =>
        match applyBundle a flags (some (last, text)) with
        | .error stop => .error stop
        | .ok used => consume used more
      | _ => .error (.usage (.missingValue last))
  | word :: rest =>
    match consume a rest with
    | .error stop => .error stop
    | .ok (used, left) => .ok (used, word.name :: left)

/-- Words that are left over are told of only when all others are in order. -/
def parse (words : List String) : Except Stop Arguments :=
  match classifyAll words with
  | .error e => .error (.usage e)
  | .ok classified =>
    match consume {} classified with
    | .error stop => .error stop
    | .ok (a, []) => .ok a
    | .ok (_, left) => .error (.usage (.unrecognized left))

end OplogRelay.CommandLine
