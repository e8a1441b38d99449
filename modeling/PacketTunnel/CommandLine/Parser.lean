import PacketTunnel.Text.Blank
import PacketTunnel.CommandLine.Basic

/-!
# Reading a command line

Words are read from left to right. `--name` and `-x` name options; letters may share a dash. A value
is the next word, unless that begins with a dash; or it stands behind an equals sign, or directly
behind a letter. The first fault counts, and so does a request for help before any fault. What
options say together is checked at the end.
-/
namespace PacketTunnel

open Text

/-- A word by its form. -/
inductive CommandWord where
  | operand
  /-- Two dashes alone: only operands follow. -/
  | separator
  | long (name : String) (value : Option String)
  | letters (letters : List Char)
deriving DecidableEq, Repr

namespace CommandWord

/-- The form of a word. A dash alone is an operand. -/
def ofText (text : String) : CommandWord :=
  match text.toList with
  | ['-', '-'] => separator
  | '-' :: '-' :: rest =>
    match splitFirst? '=' rest with
    | some (name, value) => long (String.ofList name) (some (String.ofList value))
    | none => long (String.ofList rest) none
  | '-' :: c :: rest => letters (c :: rest)
  | _ => operand

end CommandWord

/-- What has been read after a word, or a part of one. -/
inductive CommandReading where
  | done (command : Command)
  /-- The arguments so far, and the option whose value is the next word. -/
  | more (arguments : Arguments) (awaiting : Option OptionForm)

namespace OptionForm

def note (form : OptionForm) (a : Arguments) : Except UsageFault Arguments :=
  if form.long ∈ a.given ∧ form.repeatable = false then .error (.repeated form.long)
  else .ok { a with given := a.given ++ [form.long] }

def give (form : OptionForm) (value : String) (a : Arguments) : Except UsageFault Arguments :=
  match form.effect with
  | .text set => (form.note a).map (set value)
  | .path set => if value.isEmpty then .error (.missingValue form.long)
      else (form.note a).map (set value)
  | .number bound set =>
    match unsigned? bound value.toList with
    | some n => (form.note a).map (set n)
    | none => .error (.badValue form.long value)
  | _ => .error (.unexpectedValue form.long)

/-- Read an option without a value beside it. -/
def meet (form : OptionForm) (scope : CommandScope) (a : Arguments) :
    Except UsageFault CommandReading :=
  match form.effect with
  | .help => .ok (.done (.help scope))
  | .version => .ok (.done .version)
  | .flag set => (form.note a).map fun a => .more (set a) none
  | _ => .ok (.more a (some form))

def meetValue (form : OptionForm) (value : String) (a : Arguments) :
    Except UsageFault CommandReading :=
  (form.give value a).map (.more · none)

end OptionForm

namespace CommandScope

/-- Read letters behind a dash. A letter that takes a value takes what follows it, without an equals
sign. -/
def readLetters (scope : CommandScope) (a : Arguments) :
    List Char → Except UsageFault CommandReading
  | [] => .ok (.more a none)
  | c :: rest =>
    match scope.letter? c with
    | none => .error (.unknownOption (String.ofList ['-', c]))
    | some form =>
      match form.meet scope a with
      | .ok (.more a none) => scope.readLetters a rest
      | .ok (.more a (some form)) =>
        match rest with
        | [] => .ok (.more a (some form))
        | '=' :: value => form.meetValue (String.ofList value) a
        | value => form.meetValue (String.ofList value) a
      | other => other

def readLong (scope : CommandScope) (a : Arguments) (name : String) (value : Option String) :
    Except UsageFault CommandReading :=
  match scope.long? name with
  | none => .error (.unknownOption ("--" ++ name))
  | some form =>
    match value with
    | some value => form.meetValue value a
    | none => form.meet scope a

def finish (scope : CommandScope) (a : Arguments) : Except UsageFault Command :=
  match scope with
  | tunnel =>
    if a.settings.encryptionKey.isSome && a.settings.noEncryption then
      .error (.conflict "no-encryption" "encryption-key")
    else .ok (.tunnel a.file a.settings a.detach)
  | status =>
    match a.settings.statusFile with
    | some path => .ok (.status path a.json)
    | none => .error (.missingOption "status-file")

/-- A request for help by a word: on the whole, or on one command. -/
def readHelp : List String → Except UsageFault Command
  | [] => .ok (.help tunnel)
  | ["status"] => .ok (.help status)
  | ["help"] => .ok (.help tunnel)
  | word :: rest =>
    if word = "status" ∨ word = "help" then .error (.unexpectedArgument (rest.headD word))
    else .error (.unexpectedArgument word)

/-- Read the words of a scope. The name of a command counts only before every option. -/
def readWords (scope : CommandScope) (a : Arguments) (awaiting : Option OptionForm) :
    List String → Except UsageFault (Arguments × Command)
  | [] =>
    match awaiting with
    | some form => .error (.missingValue form.long)
    | none => (scope.finish a).map (a, ·)
  | word :: rest =>
    match awaiting with
    | some form =>
      if CommandWord.ofText word = .operand then do
        let a ← form.give word a
        scope.readWords a none rest
      else .error (.missingValue form.long)
    | none =>
      let next : Except UsageFault CommandReading → Except UsageFault (Arguments × Command)
        | .error fault => .error fault
        | .ok (.done command) => .ok (a, command)
        | .ok (.more a awaiting) => scope.readWords a awaiting rest
      match CommandWord.ofText word with
      | .separator =>
        match rest with
        | [] => (scope.finish a).map (a, ·)
        | word :: _ => .error (.unexpectedArgument word)
      | .long name value => next (scope.readLong a name value)
      | .letters letters => next (scope.readLetters a letters)
      | .operand =>
        if scope = tunnel ∧ a.given = [] ∧ word = "status" then readWords status a none rest
        else if scope = tunnel ∧ a.given = [] ∧ word = "help" then (readHelp rest).map (a, ·)
        else .error (.unexpectedArgument word)

end CommandScope

namespace Command

def parse (words : List String) : Except UsageFault (Arguments × Command) :=
  CommandScope.tunnel.readWords .empty none words

end Command

end PacketTunnel
