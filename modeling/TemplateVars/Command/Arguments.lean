/-
The arguments of the command line.

* `Request.ofArguments?` says what the arguments ask for.

Design notes: options may come before the subcommand or after it, and among its
words; `--` ends them.  Each level knows its own options; those of both levels
are looked up in the subcommand first.  An option is given at most once a level,
except for `-v`.  Arguments are read in order, so a request for help or for the
version stands if nothing wrong comes before it.  Two requests are left out, and
count as arguments that are not accepted: a report that is written anew whenever
its template changes (`--watch`), as it never ends, and the subcommand `help`.
-/
import TemplateVars.Config.Basic

namespace TemplateVars

namespace Arguments

inductive Flag where
  | config | verbose | help | version | format | output | recursive
  deriving DecidableEq, Repr

namespace Flag

def letter : Flag → Char
  | config => 'c'
  | verbose => 'v'
  | help => 'h'
  | version => 'V'
  | format => 'f'
  | output => 'o'
  | recursive => 'r'

def name : Flag → String
  | config => "config"
  | verbose => "verbose"
  | help => "help"
  | version => "version"
  | format => "format"
  | output => "output"
  | recursive => "recursive"

def takesValue : Flag → Bool
  | config => true
  | format => true
  | output => true
  | _ => false

/-- Whether an option settles what is asked for. -/
def ends : Flag → Bool
  | help => true
  | version => true
  | _ => false

/-- Whether an option may be given several times. -/
def repeats : Flag → Bool
  | verbose => true
  | _ => false

end Flag

/-- The subcommands. -/
inductive Verb where
  | vars | report | check
  deriving DecidableEq, Repr

def Verb.ofName? : String → Option Verb
  | "vars" => some vars
  | "report" => some report
  | "check" => some check
  | _ => none

/-- The options of a level: of the program, or of a subcommand. -/
def flags : Option Verb → List Flag
  | none => [.config, .verbose, .help, .version]
  | some .vars => [.config, .verbose, .help, .format]
  | some .report => [.config, .verbose, .help, .format, .output]
  | some .check => [.config, .verbose, .help, .recursive]

/-- An option as it was given; a flag has no value. -/
structure Setting where
  flag : Flag
  value : String := ""
  deriving DecidableEq, Repr

/-- What one argument is. -/
inductive Word where
  /-- `--`, after which there are no options. -/
  | escape
  /-- Options, the last of which may still need a value. -/
  | options (settings : List Setting) (pending : Option Flag)
  | plain

/-- Options in a cluster of letters; the value of the last one may follow its
letter, perhaps after a sign. -/
def cluster? (known : List Flag) : List Char → Option (List Setting × Option Flag)
  | [] => some ([], none)
  | c :: rest =>
    match known.find? (·.letter = c) with
    | none => none
    | some flag =>
      if flag.ends then some ([⟨flag, ""⟩], none)
      else if flag.takesValue then
        match rest with
        | [] => some ([], some flag)
        | '=' :: value => some ([⟨flag, String.ofList value⟩], none)
        | value => some ([⟨flag, String.ofList value⟩], none)
      else (cluster? known rest).map fun (settings, pending) => (⟨flag, ""⟩ :: settings, pending)

/-- An option by its name; a value may follow a sign. -/
def named? (known : List Flag) (s : List Char) : Option (List Setting × Option Flag) :=
  let name := s.takeWhile (· != '=')
  match known.find? (·.name.toList = name), s.drop name.length with
  | none, _ => none
  | some flag, [] => if flag.takesValue then some ([], some flag) else some ([⟨flag, ""⟩], none)
  | some flag, _ :: value =>
    if flag.takesValue then some ([⟨flag, String.ofList value⟩], none) else none

/-- What an argument is, unless it is an option that is not known. -/
def word? (known : List Flag) (argument : String) : Option Word :=
  match argument.toList with
  | ['-', '-'] => some .escape
  | '-' :: '-' :: s =>
    (named? known s).map fun (settings, pending) => .options settings pending
  | '-' :: c :: s =>
    (cluster? known (c :: s)).map fun (settings, pending) => .options settings pending
  | _ => some .plain

/-- Whether an argument may be the value of an option before it. -/
def isValue (argument : String) : Bool := !argument.startsWith "-" || argument = "-"

/-- The arguments of a level so far. -/
structure Reading where
  settings : List Setting := []
  /-- Words that are no options. -/
  words : List String := []
  /-- The arguments from the subcommand on. -/
  rest : List String := []

namespace Reading

def has (r : Reading) (flag : Flag) : Bool := r.settings.any (·.flag = flag)

/-- Whether what is asked for is settled. -/
def isSettled (r : Reading) : Bool := r.settings.any (·.flag.ends)

/-- The value of an option. -/
def value? (r : Reading) (flag : Flag) : Option String :=
  (r.settings.find? (·.flag = flag)).map (·.value)

/-- Takes note of an option, unless it has been given before. -/
def add? (r : Reading) (s : Setting) : Option Reading :=
  if r.has s.flag ∧ !s.flag.repeats then none
  else some { r with settings := r.settings ++ [s] }

def addAll? (r : Reading) (settings : List Setting) : Option Reading :=
  settings.foldlM add? r

end Reading

/-- Reads the arguments of a level until what is asked for is settled; the level
of the program ends at its first word. -/
def read? (level : Option Verb) : Reading → List String → Option Reading
  | r, [] => some r
  | r, argument :: rest =>
    match word? (flags level) argument with
    | none => none
    | some .escape => some { r with words := r.words ++ rest }
    | some .plain =>
      match level with
      | none => some { r with rest := argument :: rest }
      | some _ => read? level { r with words := r.words ++ [argument] } rest
    | some (.options settings pending) =>
      match r.addAll? settings, pending, rest with
      | none, _, _ => none
      | some r, none, rest => if r.isSettled then some r else read? level r rest
      | some _, some _, [] => none
      | some r, some flag, value :: rest =>
        if isValue value then
          match r.add? ⟨flag, value⟩ with
          | none => none
          | some r => read? level r rest
        else none

end Arguments

open Arguments

/-- A subcommand with its arguments. -/
inductive Command where
  /-- The free variables of one expression. -/
  | vars (expression : String) (form : Option OutputForm)
  /-- The report on a template, printed or written to a file. -/
  | report (template : String) (form : Option OutputForm) (target : Option String)
  /-- Whether a template, or each one below a directory, is in order. -/
  | check (input : String) (recursive : Bool)
  deriving DecidableEq, Repr

/-- A run of the program. -/
structure Invocation where
  /-- The path of the configuration file. -/
  config : Option String := none
  command : Option Command := none
  deriving DecidableEq, Repr

/-- What the arguments ask for. -/
inductive Request where
  | help
  | version
  | run (invocation : Invocation)
  deriving DecidableEq, Repr

namespace Arguments

/-- The form that an option asks for. -/
def form? (r : Reading) : Option (Option OutputForm) :=
  match r.value? .format with
  | none => some none
  | some name => (OutputForm.ofName? name).map some

/-- The subcommand that the arguments of its level make. -/
def command? (verb : Verb) (r : Reading) : Option Command :=
  match r.words, form? r with
  | [word], some form =>
    match verb with
    | .vars => some (.vars word form)
    | .report => some (.report word form (r.value? .output))
    | .check => some (.check word (r.has .recursive))
  | _, _ => none

/-- What the arguments from the subcommand on ask for, after a path of a
configuration file or none. -/
def request? (config : Option String) : List String → Option Request
  | [] => some (.run { config })
  | name :: rest =>
    match Verb.ofName? name with
    | none => none
    | some verb =>
      match read? (some verb) {} rest with
      | none => none
      | some r =>
        if r.has .help then some .help
        else (command? verb r).map fun command =>
          .run { config := (r.value? .config).or config, command }

end Arguments

/-- What arguments ask for, unless they are not accepted. -/
def Request.ofArguments? (arguments : List String) : Option Request :=
  match read? none {} arguments with
  | none => none
  | some r =>
    if r.has .help then some .help
    else if r.has .version then some .version
    else if r.words = [] then request? (r.value? .config) r.rest
    else none

end TemplateVars
