import ArtifactResolver.Coordinate
import ArtifactResolver.Policy
import ArtifactResolver.Report
import ArtifactResolver.Selector
import ArtifactResolver.Word

/-!
# Command line arguments

Reading the words of a command line. Options of the program come first, then the name of a command,
then the options and the operands of the command. The values of an option are checked when the next
argument is recognised, or at the end of the words, so that of two faults the one that is met first
in this sense is reported.
-/

namespace ArtifactResolver.CommandLine

/-- Why words are not carried out. -/
inductive UsageError where
  /-- The user asks for help, on the program or on the command of the given name. -/
  | displayHelp (topic : Option String)
  /-- The user asks for the version of the program. -/
  | displayVersion
  /-- There are no words at all. -/
  | nothingGiven
  /-- There is no command. -/
  | missingSubcommand
  /-- A word in the place of a command is not the name of one. -/
  | invalidSubcommand
  /-- A word is no option, or there is no place for it. -/
  | unknownArgument
  /-- A command lacks an operand. -/
  | missingRequiredArgument
  /-- An option lacks its value, or the value is empty where it must not be. -/
  | invalidValue
  /-- A value cannot be read. -/
  | valueValidation
  /-- An option is given twice. -/
  | argumentConflict
  /-- A flag is given a value. -/
  | tooManyValues
deriving DecidableEq, Repr

/-- The status with which the program ends. -/
def UsageError.exitStatus : UsageError → Nat
  | displayHelp _ => 0
  | displayVersion => 0
  | _ => 2

/-- The wording of an error. -/
def UsageError.message : UsageError → String
  | displayHelp _ => "help was asked for"
  | displayVersion => "the version was asked for"
  | nothingGiven => "no command was given"
  | missingSubcommand => "a command is required"
  | invalidSubcommand => "there is no such command"
  | unknownArgument => "unexpected argument"
  | missingRequiredArgument => "a required argument was not given"
  | invalidValue => "a value is required"
  | valueValidation => "a value cannot be read"
  | argumentConflict => "an option was given twice"
  | tooManyValues => "a flag was given a value"

/-- The arguments of the program and of its commands. -/
inductive Argument where
  /-- The directory of the project. -/
  | root
  /-- The list of repositories. -/
  | repositoriesFile
  /-- The directory of the cache. -/
  | cacheDirectory
  /-- Whether to use the cache only. -/
  | offline
  /-- Whether to count every entry as stale. -/
  | refresh
  /-- The configuration whose artifacts are wanted. -/
  | configuration
  /-- Whether sources are wanted. -/
  | sources
  /-- Whether documentation is wanted. -/
  | documentation
  /-- Whether artifacts are to be downloaded. -/
  | download
  /-- The number of workers. -/
  | jobs
  /-- The modules to resolve. -/
  | selectors
  /-- The module whose versions are wanted. -/
  | selector
  /-- Help. -/
  | help
  /-- The version of the program. -/
  | version
deriving DecidableEq, Repr

/-- What kinds of values an argument takes. -/
inductive Kind where
  /-- None at all. -/
  | flag
  /-- A path, which is not empty. -/
  | path
  /-- Any text. -/
  | text
  /-- A number. -/
  | number
  /-- A selector. -/
  | selector
deriving DecidableEq, Repr

/-- What kind of value an argument takes. -/
def Argument.kind : Argument → Kind
  | root => .path
  | repositoriesFile => .path
  | cacheDirectory => .path
  | configuration => .text
  | jobs => .number
  | selectors => .selector
  | selector => .selector
  | _ => .flag

/-- Reads a number that fits into a word; it may have a plus sign. -/
def number? (text : String) : Option Nat := do
  let digits := match text.toList with
    | '+' :: rest => rest
    | cs => cs
  Word.unsigned? (← Text.decimal? digits)

/-- Checks a value. -/
def Kind.check (value : String) : Kind → Except UsageError Unit
  | flag => .ok ()
  | text => .ok ()
  | path => if value.isEmpty then .error .invalidValue else .ok ()
  | number => if (number? value).isSome then .ok () else .error .valueValidation
  | selector => if (Selector.parse value).isOk then .ok () else .error .valueValidation

/-- An option by its names. -/
structure Named where
  /-- The name after two dashes. -/
  long : String
  /-- The letter after one dash, if it has one. -/
  short : Option Char
  /-- What it stands for. -/
  argument : Argument

/-- The words that are accepted in one place: before the command, or after it. -/
structure Grammar where
  /-- The options. -/
  options : List Named
  /-- The operand, if there is one. -/
  operand : Option Argument := none
  /-- The names of commands. -/
  commands : List String := []

/-- The names of the commands. -/
def commandNames : List String := ["resolve", "versions", "clear-cache"]

/-- The words before the command. -/
def programGrammar : Grammar where
  options := [⟨"root", some 'r', .root⟩, ⟨"repositories-file", none, .repositoriesFile⟩,
    ⟨"cache-directory", some 'c', .cacheDirectory⟩, ⟨"offline", none, .offline⟩,
    ⟨"refresh-dependencies", none, .refresh⟩, ⟨"help", some 'h', .help⟩,
    ⟨"version", some 'V', .version⟩]
  commands := commandNames

/-- The words after the command `resolve`. -/
def resolveGrammar : Grammar where
  options := [⟨"configuration", none, .configuration⟩, ⟨"sources", none, .sources⟩,
    ⟨"javadoc", none, .documentation⟩, ⟨"download", some 'd', .download⟩, ⟨"jobs", some 'j', .jobs⟩,
    ⟨"help", some 'h', .help⟩]
  operand := some .selectors

/-- The words after the command `versions`. -/
def versionsGrammar : Grammar where
  options := [⟨"help", some 'h', .help⟩]
  operand := some .selector

/-- The words after the command `clear-cache`. -/
def clearGrammar : Grammar where
  options := [⟨"help", some 'h', .help⟩]

/-- The words after a command. -/
def grammarOf (command : String) : Grammar :=
  if command = "resolve" then resolveGrammar
  else if command = "versions" then versionsGrammar
  else clearGrammar

/-- What has been read so far. -/
structure Reading where
  /-- The arguments whose values have been checked, the latest first. -/
  given : List (Argument × List String) := []
  /-- The argument whose values are yet to be checked. -/
  pending : Option (Argument × List String) := none

namespace Reading

/-- Checks the values of an argument and takes it as given. An argument other than the operands of
`resolve` can be given once only. -/
def take (r : Reading) (a : Argument) (values : List String) : Except UsageError Reading := do
  if a.kind ≠ .flag && values.isEmpty then throw .invalidValue
  else if a = .help then throw (.displayHelp none)
  else if a = .version then throw .displayVersion
  else if a ≠ .selectors && r.given.any (·.1 = a) then throw .argumentConflict
  else
    values.forM fun value => a.kind.check value
    return { r with given := (a, values) :: r.given }

/-- Takes the pending argument. -/
def settle (r : Reading) : Except UsageError Reading :=
  match r.pending with
  | none => .ok r
  | some (a, values) => ({ r with pending := none } : Reading).take a values

/-- Takes an argument after the pending one. -/
def takeNext (r : Reading) (a : Argument) (values : List String) : Except UsageError Reading := do
  (← r.settle).take a values

/-- Takes the pending argument and puts another in its place. -/
def await (r : Reading) (a : Argument) (values : List String) : Except UsageError Reading := do
  return { ← r.settle with pending := some (a, values) }

/-- The option that waits for its value. -/
def waiting? (r : Reading) : Option Argument :=
  match r.pending with
  | some (a, []) => some a
  | _ => none

/-- Adds an operand. The operands of `resolve` gather until another argument comes. -/
def addOperand (r : Reading) (a : Argument) (value : String) : Except UsageError Reading :=
  match r.pending with
  | some (b, values) =>
    if b = a && a = .selectors then .ok { r with pending := some (a, values ++ [value]) }
    else r.await a [value]
  | none => r.await a [value]

/-- The values of an argument, in the order in which they were given. -/
def values (r : Reading) (a : Argument) : List String :=
  r.given.reverse.flatMap fun entry => if entry.1 = a then entry.2 else []

/-- Whether an argument was given. -/
def has (r : Reading) (a : Argument) : Bool := r.given.any (·.1 = a)

/-- The value of an argument, if it was given. -/
def value? (r : Reading) (a : Argument) : Option String := (r.values a).head?

end Reading

/-- Reads a word that starts with two dashes. -/
def readLong (g : Grammar) (r : Reading) (body : List Char) : Except UsageError Reading :=
  let name := String.ofList (body.takeWhile (· != '='))
  let attached := match body.dropWhile (· != '=') with
    | [] => none
    | _ :: value => some (String.ofList value)
  match g.options.find? (·.long = name), attached with
  | none, _ => .error .unknownArgument
  | some o, none =>
    if o.argument.kind = .flag then r.takeNext o.argument [] else r.await o.argument []
  | some o, some value =>
    if o.argument.kind = .flag then .error .tooManyValues else r.takeNext o.argument [value]

/-- Reads the letters of a word that starts with one dash. The first letter of an option with a
value has the rest of the word as its value, which an equals sign may precede. -/
def readShort (g : Grammar) (r : Reading) : List Char → Except UsageError Reading
  | [] => .ok r
  | c :: rest =>
    match g.options.find? (·.short = some c) with
    | none => .error .unknownArgument
    | some o =>
      if o.argument.kind = .flag then do readShort g (← r.takeNext o.argument []) rest
      else match rest with
      | [] => r.await o.argument []
      | '=' :: value => r.takeNext o.argument [String.ofList value]
      | value => r.takeNext o.argument [String.ofList value]

/-- The error for a word for which there is no place. After two dashes even the name of a command
has none. -/
def misplaced (g : Grammar) (onlyOperands : Bool) (word : String) : UsageError :=
  if g.commands.isEmpty || (onlyOperands && (word ∈ g.commands || word = "help")) then
    .unknownArgument
  else .invalidSubcommand

/-- Reads a word as an operand. -/
def readOperand (g : Grammar) (onlyOperands : Bool) (r : Reading) (word : String) :
    Except UsageError Reading :=
  match g.operand with
  | none => .error (misplaced g onlyOperands word)
  | some a =>
    if a ≠ .selectors && (r.has a || r.pending.any (·.1 = a)) then .error .unknownArgument
    else r.addOperand a word

/-- Reads a word that does not name a command. -/
def readWord (g : Grammar) (r : Reading) (word : String) : Except UsageError Reading :=
  match word.toList, r.waiting? with
  | '-' :: '-' :: body, _ => readLong g r body
  | '-' :: c :: body, _ => readShort g r (c :: body)
  | _, some a => .ok { r with pending := some (a, [word]) }
  | _, none => readOperand g false r word

/-- The end of the words that help is asked for. -/
def readHelp (words : List String) : UsageError :=
  match words with
  | [] => .displayHelp none
  | [word] =>
    if word ∈ commandNames || word = "help" then .displayHelp (some word) else .invalidSubcommand
  | _ => .invalidSubcommand

/-- Reads words up to the name of a command. The result has the name and the words after it, if
there is one; the pending argument is not yet taken. -/
def readWords (g : Grammar) (onlyOperands : Bool) (r : Reading) :
    List String → Except UsageError (Reading × Option (String × List String))
  | [] => .ok (r, none)
  | word :: rest =>
    if onlyOperands then do readWords g true (← readOperand g true r word) rest
    else if r.waiting?.isNone && word ∈ g.commands then .ok (r, some (word, rest))
    else if r.waiting?.isNone && word = "help" && !g.commands.isEmpty then .error (readHelp rest)
    else if word = "--" then readWords g true r rest
    else do readWords g false (← readWord g r word) rest

/-- What the program is asked to do. -/
inductive Command where
  /-- To resolve modules. -/
  | resolve (selectors : List Selector) (request : ModuleRequest) (jobs : Option Nat)
  /-- To list the versions of a module. -/
  | versions (selector : Selector)
  /-- To remove all entries of the cache. -/
  | clearCache
deriving DecidableEq, Repr

/-- The words of a command line, understood. -/
structure Arguments where
  /-- The directory of the project, if given. -/
  root : Option String
  /-- The list of repositories. -/
  repositoriesFile : String
  /-- The directory of the cache, if given. -/
  cacheDirectory : Option String
  /-- Whether to use the cache only. -/
  offline : Bool
  /-- Whether to count every entry as stale. -/
  refresh : Bool
  /-- What to do. -/
  command : Command
deriving DecidableEq, Repr

/-- The selectors of an argument, all of which have been checked. -/
def selectorsOf (r : Reading) (a : Argument) : List Selector :=
  (r.values a).filterMap fun value => (Selector.parse value).toOption

/-- The command of a name, from what was read after it. -/
def commandOf (name : String) (r : Reading) : Except UsageError Command :=
  if name = "resolve" then
    match selectorsOf r .selectors with
    | [] => .error .missingRequiredArgument
    | selectors =>
      .ok (.resolve selectors
        ⟨(r.value? .configuration).getD "default", r.has .sources, r.has .documentation,
          r.has .download⟩ ((r.value? .jobs).bind number?))
  else if name = "versions" then
    match selectorsOf r .selector with
    | [] => .error .missingRequiredArgument
    | s :: _ => .ok (.versions s)
  else .ok .clearCache

/-- The error as it is met among the words of a command: help is on that command. -/
def UsageError.within (command : String) : UsageError → UsageError
  | displayHelp _ => displayHelp (some command)
  | e => e

/-- Reads the words of a command. -/
def readCommand (name : String) (words : List String) : Except UsageError Command :=
  (do
    let (r, _) ← readWords (grammarOf name) false {} words
    commandOf name (← r.settle)).mapError (UsageError.within name)

/-- Reads the words of a command line. -/
def parse (words : List String) : Except UsageError Arguments := do
  let (r, command) ← readWords programGrammar false {} words
  match command with
  | none =>
    let r ← r.settle
    throw (if r.given.isEmpty then .nothingGiven else .missingSubcommand)
  | some (name, rest) =>
    let command ← readCommand name rest
    let r ← r.settle
    return ⟨r.value? .root, (r.value? .repositoriesFile).getD "artifetch.toml",
      r.value? .cacheDirectory, r.has .offline, r.has .refresh, command⟩

end ArtifactResolver.CommandLine
