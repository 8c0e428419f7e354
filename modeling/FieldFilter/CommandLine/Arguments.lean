/-!
# Command line arguments

* `Command`, `Limits`, `Invocation` — what the program is asked to do;
* `Invocation.ofArguments?` — the invocation that arguments spell, if they spell one.

An argument that starts with a dash is an option until a lone double dash has come.  Every command
takes the options that set limits, before or after its name; given in both places, the one after the
name counts.  No option may come twice in one place.
-/

namespace FieldFilter

/-! ## Invocations -/

/-- What the program is asked to do.  A query that is not given is read from standard input. -/
inductive Command where
  | parse (query : Option String) (pretty : Bool)
  | tokens (query : Option String)
  | check (queries : List String)
  | complete (query : String) (cursor : Option Nat)
  | interactive
  deriving DecidableEq, Repr

/-- The bounds that untrusted queries are held to: bytes, and nested parentheses. -/
structure Limits where
  length : Nat := 64 * 1024
  depth : Nat := 128
  deriving DecidableEq, Repr

/-- A command and the bounds it keeps. -/
structure Invocation where
  limits : Limits
  command : Command
  deriving DecidableEq, Repr

/-! ## Options -/

/-- The options of the command line. -/
inductive Flag where
  | verbose
  | maxLength
  | maxDepth
  | pretty
  | cursor
  deriving DecidableEq, Repr

namespace Flag

/-- The name of an option after two dashes. -/
def long : Flag → String
  | .verbose => "verbose"
  | .maxLength => "max-len"
  | .maxDepth => "max-depth"
  | .pretty => "pretty"
  | .cursor => "cursor"

/-- The letter of an option after one dash. -/
def short? : Flag → Option Char
  | .verbose => some 'v'
  | .pretty => some 'p'
  | .cursor => some 'c'
  | .maxLength | .maxDepth => none

/-- Whether an option carries a number. -/
def takesValue : Flag → Bool
  | .maxLength | .maxDepth | .cursor => true
  | .verbose | .pretty => false

/-- The options that every command takes. -/
def everywhere : List Flag :=
  [.verbose, .maxLength, .maxDepth]

end Flag

/-- An option as it was given, with its number if it carries one. -/
structure Setting where
  flag : Flag
  value : Option Nat := none
  deriving DecidableEq, Repr

namespace Setting

/-- The number that an option's value spells: decimal digits, perhaps after a plus sign, that fit
64 bits. -/
def number? (text : List Char) : Option Nat :=
  let digits := if text.head? = some '+' then text.tail else text
  if !digits.isEmpty && digits.all Char.isDigit then
    let value := Nat.ofDigitChars 10 digits 0
    if value < UInt64.size then some value else none
  else
    none

/-- The setting of an option with an attached value. -/
def attached? (flag : Flag) (value : List Char) : Option Setting := do
  return ⟨flag, some (← number? value)⟩

/-- The setting of an option whose value is the next argument, and the arguments after it.  A value
does not start with a dash. -/
def detached? (flag : Flag) : List String → Option (List Setting × List String)
  | [] => none
  | value :: rest =>
    if value.toList.head? = some '-' then none
    else do return ([← attached? flag value.toList], rest)

/-- The settings of an option given by its long name, and the arguments after it. -/
def long? (allowed : List Flag) (text : List Char) (rest : List String) :
    Option (List Setting × List String) := do
  let name := text.takeWhile (· != '=')
  let flag ← allowed.find? fun flag => flag.long.toList = name
  match flag.takesValue, text.drop name.length with
  | false, [] => some ([⟨flag, none⟩], rest)
  | false, _ => none
  | true, [] => detached? flag rest
  | true, _ :: value => do return ([← attached? flag value], rest)

/-- The settings of a cluster of letters, and the arguments after it.  A letter whose option carries
a number ends the cluster. -/
def cluster? (allowed : List Flag) (rest : List String) :
    List Char → Option (List Setting × List String)
  | [] => some ([], rest)
  | letter :: letters => do
    let flag ← allowed.find? fun flag => flag.short? = some letter
    -- a number takes the rest of the cluster, or else the next argument
    if flag.takesValue then
      match letters with
      | [] => detached? flag rest
      | '=' :: value => return ([← attached? flag value], rest)
      | value => return ([← attached? flag value], rest)
    else
      let (settings, rest) ← cluster? allowed rest letters
      return (⟨flag, none⟩ :: settings, rest)

/-- Whether no option comes twice. -/
def distinct (settings : List Setting) : Bool :=
  match settings with
  | [] => true
  | setting :: rest => !(rest.any fun other => other.flag = setting.flag) && distinct rest

/-- The number that an option was given, the last if there are several. -/
def valueOf? (flag : Flag) (settings : List Setting) : Option Nat :=
  ((settings.filter fun setting => setting.flag = flag).getLast?).bind Setting.value

end Setting

/-! ## Arguments -/

/-- What an argument is. -/
inductive ArgumentShape where
  /-- a lone double dash: everything after it is an operand -/
  | escape
  /-- an option by its long name -/
  | long (text : List Char)
  /-- a cluster of letters -/
  | cluster (letters : List Char)
  /-- an operand -/
  | operand
  deriving DecidableEq, Repr

/-- What an argument is, by the dashes it starts with. -/
def ArgumentShape.of (argument : String) : ArgumentShape :=
  match argument.toList with
  | ['-', '-'] => .escape
  | '-' :: '-' :: text => .long text
  | ['-'] => .operand
  | '-' :: letters => .cluster letters
  | _ => .operand

/-- The settings and operands among arguments. -/
structure Gathered where
  settings : List Setting := []
  operands : List String := []
  deriving DecidableEq, Repr

namespace Gathered

/-- The settings and operands among the arguments after a command's name.  Every step takes an
argument, so `steps` may be their number. -/
def read? (allowed : List Flag) : Nat → List String → Option Gathered
  | _, [] => some {}
  | 0, _ => none
  | steps + 1, argument :: rest =>
    let options (read : Option (List Setting × List String)) : Option Gathered := do
      let (settings, rest) ← read
      let gathered ← read? allowed steps rest
      return { gathered with settings := settings ++ gathered.settings }
    match ArgumentShape.of argument with
    -- from here on dashes mean nothing
    | .escape => some { operands := rest }
    | .long text => options (Setting.long? allowed text rest)
    | .cluster letters => options (Setting.cluster? allowed rest letters)
    | .operand => do
      let gathered ← read? allowed steps rest
      return { gathered with operands := argument :: gathered.operands }

end Gathered

/-! ## Commands -/

namespace Command

/-- The options that a command takes besides those that every command takes. -/
def flags? : String → Option (List Flag)
  | "parse" => some [.pretty]
  | "tokens" => some []
  | "check" => some []
  | "complete" => some [.cursor]
  | "repl" => some []
  | _ => none

/-- The command of a name with its settings and operands. -/
def of? (name : String) (gathered : Gathered) : Option Command :=
  match name, gathered.operands with
  | "parse", [] => some (.parse none (isPretty gathered))
  | "parse", [query] => some (.parse (some query) (isPretty gathered))
  | "tokens", [] => some (.tokens none)
  | "tokens", [query] => some (.tokens (some query))
  | "check", query :: queries => some (.check (query :: queries))
  | "complete", [query] => some (.complete query (Setting.valueOf? .cursor gathered.settings))
  | "repl", [] => some .interactive
  | _, _ => none
where
  isPretty (gathered : Gathered) : Bool :=
    gathered.settings.any fun setting => setting.flag = .pretty

end Command

/-- The bounds that settings ask for. -/
def Limits.ofSettings (settings : List Setting) : Limits :=
  let standard : Limits := {}
  { length := (Setting.valueOf? .maxLength settings).getD standard.length
    depth := (Setting.valueOf? .maxDepth settings).getD standard.depth }

namespace Invocation

/-- The invocation of a command whose name has been read, with the settings before its name. -/
def ofCommand? (before : List Setting) (name : String) (rest : List String) :
    Option Invocation := do
  let flags ← Command.flags? name
  let gathered ← Gathered.read? (Flag.everywhere ++ flags) rest.length rest
  let command ← Command.of? name gathered
  if Setting.distinct before && Setting.distinct gathered.settings then
    return ⟨.ofSettings (before ++ gathered.settings), command⟩
  else
    none

/-- The invocation that arguments spell, given the settings before them.  Every step takes an
argument, so `steps` may be their number. -/
def read? (before : List Setting) : Nat → List String → Option Invocation
  | _, [] => none
  | 0, _ => none
  | steps + 1, argument :: rest =>
    let options (read : Option (List Setting × List String)) : Option Invocation := do
      let (settings, rest) ← read
      read? (before ++ settings) steps rest
    match ArgumentShape.of argument with
    -- a command is not an operand, so its name cannot follow a double dash
    | .escape => none
    | .long text => options (Setting.long? Flag.everywhere text rest)
    | .cluster letters => options (Setting.cluster? Flag.everywhere rest letters)
    | .operand => ofCommand? before argument rest

/-- The invocation that arguments spell. -/
def ofArguments? (arguments : List String) : Option Invocation :=
  read? [] arguments.length arguments

end Invocation

end FieldFilter
