/-! The command line. Arguments are taken from left to right, and the first one that cannot be
understood ends the reading; what is missing or given too often is found at the end. -/

namespace LexerGen.Command

/-- An option that takes a value. -/
inductive ValueOption where
  | outFile
  | template
  | scan
deriving Repr, DecidableEq

inductive Flag where
  | stdout
  | dump
  | verbose
  | help
  | version
deriving Repr, DecidableEq

namespace ValueOption

def all : List ValueOption := [outFile, template, scan]

def long : ValueOption → String
  | outFile => "out-file"
  | template => "template"
  | scan => "scan"

def short : ValueOption → Char
  | outFile => 'o'
  | template => 't'
  | scan => 's'

/-- How messages name the option. -/
def display (o : ValueOption) : String := s!"--{o.long} <{o.long}>"

end ValueOption

namespace Flag

def all : List Flag := [stdout, dump, verbose, help, version]

def long : Flag → String
  | stdout => "stdout"
  | dump => "dump"
  | verbose => "verbose"
  | help => "help"
  | version => "version"

def short? : Flag → Option Char
  | stdout => none
  | dump => none
  | verbose => some 'v'
  | help => some 'h'
  | version => some 'V'

def display (f : Flag) : String := "--" ++ f.long

/-- Whether the flag may be given more than once. -/
def repeatable (f : Flag) : Bool := f = verbose

end Flag

inductive UsageError where
  | unexpected (arg : String)
  | missingFile
  | missingValue (option : ValueOption)
  | repeated (display : String)
deriving Repr, DecidableEq

def UsageError.message : UsageError → String
  | unexpected arg =>
    s!"Found argument '{arg}' which wasn't expected, or isn't valid in this context"
  | missingFile => "The following required arguments were not provided:"
  | missingValue option =>
    s!"The argument '{option.display}' requires a value but none was supplied"
  | repeated display =>
    s!"The argument '{display}' was provided more than once, but cannot be used multiple times"

/-- Why the reading of arguments ends before their end. -/
inductive Stop where
  | help
  | version
  | usage (error : UsageError)
deriving Repr, DecidableEq

/-- The arguments read so far. -/
structure Arguments where
  file : Option String := none
  flags : List Flag := []
  options : List ValueOption := []
  values : List (ValueOption × String) := []
  /-- The option that the last argument left without a value. -/
  pending : Option ValueOption := none
  /-- Whether `--` was read, behind which there are no options. -/
  trailing : Bool := false
deriving Repr, DecidableEq

structure Options where
  file : String
  outFile : Option String := none
  template : Option String := none
  scan : Option String := none
  stdout : Bool := false
  dump : Bool := false
  verbosity : Nat := 0
deriving Repr, DecidableEq

namespace Arguments

def addFlag (a : Arguments) (f : Flag) : Except Stop Arguments :=
  match f with
  | .help => .error .help
  | .version => .error .version
  | f => .ok { a with flags := f :: a.flags, pending := none }

/-- Adds an option. A value may start with any number of equals signs, which are not part of it. -/
def addOption (a : Arguments) (o : ValueOption) (value : Option (List Char)) : Arguments :=
  let a := { a with options := o :: a.options }
  match value with
  | none => { a with pending := some o }
  | some v =>
    { a with values := (o, .ofList (v.dropWhile (· = '='))) :: a.values, pending := none }

/-- Adds the long option or flag `text`, from which the hyphens are taken off. -/
def addLong (a : Arguments) (text : List Char) : Except Stop Arguments :=
  let name := text.takeWhile (· ≠ '=')
  let value := if text.contains '=' then some (text.dropWhile (· ≠ '=')) else none
  match ValueOption.all.find? (·.long.toList = name), Flag.all.find? (·.long.toList = name) with
  | some o, _ => .ok (a.addOption o value)
  | none, some f => a.addFlag f
  | none, none => .error (.usage (.unexpected ("--" ++ .ofList name)))

/-- Adds the short options and flags of a cluster. What follows an option is its value. -/
def addShorts (a : Arguments) : List Char → Except Stop Arguments
  | [] => .ok a
  | x :: rest =>
    match ValueOption.all.find? (·.short = x), Flag.all.find? (·.short? = some x) with
    | some o, _ => .ok (a.addOption o (if rest.isEmpty then none else some rest))
    | none, some f =>
      match a.addFlag f with
      | .error stop => .error stop
      | .ok a => a.addShorts rest
    | none, none => .error (.usage (.unexpected ("-" ++ .ofList [x])))

/-- Adds an argument that is neither an option nor the value of one. -/
def addPositional (a : Arguments) (arg : String) : Except Stop Arguments :=
  match a.file with
  | none => .ok { a with file := some arg }
  | some _ => .error (.usage (.unexpected arg))

/-- Adds the next argument. A single hyphen is a value like any other. -/
def add (a : Arguments) (arg : String) : Except Stop Arguments :=
  if a.trailing then a.addPositional arg
  else
    match arg.toList with
    | ['-', '-'] => .ok { a with trailing := true }
    | '-' :: '-' :: text => a.addLong (text.dropWhile (· = '-'))
    | '-' :: x :: text => a.addShorts (x :: text)
    | _ =>
      match a.pending with
      | some o => .ok { a with values := (o, arg) :: a.values, pending := none }
      | none => a.addPositional arg

/-- Adds all arguments. -/
def addAll (a : Arguments) : List String → Except Stop Arguments
  | [] => .ok a
  | arg :: rest =>
    match a.add arg with
    | .error stop => .error stop
    | .ok a => a.addAll rest

/-- Whether an option is given, but never with a value. -/
def lacksValue (a : Arguments) (o : ValueOption) : Bool :=
  a.options.contains o && !(a.values.any (·.1 = o))

/-- The first option that has no value, or option or flag that is given too often. -/
def excess? (a : Arguments) : Option UsageError :=
  let options := ValueOption.all.filterMap fun o =>
    if a.lacksValue o then some (.missingValue o)
    else if 1 < a.options.count o then some (.repeated o.display)
    else none
  let flags := Flag.all.filterMap fun f =>
    if !f.repeatable && 1 < a.flags.count f then some (.repeated f.display) else none
  (options ++ flags).head?

/-- The options that the arguments give, if they are complete. -/
def finish (a : Arguments) : Except UsageError Options :=
  match a.file, a.pending.filter a.lacksValue, a.excess? with
  | none, _, _ => .error .missingFile
  | some _, some o, _ => .error (.missingValue o)
  | some _, none, some e => .error e
  | some file, none, none =>
    .ok { file
          outFile := a.values.lookup .outFile
          template := a.values.lookup .template
          scan := a.values.lookup .scan
          stdout := a.flags.contains .stdout
          dump := a.flags.contains .dump
          verbosity := a.flags.count .verbose }

end Arguments

/-- The options of a command line. -/
def Options.parse (args : List String) : Except Stop Options :=
  match ({} : Arguments).addAll args with
  | .error stop => .error stop
  | .ok a =>
    match a.finish with
    | .error e => .error (.usage e)
    | .ok options => .ok options

end LexerGen.Command
