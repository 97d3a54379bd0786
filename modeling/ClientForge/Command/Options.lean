-- SUMMARY: The options of the command line and how arguments are read.

/-!
# Options

Arguments are options with a value, switches, and at most one settings file. A
long option takes its value after an equals sign or from the next argument; short
ones may stand together behind one dash, and one that takes a value takes the rest
or the next argument. After two dashes nothing is an option. The last value of an
option counts.
-/

namespace ClientForge

namespace Command

/-- Options with a value. -/
inductive ValueOption
  | language
  | spec
  | name
  | className
  | basePath
  | packageName
  | output
deriving DecidableEq, Repr

inductive Switch
  | snake
  | verbose
  | help
deriving DecidableEq, Repr

inductive AnyOption
  | value (option : ValueOption)
  | switch (switch : Switch)
deriving DecidableEq, Repr

def longOptions : List (String × AnyOption) :=
  [("--language", .value .language), ("--spec", .value .spec), ("--name", .value .name),
    ("--class-name", .value .className), ("--base-path", .value .basePath),
    ("--package-name", .value .packageName), ("--output", .value .output),
    ("--snake", .switch .snake), ("--verbose", .switch .verbose), ("--help", .switch .help)]

def shortOptions : List (Char × AnyOption) :=
  [('o', .value .output), ('v', .switch .verbose)]

/-- Arguments as they have been read: values and switches in the order in which
they came, and what is no option. -/
structure Arguments where
  values : List (ValueOption × String)
  switches : List Switch
  operands : List String
deriving DecidableEq, Repr, Inhabited

namespace Arguments

def none : Arguments := ⟨[], [], []⟩

def addValue (o : ValueOption) (s : String) (a : Arguments) : Arguments :=
  { a with values := (o, s) :: a.values }

def addSwitches (ss : List Switch) (a : Arguments) : Arguments :=
  { a with switches := ss ++ a.switches }

def addOperand (s : String) (a : Arguments) : Arguments := { a with operands := s :: a.operands }

/-- The options that are given a value, in the order in which they came. -/
def valueOptions (a : Arguments) : List ValueOption := a.values.map (·.1)

/-- The last value of an option. -/
def value? (a : Arguments) (o : ValueOption) : Option String :=
  (a.values.filter (·.1 = o)).getLast?.map (·.2)

def has (a : Arguments) (s : Switch) : Bool := a.switches.contains s

end Arguments

/-! ## Reading arguments -/

/-- An argument at its first equals sign. -/
def splitAtEquals (cs : List Char) : List Char × Option (List Char) :=
  match cs.dropWhile (· ≠ '=') with
  | [] => (cs, none)
  | _ :: value => (cs.takeWhile (· ≠ '='), some value)

/-- What one argument says: nothing but switches, an option with its value, or an
option whose value is the next argument; switches may come before an option. -/
inductive Reading
  | switches (ss : List Switch)
  | withValue (ss : List Switch) (o : ValueOption) (value : String)
  | needsValue (ss : List Switch) (o : ValueOption)
deriving DecidableEq, Repr

/-- Short options that stand together. -/
def readShort (seen : List Switch) : List Char → Option Reading
  | [] => some (.switches seen)
  | c :: cs =>
    match shortOptions.lookup c with
    | none => none
    | some (.switch s) => readShort (seen ++ [s]) cs
    | some (.value o) =>
      if cs.isEmpty then some (.needsValue seen o)
      else some (.withValue seen o (String.ofList cs))

/-- A long option. -/
def readLong (o : AnyOption) (value : Option (List Char)) : Option Reading :=
  match o, value with
  | .value o, some v => some (.withValue [] o (String.ofList v))
  | .value o, none => some (.needsValue [] o)
  | .switch s, none => some (.switches [s])
  | .switch _, some _ => none

/-- An argument that starts with a dash and goes on. -/
def readOption (arg : String) : Option Reading :=
  let (name, value) := splitAtEquals arg.toList
  match longOptions.lookup (String.ofList name) with
  | some o => readLong o value
  | none =>
    match arg.toList with
    | '-' :: '-' :: _ => none
    | _ :: cs => readShort [] cs
    | [] => none

def isOption (arg : String) : Bool :=
  match arg.toList with
  | '-' :: _ :: _ => true
  | _ => false

/-- All arguments; `none` if they are not those of the command. -/
def readArguments : List String → Option Arguments
  | [] => some Arguments.none
  | arg :: rest =>
    if arg = "--" then some { Arguments.none with operands := rest }
    else if isOption arg then
      match readOption arg with
      | none => none
      | some (.switches ss) => (readArguments rest).map (·.addSwitches ss)
      | some (.withValue ss o v) => (readArguments rest).map (·.addValue o v |>.addSwitches ss)
      | some (.needsValue ss o) =>
        match rest with
        | [] => none
        | v :: rest => (readArguments rest).map (·.addValue o v |>.addSwitches ss)
    else (readArguments rest).map (·.addOperand arg)

end Command

end ClientForge
