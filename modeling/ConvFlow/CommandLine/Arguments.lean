/-
# Command lines

A command line names a command, followed by its positional arguments and its options in any order.
An option is written `--name value` or `--name=value`; after `--` everything is positional.
Anything else is a usage error, which is all that is said about it.
-/
import ConvFlow.Settings

namespace ConvFlow.CommandLine

/-- What the program is asked to do. -/
inductive Command where
  /-- Check that a graph is well formed. -/
  | validate (path : String)
  /-- Apply rules to a graph under supervision. -/
  | streamline (path : String) (settings : Option String) (rules : List RuleChoice)
    (output : Option String)
  /-- Compare two graphs on random inputs. -/
  | compare (reference candidate : String) (samples : Nat) (seed : UInt64)
  /-- Patch a folding configuration. -/
  | patchFolding (path : String) (rules output : Option String)

/-- The arguments of a command, taken apart. -/
structure Given where
  /-- The positional arguments, in order. -/
  positional : List String
  /-- The options with their values, in order. -/
  options : List (String × String)

/-- Whether an argument has the form of an option. -/
def isOption (arg : String) : Bool := "-".isPrefixOf arg && arg != "-"

/-- The name of an option, and the value that stands in the same argument. -/
def splitOption (arg : List Char) : String × Option String :=
  let name := String.ofList (arg.takeWhile (· != '='))
  match arg.dropWhile (· != '=') with
  | [] => (name, none)
  | _ :: value => (name, some (String.ofList value))

/-- Take arguments apart; `names` lists the options that the command knows. -/
def Given.ofArgs? (names : List String) : List String → Option Given
  | [] => some ⟨[], []⟩
  | arg :: rest =>
    if arg = "--" then some ⟨rest, []⟩
    else if !isOption arg then
      (ofArgs? names rest).map fun g => { g with positional := arg :: g.positional }
    else
      let (name, value) := splitOption arg.toList
      if name ∉ names then none
      else
        match value, rest with
        | some v, rest =>
          (ofArgs? names rest).map fun g => { g with options := (name, v) :: g.options }
        | none, v :: rest =>
          if isOption v then none
          else (ofArgs? names rest).map fun g => { g with options := (name, v) :: g.options }
        | none, [] => none

namespace Given

/-- The values of an option, in order. -/
def values (g : Given) (name : String) : List String :=
  (g.options.filter (·.1 == name)).map (·.2)

/-- The value of an option that may be given once; the outer result is none if it is given more
often or does not stand the test `read`. -/
def single? {β : Type} (g : Given) (name : String) (read : String → Option β) :
    Option (Option β) :=
  match g.values name with
  | [] => some none
  | [v] => (read v).map some
  | _ => none

end Given

/-- A path, which is not empty. -/
def readPath (s : String) : Option String := if s = "" then none else some s

/-- A whole number below `2 ^ 64` in decimal digits; a plus sign may precede it. -/
def readWord (s : String) : Option Nat :=
  let digits := match s.toList with
    | '+' :: rest => rest
    | cs => cs
  if digits.isEmpty || !digits.all (·.isDigit) then none
  else
    let n := digits.foldl (fun n c => n * 10 + (c.toNat - '0'.toNat)) 0
    if n < UInt64.size then some n else none

/-- The rule of the given name. -/
def readRule : String → Option RuleChoice
  | "move-add-past-conv" => some .addPastConv
  | "move-scalar-mul-past-conv" => some .mulPastConv
  | _ => none

/-- The command to check a graph. -/
def parseValidate (args : List String) : Option Command := do
  let g ← Given.ofArgs? [] args
  match g.positional with
  | [path] => return .validate (← readPath path)
  | _ => none

/-- The command to apply rules to a graph. -/
def parseStreamline (args : List String) : Option Command := do
  let g ← Given.ofArgs? ["--config", "--transform", "--output"] args
  let settings ← g.single? "--config" readPath
  let rules ← (g.values "--transform").mapM readRule
  let output ← g.single? "--output" readPath
  match g.positional with
  | [path] => return .streamline (← readPath path) settings rules output
  | _ => none

/-- The command to compare two graphs. -/
def parseCompare (args : List String) : Option Command := do
  let g ← Given.ofArgs? ["--samples", "--seed"] args
  let samples ← g.single? "--samples" readWord
  let seed ← g.single? "--seed" readWord
  match g.positional with
  | [reference, candidate] =>
    return .compare (← readPath reference) (← readPath candidate) (samples.getD 1)
      (UInt64.ofNat (seed.getD 0))
  | _ => none

/-- The command to patch a folding configuration. -/
def parsePatchFolding (args : List String) : Option Command := do
  let g ← Given.ofArgs? ["--rules", "--output"] args
  let rules ← g.single? "--rules" readPath
  let output ← g.single? "--output" readPath
  match g.positional with
  | [path] => return .patchFolding (← readPath path) rules output
  | _ => none

/-- The command that a command line asks for; none is a usage error. -/
def parse : List String → Option Command
  | "validate" :: args => parseValidate args
  | "streamline" :: args => parseStreamline args
  | "compare" :: args => parseCompare args
  | "patch-folding" :: args => parsePatchFolding args
  | _ => none

end ConvFlow.CommandLine
