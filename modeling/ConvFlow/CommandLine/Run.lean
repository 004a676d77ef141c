/-
# Running commands

A command reads and writes files, says what it did on the error stream and ends with exit code 0,
or it fails with a message and exit code 1.  A usage error has exit code 2.
-/
import ConvFlow.CommandLine.Arguments
import ConvFlow.Folding.Patch
import ConvFlow.Rules.Supervised
import ConvFlow.Wire.Codec
import ConvFlow.Wire.Conversion

namespace ConvFlow.CommandLine

/-- Why a command fails. -/
structure Failure where
  /-- What went wrong. -/
  text : String
  /-- What it comes from. -/
  cause : Option String := none

/-- A failure as it is printed. -/
def Failure.message (f : Failure) : String :=
  let main := s!"Error: {f.text}\n"
  match f.cause with
  | none => main
  | some cause => main ++ s!"\nCaused by:\n    {cause}\n"

/-- What a program leaves on its streams, and its exit code. -/
structure Outcome where
  /-- The exit code. -/
  code : UInt32
  /-- The output stream. -/
  stdout : String := ""
  /-- The error stream. -/
  stderr : String := ""

/-- The outcome of a command that fails after it has said something. -/
def Outcome.failed (said : String) (f : Failure) : Outcome where
  code := 1
  stderr := said ++ f.message

/-- The outcome of a command that succeeds and says something. -/
def Outcome.done (said : String) : Outcome where
  code := 0
  stderr := said

/-- The failure to load settings. -/
def Failure.ofLoadError (e : Settings.LoadError) : Failure where
  text := e.message
  cause := some <|
    match e with
    | .read _ cause => cause.message
    | .parse _ cause => cause.message

/-- The failure to use rules or a folding configuration. -/
def Failure.ofFileFault (e : Folding.FileFault) : Failure where
  text := e.message
  cause :=
    match e with
    | .read _ cause | .write _ cause => some cause.message
    | .json _ cause => some cause.message
    | .notAnObject | .layer _ => none

/-! ## Graphs in files -/

/-- Whether a character is blank; the text of a graph may begin with any such characters. -/
def isSpace (c : Char) : Bool :=
  let n := c.toNat
  (9 ≤ n && n ≤ 13) || n == 0x20 || n == 0x85 || n == 0xA0 || n == 0x1680
    || (0x2000 ≤ n && n ≤ 0x200A) || n == 0x2028 || n == 0x2029 || n == 0x202F || n == 0x205F
    || n == 0x3000

/-- Whether a text can be a JSON object. -/
def beginsObject (text : String) : Bool := (text.toList.dropWhile isSpace).head? == some '\x7b'

/-- The graph that a text holds. -/
def parseGraph (path text : String) : Except Failure (Graph Float32) := do
  if !beginsObject text then throw ⟨s!"{path}: expected a JSON graph", none⟩
  let written ← (Wire.Graph.decode.ofText text).mapError fun p => ⟨p.message, none⟩
  written.toGraph.mapError fun e => ⟨e.message, none⟩

variable {m : Type → Type} [Monad m] [Storage m]

/-- Load a graph from a file. -/
def loadGraph (path : String) : m (Except Failure (Graph Float32)) := do
  if Path.extension? path == some "onnx" then
    return .error ⟨s!"{path}: ONNX input requires building with the 'onnx' feature", none⟩
  else
    match ← Storage.read path with
    | .error e => return .error ⟨e.message, none⟩
    | .ok text => return parseGraph path text

/-- The kinds of a graph's operations in the order of the nodes. -/
def opSequence (g : Graph Float32) : String :=
  " -> ".intercalate (g.nodes.map fun n => n.op.kind.name)

/-- The text of a graph. -/
def graphText (g : Graph Float32) : String := (Wire.Graph.ofGraph g).encode.pretty

/-! ## Commands -/

/-- Check that a graph is well formed. -/
def runValidate (path : String) : m Outcome := do
  match ← loadGraph path with
  | .error f => return .failed "" f
  | .ok g => return .done s!"OK: {opSequence g}\n"

/-- The settings of a run: those of a file, if one is given, and rules that replace theirs. -/
def loadSettings (path : Option String) (rules : List RuleChoice) :
    m (Except Failure (Settings Float32)) := do
  let loaded ← match path with
    | none => pure (.ok Settings.standard)
    | some path => Settings.load path
  return (loaded.mapError Failure.ofLoadError).map fun s =>
    if rules.isEmpty then s else { s with rules }

/-- Deliver a transformed graph in a file or on the output stream. -/
def deliver (said : String) (g : Graph Float32) (output : Option String) : m Outcome := do
  match output with
  | none => return { Outcome.done said with stdout := graphText g ++ "\n" }
  | some path =>
    match ← Storage.write path (graphText g) with
    | .error e => return .failed said ⟨e.message, none⟩
    | .ok () => return .done (said ++ s!"Wrote streamlined graph to: {path}\n")

/-- Apply rules to a graph under supervision. -/
def runStreamline (path : String) (settings : Option String) (rules : List RuleChoice)
    (output : Option String) : m Outcome := do
  match ← loadSettings settings rules with
  | .error f => return .failed "" f
  | .ok settings =>
    match ← loadGraph path with
    | .error f => return .failed "" f
    | .ok g =>
      let chosen : List (Rule Unit Float32) := settings.rules.map RuleChoice.rule
      match (Supervised.run settings.comparison chosen () g).1 with
      | .error e => return .failed "" ⟨e.message, none⟩
      | .ok result =>
        let said :=
          s!"applied {result.applied.length} rewrite(s): {opSequence result.graph}\n"
        deliver said result.graph output

/-- Compare two graphs on random inputs. -/
def runCompare (reference candidate : String) (samples : Nat) (seed : UInt64) : m Outcome := do
  match ← loadGraph reference with
  | .error f => return .failed "" f
  | .ok a =>
    match ← loadGraph candidate with
    | .error f => return .failed "" f
    | .ok b =>
      match Comparison.check a b { Comparison.Settings.standard with samples, seed } with
      | .error e => return .failed "" ⟨e.message, none⟩
      | .ok report =>
        if report.isEquivalent then return .done s!"OK: {report.message}\n"
        else return .failed "" ⟨s!"graphs differ: {report.message}", none⟩

/-- Patch a folding configuration, in place unless another file is named. -/
def runPatchFolding (path : String) (rules output : Option String) : m Outcome := do
  let loaded ← match rules with
    | none => pure (.ok Folding.Rules.standard)
    | some path => Folding.Rules.load path
  match loaded with
  | .error e => return .failed "" (.ofFileFault e)
  | .ok rules =>
    let target := output.getD path
    match ← rules.patchFile path target with
    | .error e => return .failed "" (.ofFileFault e)
    | .ok s =>
      let patched := s.patched.length
      let skipped := s.skipped.length
      return .done s!"patched {patched} layer(s), left {skipped} untouched: {target}\n"

/-- Run a command. -/
def run : Command → m Outcome
  | .validate path => runValidate path
  | .streamline path settings rules output => runStreamline path settings rules output
  | .compare reference candidate samples seed => runCompare reference candidate samples seed
  | .patchFolding path rules output => runPatchFolding path rules output

/-- What is printed after a usage error. -/
def usage : String :=
  "error: expected one of these command lines:\n"
    ++ "  validate PATH\n"
    ++ "  streamline PATH [--config FILE] [--transform NAME]... [--output FILE]\n"
    ++ "  compare PATH PATH [--samples N] [--seed N]\n"
    ++ "  patch-folding PATH [--rules FILE] [--output FILE]\n"

/-- Run the command that a command line asks for. -/
def runArgs (args : List String) : m Outcome :=
  match parse args with
  | some command => run command
  | none => return { code := 2, stderr := usage }

end ConvFlow.CommandLine
