/-
# Patching a folding configuration

`Rules.patch` goes through the members of a configuration in order and sets the attributes that
the rules ask for.  It stops at the first member that it cannot handle; what it has done before
stays done, so the configuration is returned beside the outcome.

`Rules.patchFile` patches a configuration in a file and writes the result only if everything went
well.
-/
import ConvFlow.Folding.Rules
import ConvFlow.Json.Printer
import ConvFlow.Storage

namespace ConvFlow.Folding

/-- Which members have been changed, and which have been left alone. -/
structure Summary where
  /-- The names of the members that have been changed, in order. -/
  patched : List String
  /-- The names of the other members, in order. -/
  skipped : List String
  deriving DecidableEq

/-- Set an attribute if the layer is reached by a threshold. -/
def setReached {β : Type} (key : String) (name : β → String) (t : Threshold β) (index : Nat)
    (attrs : Json.Members) : Json.Members :=
  if t.reaches index then attrs.set key (.string (name t.value)) else attrs

/-- Set the style of memory; weights in ultra memory can be written at run time. -/
def setRamStyle (t : Threshold RamStyle) (index : Nat) (attrs : Json.Members) : Json.Members :=
  let styled := setReached "ram_style" RamStyle.name t index attrs
  if t.reaches index ∧ t.value = .ultra then
    styled.set "runtime_writeable_weights" (Json.ofNat 1)
  else styled

namespace CategoryRules

/-- Whether any of the rules reaches a layer. -/
def reaches (r : CategoryRules) (index : Nat) : Bool :=
  r.ramStyle.reaches index || r.resType.reaches index || r.memMode.reaches index

/-- The attributes of a layer after the rules have been applied to it. -/
def setAll (r : CategoryRules) (index : Nat) (attrs : Json.Members) : Json.Members :=
  setReached "mem_mode" MemMode.name r.memMode index
    (setReached "resType" ResType.name r.resType index
      (setRamStyle r.ramStyle index attrs))

end CategoryRules

namespace Rules

/-- The new entry of a member, or none if the member is left alone. -/
def patchEntry (r : Rules) (name : String) (entry : Json) : Except LayerError (Option Json) := do
  match ← Layer.parse name with
  | none => return none
  | some layer =>
    match entry with
    | .object attrs =>
      let rules := r.category layer.category
      if rules.reaches layer.index then return some (.object (rules.setAll layer.index attrs))
      else return none
    | _ => throw (.invalidEntry name)

/-- Patch the members of a configuration one after another: the configuration afterwards, and the
outcome. -/
def patch (r : Rules) : Json.Members → Json.Members × Except LayerError Summary
  | [] => ([], .ok ⟨[], []⟩)
  | (name, entry) :: rest =>
    match r.patchEntry name entry with
    | .error e => ((name, entry) :: rest, .error e)
    | .ok none =>
      let (rest, outcome) := r.patch rest
      ((name, entry) :: rest, outcome.map fun s => { s with skipped := name :: s.skipped })
    | .ok (some entry) =>
      let (rest, outcome) := r.patch rest
      ((name, entry) :: rest, outcome.map fun s => { s with patched := name :: s.patched })

end Rules

/-! ## Files -/

/-- Why rules or a configuration in a file cannot be used. -/
inductive FileFault where
  /-- A file cannot be read. -/
  | read (path : String) (cause : FileError)
  /-- A file cannot be written. -/
  | write (path : String) (cause : FileError)
  /-- The text of a file is not what is expected. -/
  | json (path : String) (cause : Json.Problem)
  /-- The configuration is not a JSON object. -/
  | notAnObject
  /-- A layer cannot be set up. -/
  | layer (cause : LayerError)

/-- The wording of a fault. -/
def FileFault.message : FileFault → String
  | read path cause => s!"failed to read '{path}': {cause.message}"
  | write path cause => s!"failed to write '{path}': {cause.message}"
  | json path cause => s!"invalid JSON in '{path}': {cause.message}"
  | notAnObject => "folding config must be a JSON object keyed by layer name"
  | layer cause => cause.message

namespace Rules

/-- Load rules from a file. -/
def load {m : Type → Type} [Monad m] [Storage m] (path : String) :
    m (Except FileFault Rules) := do
  match ← Storage.read path with
  | .error e => return .error (.read path e)
  | .ok text => return (decode.ofText text).mapError (.json path)

/-- The text of the patched configuration that a text holds, with the summary. -/
def patchText (r : Rules) (path text : String) : Except FileFault (String × Summary) := do
  let value ← (Json.Decoder.json.ofText text).mapError (.json path)
  match value with
  | .object members =>
    let (members, outcome) := r.patch members
    let summary ← outcome.mapError .layer
    return (Json.pretty (.object members) ++ "\n", summary)
  | _ => throw .notAnObject

/-- Patch the configuration in the file `input` and write it to the file `output`. -/
def patchFile {m : Type → Type} [Monad m] [Storage m] (r : Rules) (input output : String) :
    m (Except FileFault Summary) := do
  match ← Storage.read input with
  | .error e => return .error (.read input e)
  | .ok text =>
    match r.patchText input text with
    | .error e => return .error e
    | .ok (patched, summary) =>
      match ← Storage.write output patched with
      | .error e => return .error (.write output e)
      | .ok () => return .ok summary

end Rules

end ConvFlow.Folding
