/-
# Settings

Settings name the rules to apply and say how strictly graphs are compared.  Everything has a
default, and texts give only what differs from it.
-/
import ConvFlow.Json.Decoder
import ConvFlow.Json.Printer
import ConvFlow.Comparison.Check
import ConvFlow.Rules.AddPastConv
import ConvFlow.Rules.MulPastConv
import ConvFlow.Storage

namespace ConvFlow

open Json (Decoder)

/-- The rules that settings can name. -/
inductive RuleChoice where
  | addPastConv
  | mulPastConv
  deriving DecidableEq

namespace RuleChoice

/-- The rule that is chosen. -/
def rule {σ α : Type} [Element α] : RuleChoice → Rule σ α
  | addPastConv => Rule.addPastConv
  | mulPastConv => Rule.mulPastConv

/-- The name that texts use. -/
def name : RuleChoice → String
  | addPastConv => "move_add_past_conv"
  | mulPastConv => "move_scalar_mul_past_conv"

/-- The choices by the names that texts use. -/
def named : List (String × RuleChoice) :=
  [("move_add_past_conv", addPastConv), ("move_scalar_mul_past_conv", mulPastConv)]

end RuleChoice

namespace Comparison.Settings

/-- Read the settings of a comparison, around which `around` brackets are open already and which
open one themselves.  The tolerances stand beside the other fields, but are looked at only once
the settings have been read to their end. -/
def decode (around : Nat) : Decoder (Settings Float32) :=
  Decoder.openRecord ["samples", "seed"] (Json.nestingLimit - around - 1) fun f =>
    (fun samples seed rtol atol => ⟨samples, seed, ⟨rtol, atol⟩⟩)
      <$> f.optional "samples" standard.samples (Decoder.below UInt64.size)
      <*> f.optional "seed" standard.seed Decoder.word64
      <*> f.late "rtol" standard.tolerance.rtol Decoder.single
      <*> f.late "atol" standard.tolerance.atol Decoder.single

/-- Write the settings of a comparison. -/
def encode (s : Settings Float32) : Json :=
  .object [("samples", Json.ofNat s.samples), ("seed", Json.ofNat s.seed.toNat),
    ("rtol", Json.ofSingle s.tolerance.rtol), ("atol", Json.ofSingle s.tolerance.atol)]

end Comparison.Settings

/-- Read a tolerance that stands alone. -/
def Comparison.Tolerance.decode : Decoder (Comparison.Tolerance Float32) :=
  Decoder.record ["rtol", "atol"] fun f =>
    Comparison.Tolerance.mk <$> f.optional "rtol" Comparison.Tolerance.standard.rtol Decoder.single
      <*> f.optional "atol" Comparison.Tolerance.standard.atol Decoder.single

/-- Which rules are applied, and how they are supervised. -/
structure Settings (α : Type) where
  /-- The rules, in the order of their application. -/
  rules : List RuleChoice
  /-- How graphs are compared. -/
  comparison : Comparison.Settings α

namespace Settings

/-- The settings that apply if none are given. -/
def standard : Settings Float32 := ⟨[.addPastConv, .mulPastConv], .standard⟩

/-- Read settings. -/
def decode : Decoder (Settings Float32) :=
  Decoder.record ["transforms", "oracle"] fun f =>
    Settings.mk
      <$> f.optional "transforms" standard.rules (Decoder.listOf (Decoder.oneOf RuleChoice.named))
      <*> f.optional "oracle" standard.comparison (Comparison.Settings.decode 1)

/-- Write settings. -/
def encode (s : Settings Float32) : Json :=
  .object [("transforms", Json.ofStrings (s.rules.map RuleChoice.name)),
    ("oracle", s.comparison.encode)]

/-- Why settings cannot be loaded from a file. -/
inductive LoadError where
  /-- The file cannot be read. -/
  | read (path : String) (cause : FileError)
  /-- The text of the file does not hold settings. -/
  | parse (path : String) (cause : Json.Problem)

/-- The wording of an error. -/
def LoadError.message : LoadError → String
  | read path cause => s!"failed to read config '{path}': {cause.message}"
  | parse path cause => s!"failed to parse config '{path}': {cause.message}"

/-- Load settings from a file. -/
def load {m : Type → Type} [Monad m] [Storage m] (path : String) :
    m (Except LoadError (Settings Float32)) := do
  match ← Storage.read path with
  | .error e => return .error (.read path e)
  | .ok text => return (decode.ofText text).mapError (.parse path)

end Settings

end ConvFlow
