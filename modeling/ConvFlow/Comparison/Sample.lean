/-
# Random inputs

Every input of a graph gets a tensor of numbers from zero up to one, drawn in row-major order;
the inputs are drawn in the order of their declarations.
-/
import ConvFlow.Graph.Basic
import ConvFlow.Sampling.KeyStream

namespace ConvFlow.Comparison

open Sampling

variable {α : Type} [Element α]

/-- The number that a random word stands for: its upper 24 bits as a fraction below one. -/
def unitOfWord (w : UInt32) : α := Element.fraction (w >>> 8).toNat

/-- A random tensor of the given shape, and the place behind it in the stream. -/
def sampleTensor (shape : Shape) (s : KeyStream) : Tensor α × KeyStream :=
  let drawn := s.take shape.size
  ({ shape
     data := drawn.1.map unitOfWord
     size_data := by rw [Array.size_map]; exact KeyStream.size_take _ _ }, drawn.2)

/-- Random tensors for the declared inputs, and the place behind them in the stream. -/
def sampleInputs (inputs : List ValueDecl) (s : KeyStream) : NameMap (Tensor α) × KeyStream :=
  inputs.foldl (fun (m, s) d =>
    let (t, s) := sampleTensor d.shape s
    (m.insert d.name t, s)) (∅, s)

end ConvFlow.Comparison
