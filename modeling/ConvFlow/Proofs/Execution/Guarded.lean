/-
# Execution with every access guarded

The executor totalises what can go wrong below the level of its errors: a missing operand reads
as the empty name, an element outside a tensor as zero, and a division by zero as zero.  The
definitions of this file compute the same values in `Option` and give nothing as soon as an
operand list or a tensor would be read outside its range or a divisor is zero.

Each definition comes with the lemma that says when the guards do not stop it.  The main
statement is `runOp_eq_some`: whatever the executor computes at a node whose weights fit, the
guarded executor computes as well.
-/
import ConvFlow.Proofs.Conv.Window
import ConvFlow.Proofs.Execution.Run

namespace ConvFlow

open Outcome

/-- Whether an index lies within a shape can be decided. -/
instance Shape.decidableHolds : (s : Shape) → (idx : List Nat) → Decidable (s.Holds idx)
  | [], [] => .isTrue trivial
  | [], _ :: _ => .isFalse id
  | _ :: _, [] => .isFalse id
  | d :: ds, i :: is =>
    have := decidableHolds ds is
    inferInstanceAs (Decidable (i < d ∧ Shape.Holds ds is))

namespace Guarded

variable {α : Type}

/-- The quotient of two numbers; none if the divisor is zero. -/
def quotient (a b : Nat) : Option Nat := if b = 0 then none else some (a / b)

lemma quotient_eq_some {a b : Nat} (h : 0 < b) : quotient a b = some (a / b) :=
  if_neg (Nat.pos_iff_ne_zero.1 h)

/-- The element of a tensor at an index; none outside the tensor. -/
def element (t : Tensor α) (idx : List Nat) : Option α :=
  if t.shape.Holds idx then t.data[t.shape.ravel idx]? else none

lemma element_eq_some [Zero α] {t : Tensor α} {idx : List Nat} (h : t.shape.Holds idx) :
    element t idx = some (t.get idx) := by
  have hlt : t.shape.ravel idx < t.data.size := by
    rw [t.size_data]
    exact Shape.ravel_lt_size h
  simp [element, h, Tensor.get, hlt]

/-- The tensor of the given shape whose element at an index is the value of `f` there; none if
`f` has no value at some index of the shape. -/
def tabulate [Zero α] (s : Shape) (f : List Nat → Option α) : Option (Tensor α) :=
  if ∀ k : Fin s.size, (f (s.unravel k)).isSome then
    some (Tensor.ofFn s fun idx => (f idx).getD 0)
  else none

lemma tabulate_eq_some [Zero α] {s : Shape} {f : List Nat → Option α} {v : List Nat → α}
    (h : ∀ idx, s.Holds idx → f idx = some (v idx)) :
    tabulate s f = some (Tensor.ofFn s v) := by
  rw [tabulate, if_pos fun k => by rw [h _ (Shape.holds_unravel k.isLt)]; rfl]
  refine congrArg some (Tensor.ofFn_congr fun idx hidx => ?_)
  rw [h idx hidx, Option.getD_some]

variable [Element α]

/-! ## Element-wise operations -/

/-- Apply an operation to corresponding elements of two tensors whose shapes can be joined. -/
def zipBroadcast (op : α → α → α) (a b : Tensor α) : Option (Tensor α) := do
  let s ← a.shape.broadcast b.shape
  tabulate s fun idx => do
    let x ← element a (a.shape.align idx)
    let y ← element b (b.shape.align idx)
    return op x y

/-- Joining shapes leaves no operand to be read outside its range. -/
lemma zipBroadcast_eq_some {op : α → α → α} {a b t : Tensor α}
    (h : Tensor.zipBroadcast op a b = some t) : zipBroadcast op a b = some t := by
  obtain ⟨s, hs, rfl⟩ := Tensor.zipBroadcast_eq_some_iff.1 h
  rw [zipBroadcast, hs, Option.bind_eq_bind, Option.bind_some]
  refine tabulate_eq_some fun idx hidx => ?_
  rw [element_eq_some (Shape.holds_align_left hs hidx),
    element_eq_some (Shape.holds_align_right hs hidx)]
  rfl

/-! ## Convolutions -/

/-- The number of places of a kernel along one axis. -/
def positions (a : Conv.Axis) : Option Nat :=
  if 0 < a.kernel ∧ 0 < a.dilation ∧ a.span ≤ a.padded then
    (quotient (a.padded - a.span) a.stride).map (· + 1)
  else none

lemma positions_eq_some {a : Conv.Axis} {axis count : Nat} (h : a.positions axis = .ok count) :
    positions a = some count := by
  obtain ⟨hkernel, hstride, hdilation, hspan, rfl⟩ := Conv.Axis.positions_eq_ok_iff.1 h
  rw [positions, if_pos ⟨hkernel, hdilation, hspan⟩, quotient_eq_some hstride, Option.map_some]

/-- What one tap contributes to output channel `co` of image `n`, where the channels that `co`
sees start at `first`. -/
def term (x w : Tensor α) (n co first : Nat) : Nat × (Nat × Nat) × (Nat × Nat) → Option α
  | (ci, (ky, iy), (kx, ix)) => do
    let pixel ← element x [n, first + ci, iy, ix]
    let weight ← element w [co, ci, ky, kx]
    return pixel * weight

/-- Add what the taps contribute, one after another. -/
def accumulate (f : Nat × (Nat × Nat) × (Nat × Nat) → Option α) :
    List (Nat × (Nat × Nat) × (Nat × Nat)) → α → Option α
  | [], acc => some acc
  | tap :: taps, acc => do
    let product ← f tap
    accumulate f taps (acc + product)

lemma accumulate_eq_some {f : Nat × (Nat × Nat) × (Nat × Nat) → Option α}
    {v : Nat × (Nat × Nat) × (Nat × Nat) → α} {taps : List (Nat × (Nat × Nat) × (Nat × Nat))}
    (h : ∀ tap ∈ taps, f tap = some (v tap)) (acc : α) :
    accumulate f taps acc = some (Element.sumFrom acc (taps.map v)) := by
  induction taps generalizing acc with
  | nil => rfl
  | cons tap taps ih =>
    rw [accumulate, h tap List.mem_cons_self, Option.bind_eq_bind, Option.bind_some,
      ih fun tap htap => h tap (List.mem_cons_of_mem _ htap)]
    rfl

/-- The bias of each of `count` output channels. -/
def biasValues (bias : Option (Tensor α)) (count : Nat) : Option (Nat → Option α) :=
  match bias with
  | none => some fun co => if co < count then some 0 else none
  | some b => if b.size = count then some fun co => b.data[co]? else none

lemma biasValues_eq_some {bias : Option (Tensor α)} {count : Nat} {offset : Nat → α}
    (h : Conv.biasValues bias count = .ok offset) :
    ∃ f, biasValues bias count = some f ∧ ∀ co < count, f co = some (offset co) := by
  cases bias with
  | none =>
    obtain rfl : (fun _ => 0) = offset := by simpa [Conv.biasValues] using h
    exact ⟨_, rfl, fun co hco => if_pos hco⟩
  | some b =>
    rw [Conv.biasValues] at h
    split at h
    · rename_i hsize
      obtain rfl := Except.ok.inj h
      refine ⟨fun co => b.data[co]?, if_pos hsize, fun co hco => ?_⟩
      have hlt : co < b.data.size := by rw [← hsize] at hco; exact hco
      simp [hlt]
    · simp at h

/-- The output at an index, where each group has `outPerGroup` output channels. -/
def window (d : Conv.Dims) (attrs : Conv.Attributes) (outPerGroup : Nat) (x w : Tensor α)
    (offset : Nat → Option α) : List Nat → Option α
  | [n, co, oy, ox] => do
    let slice ← quotient co outPerGroup
    let sum ← accumulate (term x w n co (slice * d.perGroup)) (d.taps attrs oy ox) 0
    let bias ← offset co
    return sum + bias
  | _ => none

/-- The two-dimensional convolution of an image with weights and an optional bias. -/
def conv2d (x w : Tensor α) (bias : Option (Tensor α)) (attrs : Conv.Attributes) :
    Option (Tensor α) :=
  match x.shape, w.shape with
  | [batch, channels, height, width], [outChannels, perGroup, kernelRows, kernelCols] =>
    if perGroup * attrs.group = channels then do
      let rows ← positions (Conv.Axis.rows attrs height)
      let cols ← positions (Conv.Axis.cols attrs width)
      let outPerGroup ← quotient outChannels attrs.group
      let offset ← biasValues bias outChannels
      let d : Conv.Dims := {
        batch, channels, height, width, outChannels, perGroup, kernelRows, kernelCols, rows, cols }
      tabulate d.output (window d attrs outPerGroup x w offset)
    else none
  | _, _ => none

/-- The window at an index of the output divides by positive numbers only and reads only inside
the image and the weights. -/
lemma window_eq_some {d : Conv.Dims} {attrs : Conv.Attributes} {x w : Tensor α}
    {offset : Nat → α} {f : Nat → Option α} (hx : x.shape = d.input) (hw : w.shape = d.weights)
    (hfit : d.Fit attrs) (hgroup : 0 < attrs.group) (hdvd : attrs.group ∣ d.outChannels)
    (hf : ∀ co < d.outChannels, f co = some (offset co)) {idx : List Nat}
    (hidx : d.output.Holds idx) :
    window d attrs (d.outChannels / attrs.group) x w f idx =
      some (d.window attrs x w offset idx) := by
  obtain ⟨n, co, oy, ox, rfl, -, hco, -⟩ := Shape.exists_of_holds_four hidx
  -- There is an output channel at this index, so every group has at least one.
  have hpos : 0 < d.outChannels / attrs.group :=
    Nat.div_pos (Nat.le_of_dvd (by omega) hdvd) hgroup
  have hterm : ∀ tap ∈ d.taps attrs oy ox,
      term x w n co (d.firstChannel attrs co) tap = some (d.term attrs x w n co tap) := by
    rintro ⟨ci, ⟨ky, iy⟩, ⟨kx, ix⟩⟩ htap
    obtain ⟨hin, hweight⟩ := Conv.Dims.tap_within hfit hgroup hdvd hidx htap
    rw [← hx] at hin
    rw [← hw] at hweight
    rw [term, element_eq_some hin, element_eq_some hweight]
    rfl
  have hsum := accumulate_eq_some hterm 0
  rw [Conv.Dims.firstChannel] at hsum
  simp only [window, quotient_eq_some hpos, hsum, hf co hco, Option.bind_eq_bind,
    Option.bind_some]
  rfl

/-- **A convolution whose weights fit is computed without reading outside a tensor and without
dividing by zero.** -/
theorem conv2d_eq_some {x w y : Tensor α} {bias : Option (Tensor α)} {attrs : Conv.Attributes}
    {outChannels perGroup : Nat} (hfits : attrs.FitsWeights w.shape outChannels perGroup)
    (h : Conv.conv2d x w bias attrs = .ok y) : conv2d x w bias attrs = some y := by
  obtain ⟨d, offset, hx, hw, hfit, hoffset, rfl⟩ := Conv.conv2d_eq_ok_iff.1 h
  obtain ⟨f, hbias, hf⟩ := biasValues_eq_some hoffset
  obtain ⟨rfl, -⟩ := hfits.numbers hw
  have htable : tabulate d.output (window d attrs (d.outChannels / attrs.group) x w f) =
      some (Tensor.ofFn d.output (d.window attrs x w offset)) :=
    tabulate_eq_some fun idx hidx =>
      window_eq_some hx hw hfit hfits.group_pos hfits.group_dvd hf hidx
  unfold conv2d
  simp only [hx, hw, Conv.Dims.input, Conv.Dims.weights, hfit.channels, hbias,
    positions_eq_some hfit.rows, positions_eq_some hfit.cols, quotient_eq_some hfits.group_pos,
    if_true, Option.bind_eq_bind, Option.bind_some]
  exact htable

/-! ## Nodes -/

/-- The value that a node reads as operand `i`. -/
def readOperand (ctx : Execution.Context α) (n : Node) (i : Nat) : Option (Tensor α) := do
  let v ← n.inputs[i]?
  ctx[v]?

omit [Element α] in
lemma readOperand_eq {ctx : Execution.Context α} {n : Node} {i : Nat} (h : i < n.inputs.length) :
    readOperand ctx n i = ctx[n.operand i]? := by
  simp [readOperand, Node.operand, h]

/-- The bias of a convolution node, if it has a third operand. -/
def readBias (ctx : Execution.Context α) (n : Node) : Option (Option (Tensor α)) :=
  if 2 < n.inputs.length then (readOperand ctx n 2).map some else some none

/-- The result of a node. -/
def runOp (ctx : Execution.Context α) (n : Node) : Option (Tensor α) :=
  match n.op with
  | .relu => (readOperand ctx n 0).map (Tensor.map Element.positivePart)
  | .add | .mul => do
    let lhs ← readOperand ctx n 0
    let rhs ← readOperand ctx n 1
    zipBroadcast (Execution.combine n.op) lhs rhs
  | .conv attrs => do
    let bias ← readBias ctx n
    let x ← readOperand ctx n 0
    let w ← readOperand ctx n 1
    conv2d x w bias attrs

/-- Run a node and add its result to the table. -/
def runNode (ctx : Execution.Context α) (n : Node) : Option (Execution.Context α) := do
  let t ← runOp ctx n
  let v ← n.outputs[0]?
  return ctx.insert v t

variable {ctx : Execution.Context α} {n : Node} {t : Tensor α}

/-- **At a node that fits its arity and whose weights fit, no guard stops the executor.** -/
theorem runOp_eq_some (harity : n.FitsArity)
    (hweights : ∀ attrs, n.op = .conv attrs → ∃ w outChannels perGroup,
      ctx[n.operand 1]? = some w ∧ attrs.FitsWeights w.shape outChannels perGroup)
    (h : Execution.runOp ctx n = .ok t) : runOp ctx n = some t := by
  rcases Graph.op_cases n with hop | hop | ⟨attrs, hop⟩
  · have hlen := harity.length_relu hop
    obtain ⟨x, hx, rfl⟩ := (Execution.runOp_relu hop).1 h
    simp only [runOp, hop, readOperand_eq (n := n) (i := 0) (by omega), hx, Option.map_some]
  · have hlen := harity.length_elementwise hop
    obtain ⟨a, b, ha, hb, hzip⟩ := (Execution.runOp_elementwise hop).1 h
    have hguarded := zipBroadcast_eq_some hzip
    rcases hop with hop | hop <;>
      simpa only [runOp, hop, readOperand_eq (n := n) (i := 0) (by omega),
        readOperand_eq (n := n) (i := 1) (by omega), ha, hb, Option.bind_eq_bind,
        Option.bind_some] using hguarded
  · have hlen := harity.length_conv hop
    obtain ⟨bias, x, w, hbias, hx, hw, hconv⟩ := (Execution.runOp_conv hop).1 h
    obtain ⟨w', outChannels, perGroup, hw', hfits⟩ := hweights attrs hop
    -- The weights that fit are the tensor that the node reads.
    obtain rfl : w = w' := Option.some.inj (hw.symm.trans hw')
    have hguarded : readBias ctx n = some bias := by
      rw [Execution.readBias_eq_ok_iff] at hbias
      unfold readBias
      split
      · rename_i hthree
        obtain ⟨b, hb, rfl⟩ := hbias.1 hthree
        rw [readOperand_eq hthree, hb, Option.map_some]
      · rename_i hthree
        rw [hbias.2 (not_lt.1 hthree)]
    simp only [runOp, hop, hguarded, readOperand_eq (n := n) (i := 0) (by omega),
      readOperand_eq (n := n) (i := 1) (by omega), hx, hw, Option.bind_eq_bind, Option.bind_some,
      conv2d_eq_some hfits hconv]

lemma runNode_eq_some {ctx' : Execution.Context α} (harity : n.FitsArity)
    (hweights : ∀ attrs, n.op = .conv attrs → ∃ w outChannels perGroup,
      ctx[n.operand 1]? = some w ∧ attrs.FitsWeights w.shape outChannels perGroup)
    (h : Execution.runNode ctx n = .ok ctx') : runNode ctx n = some ctx' := by
  obtain ⟨t, ht, rfl⟩ := Execution.runNode_eq_ok_iff.1 h
  have hresult : n.outputs[0]? = some n.result := by
    rw [harity.results]
    rfl
  simp only [runNode, runOp_eq_some harity hweights ht, hresult, Option.bind_eq_bind,
    Option.bind_some, Option.pure_def]

end Guarded

end ConvFlow
