/-
# Operations travel through chains of convolutions

In a line of operations in front of convolutions, every operation moves past every convolution.
The operations keep their order, and the constant that an operation finally reads is the one that it
had, pushed through all convolutions one after another.

This is an invariant of every change (`Line.arrivals_advances`).  `RuleChoice.arrivals` lists the
operations of a graph, each with its constant pushed through the convolutions that are still behind
it.  Moving an operation past a convolution pushes its constant and leaves one convolution less
behind it.  When the rule declines, no convolution is behind an operation any more, and the list
shows the constants as they are (`transform_line`).
-/
import ConvFlow.Proofs.Rules.Line

namespace ConvFlow

open Outcome Transform

namespace Graph

variable {α : Type} {g h : Graph α} {n : Node} {a b : String} {c : Tensor α}

/-- The constant that a node reads, the first one if there are several. -/
def constant? (g : Graph α) (n : Node) : Option (Tensor α) :=
  (n.inputs.filterMap fun v => g.initializers[v]?).head?

lemma constant?_congr (hsame : ∀ v ∈ n.inputs, h.initializers[v]? = g.initializers[v]?) :
    h.constant? n = g.constant? n := by
  rw [constant?, constant?, List.filterMap_congr hsame]

lemma constant?_slotted {slot : Nat} (hin : n.inputs = slotted slot a b)
    (ha : g.initializers[a]? = none) (hb : g.initializers[b]? = some c) :
    g.constant? n = some c := by
  rw [constant?, hin, slotted]
  split <;> simp [ha, hb]

/-- The convolutions among the nodes, each with its name, its operation and its constant
operands. -/
def convsOf (nodes : List Node) : List (String × Op × List String) :=
  (nodes.filter fun n => n.op.kind = .conv).map fun n => (n.name, n.op, n.inputs.drop 1)

lemma convs_eq (g : Graph α) : g.convs = convsOf g.nodes := rfl

lemma convsOf_append (xs ys : List Node) : convsOf (xs ++ ys) = convsOf xs ++ convsOf ys := by
  simp [convsOf]

lemma convsOf_cons_of_conv (hn : n.op.kind = .conv) (nodes : List Node) :
    convsOf (n :: nodes) = (n.name, n.op, n.inputs.drop 1) :: convsOf nodes := by
  simp [convsOf, hn]

lemma convsOf_cons_of_ne (hn : n.op.kind ≠ .conv) (nodes : List Node) :
    convsOf (n :: nodes) = convsOf nodes := by
  simp [convsOf, hn]

variable {nodes : List Node}

lemma convsOf_eq_nil (hops : ∀ n ∈ nodes, n.op.kind ≠ .conv) : convsOf nodes = [] := by
  simpa [convsOf] using hops

lemma convsOf_eq_map (hconvs : ∀ n ∈ nodes, n.op.kind = .conv) :
    convsOf nodes = nodes.map fun n => (n.name, n.op, n.inputs.drop 1) := by
  rw [convsOf, List.filter_eq_self.2 fun n hn => by simpa using hconvs n hn]

end Graph

namespace RuleChoice

open ConvFlow.Graph

variable {α : Type} [Element α] {t : RuleChoice} {g h : Graph α} {n : Node}
  {conv : String × Op × List String} {xs ys ys' : List Node}

/-- The constant behind a convolution for one in front of it. -/
def pushed (g : Graph α) : RuleChoice → Tensor α → String × Op × List String → Option (Tensor α)
  | addPastConv, a, (_, .conv attrs, constants) => do
    let name ← constants.head?
    let weights ← g.initializers[name]?
    Conv.foldThroughKernel a weights attrs.group
  | addPastConv, _, _ => none
  | mulPastConv, a, _ => some a

/-- The operations of a list of nodes, each with the constant that arrives behind all convolutions
of the list. -/
def arrivals (t : RuleChoice) (g : Graph α) : List Node → List (String × Op × Option (Tensor α))
  | [] => []
  | n :: rest =>
    if n.op.kind = .conv then arrivals t g rest
    else (n.name, n.op, (g.constant? n).bind ((convsOf rest).foldlM (t.pushed g))) ::
      arrivals t g rest

lemma arrivals_cons_of_conv (hn : n.op.kind = .conv) (rest : List Node) :
    t.arrivals g (n :: rest) = t.arrivals g rest := by
  rw [arrivals, if_pos hn]

lemma arrivals_cons_of_ne (hn : n.op.kind ≠ .conv) (rest : List Node) :
    t.arrivals g (n :: rest) =
      (n.name, n.op, (g.constant? n).bind ((convsOf rest).foldlM (t.pushed g))) ::
        t.arrivals g rest := by
  rw [arrivals, if_neg hn]

lemma arrivals_eq_nil {convs : List Node} (hconvs : ∀ n ∈ convs, n.op.kind = .conv) :
    t.arrivals g convs = [] := by
  induction convs with
  | nil => rfl
  | cons n convs ih =>
    obtain ⟨hn, hconvs⟩ := List.forall_mem_cons.1 hconvs
    rw [arrivals_cons_of_conv hn, ih hconvs]

/-- Operations in front of convolutions all meet the same ones. -/
lemma arrivals_append {ops convs : List Node} (hops : ∀ n ∈ ops, n.op.kind ≠ .conv)
    (hconvs : ∀ n ∈ convs, n.op.kind = .conv) : t.arrivals g (ops ++ convs) =
      ops.map fun n =>
        (n.name, n.op, (g.constant? n).bind ((convsOf convs).foldlM (t.pushed g))) := by
  induction ops with
  | nil => exact arrivals_eq_nil hconvs
  | cons n ops ih =>
    obtain ⟨hn, hops⟩ := List.forall_mem_cons.1 hops
    rw [List.cons_append, arrivals_cons_of_ne hn, ih hops, List.map_cons, convsOf_append,
      convsOf_eq_nil hops, List.nil_append]

/-- Operations behind all convolutions show their constants. -/
lemma arrivals_of_behind {ops convs : List Node} (hops : ∀ n ∈ ops, n.op.kind ≠ .conv)
    (hconvs : ∀ n ∈ convs, n.op.kind = .conv) :
    t.arrivals g (convs ++ ops) = ops.map fun n => (n.name, n.op, g.constant? n) := by
  induction convs with
  | nil =>
    have hall : t.arrivals g (ops ++ []) = ops.map fun n =>
        (n.name, n.op, (g.constant? n).bind ((convsOf []).foldlM (t.pushed g))) :=
      arrivals_append hops (by simp)
    rw [List.append_nil] at hall
    rw [List.nil_append, hall]
    simp [convsOf]
  | cons n convs ih =>
    obtain ⟨hn, hconvs⟩ := List.forall_mem_cons.1 hconvs
    rw [List.cons_append, arrivals_cons_of_conv hn, ih hconvs]

/-! ## Arrivals stay the same -/

lemma pushed_congr (hsame : ∀ v ∈ conv.2.2, h.initializers[v]? = g.initializers[v]?)
    (a : Tensor α) : t.pushed h a conv = t.pushed g a conv := by
  obtain ⟨name, op, constants⟩ := conv
  cases t with
  | addPastConv =>
    cases op with
    | conv attrs =>
      cases constants with
      | nil => rfl
      | cons v constants =>
        simp only [pushed, List.head?_cons, Option.bind_eq_bind, Option.bind_some,
          hsame v List.mem_cons_self]
    | _ => rfl
  | mulPastConv => rfl

lemma foldlM_pushed_congr {convs : List (String × Op × List String)}
    (hsame : ∀ c ∈ convs, ∀ v ∈ c.2.2, h.initializers[v]? = g.initializers[v]?) :
    convs.foldlM (t.pushed h) = convs.foldlM (t.pushed g) := by
  funext a
  induction convs generalizing a with
  | nil => rfl
  | cons c convs ih =>
    obtain ⟨hc, hconvs⟩ := List.forall_mem_cons.1 hsame
    rw [List.foldlM_cons, List.foldlM_cons, pushed_congr hc]
    exact congrArg _ (funext fun b => ih hconvs b)

/-- Arrivals stay the same if they do at the end of the list and if the nodes in front of it read
the same constants and meet the same convolutions. -/
lemma arrivals_congr
    (hread : ∀ n ∈ xs, ∀ v ∈ n.inputs, h.initializers[v]? = g.initializers[v]?)
    (hconstants : ∀ c ∈ convsOf ys, ∀ v ∈ c.2.2, h.initializers[v]? = g.initializers[v]?)
    (hconvs : convsOf ys' = convsOf ys) (hys : t.arrivals h ys' = t.arrivals g ys) :
    t.arrivals h (xs ++ ys') = t.arrivals g (xs ++ ys) := by
  induction xs with
  | nil => exact hys
  | cons n xs ih =>
    obtain ⟨hn, hxs⟩ := List.forall_mem_cons.1 hread
    by_cases hconv : n.op.kind = .conv
    · rw [List.cons_append, List.cons_append, arrivals_cons_of_conv hconv,
        arrivals_cons_of_conv hconv, ih hxs]
    · have hbehind : convsOf (xs ++ ys') = convsOf (xs ++ ys) := by
        rw [convsOf_append, convsOf_append, hconvs]
      have hsame : ∀ c ∈ convsOf (xs ++ ys), ∀ v ∈ c.2.2,
          h.initializers[v]? = g.initializers[v]? := by
        intro c hc v hv
        rw [convsOf_append, List.mem_append] at hc
        rcases hc with hc | hc
        · obtain ⟨m, hm, rfl⟩ := List.mem_map.1 hc
          exact hxs m (List.mem_of_mem_filter hm) v (List.mem_of_mem_drop hv)
        · exact hconstants c hc v hv
      rw [List.cons_append, List.cons_append, arrivals_cons_of_ne hconv,
        arrivals_cons_of_ne hconv, ih hxs, constant?_congr hn, hbehind,
        foldlM_pushed_congr hsame]

/-- Arrivals depend on the constants only by what the nodes read. -/
lemma arrivals_congr_of_reads
    (hread : ∀ n ∈ xs, ∀ v ∈ n.inputs, h.initializers[v]? = g.initializers[v]?) :
    t.arrivals h xs = t.arrivals g xs := by
  have hall : t.arrivals h (xs ++ []) = t.arrivals g (xs ++ []) :=
    arrivals_congr hread (by simp [convsOf]) rfl rfl
  rwa [List.append_nil] at hall

lemma arrivals_recording (m : NameMap Shape) (nodes : List Node) :
    t.arrivals (g.recording m) nodes = t.arrivals g nodes :=
  arrivals_congr_of_reads fun _ _ _ _ => rfl

/-- A legal pair pushes its constant. -/
lemma pushed_of_legal (hg : g.WellFormed) {p : Pair g} {value : Tensor α}
    (hkind : p.op.op.kind = t.kind) (hlegal : p.Legal value) :
    ∃ c, g.initializers[p.constant]? = some c ∧
      t.pushed g c (p.conv.name, p.conv.op, p.conv.inputs.drop 1) = some value := by
  cases hlegal with
  | @add addend weights hop hpad haddend hweights hfolded =>
    rw [hop] at hkind
    obtain rfl := eq_addPastConv_of_kind hkind.symm
    have hlen := (hg.arity p.conv p.conv_mem_nodes).length_conv p.conv_op
    obtain ⟨v, rest, hconstants⟩ : ∃ v rest, p.constants = v :: rest := by
      refine List.exists_cons_of_length_pos ?_
      rw [p.conv_inputs, List.length_cons] at hlen
      omega
    have hoperand : p.conv.operand 1 = v := by simp [Node.operand, p.conv_inputs, hconstants]
    rw [hoperand] at hweights
    refine ⟨addend, haddend, ?_⟩
    simp [pushed, p.conv_op, p.conv_inputs, hconstants, hweights, hfolded]
  | mul hop _ hfactor _ =>
    rw [hop] at hkind
    obtain rfl := eq_mulPastConv_of_kind hkind.symm
    exact ⟨value, hfactor, rfl⟩

end RuleChoice

namespace Graph.Line

open RuleChoice

variable {α : Type} [Element α] {t : RuleChoice} {start last : String} {g k : Graph α}

/-- What arrives behind a pair does not change when the two nodes are exchanged: the constant of
the operation has been pushed, and the convolution is not behind it any more. -/
lemma arrivals_pair (hg : g.WellFormed) {p : Pair g} {name : String} {value : Tensor α}
    (hkind : p.op.op.kind = t.kind) (hfree : p.Free name value) (hlegal : p.Legal value)
    (hread : ∀ n ∈ p.after, ∀ v ∈ n.inputs,
      (p.exchange name value).initializers[v]? = g.initializers[v]?) :
    t.arrivals (p.exchange name value) (p.newConv :: p.newOp name :: p.after) =
      t.arrivals g (p.op :: p.conv :: p.after) := by
  have hop := p.op_kind_ne_conv
  have hconv := p.conv_kind
  obtain ⟨c, hc, hpushed⟩ := pushed_of_legal hg hkind hlegal
  have hbefore : g.constant? p.op = some c :=
    constant?_slotted p.op_inputs (isInitializer_eq_false_iff.1 p.start_computed) hc
  have hbehind : (p.exchange name value).constant? (p.newOp name) = some value := by
    have hin : (p.newOp name).inputs = slotted p.slot p.between name := rfl
    refine constant?_slotted hin ?_ ?_
    · rw [Pair.getElem?_initializers_exchange, if_neg (hfree.ne_between hg)]
      exact isInitializer_eq_false_iff.1 (hg.isInitializer_of_written p.between_mem_written)
    · rw [Pair.getElem?_initializers_exchange, if_pos rfl]
  have hconvs : (convsOf p.after).foldlM (t.pushed (p.exchange name value)) =
      (convsOf p.after).foldlM (t.pushed g) := by
    refine foldlM_pushed_congr fun c hc v hv => ?_
    obtain ⟨m, hm, rfl⟩ := List.mem_map.1 hc
    exact hread m (List.mem_of_mem_filter hm) v (List.mem_of_mem_drop hv)
  have hafter : t.arrivals (p.exchange name value) p.after = t.arrivals g p.after :=
    arrivals_congr_of_reads hread
  rw [arrivals_cons_of_conv (n := p.newConv) hconv, arrivals_cons_of_ne (n := p.newOp name) hop,
    arrivals_cons_of_ne hop, arrivals_cons_of_conv hconv, convsOf_cons_of_conv hconv, hbefore,
    hbehind, hconvs, hafter, Option.bind_some, Option.bind_some, List.foldlM_cons, hpushed]
  rfl

/-- **A change keeps what arrives behind all convolutions.** -/
theorem arrivals_advances (hg : Line t start last g) (hstep : g.Advances k) :
    t.arrivals k k.nodes = t.arrivals g g.nodes := by
  obtain ⟨p, name, value, s, hfree, hlegal, -, rfl⟩ := hstep.exists_exchange hg.checked
  have hmid := hg.mid_eq_nil p
  have hread : ∀ n ∈ p.before ++ p.after, ∀ v ∈ n.inputs,
      (p.exchange name value).initializers[v]? = g.initializers[v]? := by
    intro n hn v hv
    refine hfree.initializers_of_read (Pair.mem_readers_of_rest ?_) hv
    simpa [hmid] using hn
  have hop := p.op_kind_ne_conv
  have hconv := p.conv_kind
  have hpair := arrivals_pair hg.checked.wellFormed (hg.op_kind p) hfree hlegal
    fun n hn => hread n (List.mem_append_right _ hn)
  have hconvs : convsOf (p.newConv :: p.newOp name :: p.after) =
      convsOf (p.op :: p.conv :: p.after) := by
    rw [convsOf_cons_of_conv (n := p.newConv) hconv, convsOf_cons_of_ne (n := p.newOp name) hop,
      convsOf_cons_of_ne hop, convsOf_cons_of_conv hconv, p.conv_inputs]
    rfl
  rw [arrivals_recording, nodes_recording, Pair.nodes_exchange, p.nodes_eq, hmid, List.nil_append,
    List.nil_append]
  refine arrivals_congr (fun n hn => hread n (List.mem_append_left _ hn)) (fun c hc v hv => ?_)
    hconvs hpair
  refine Pair.constants_exchange hfree (c := c) ?_ hv
  rw [convs_eq, p.nodes_eq, hmid, List.nil_append, convsOf_append]
  exact List.mem_append_right _ hc

/-- However often the rule changes a line, it stays a line, and what arrives stays the same. -/
lemma reach (hg : Line t start last g) (hreach : Relation.ReflTransGen Advances g k) :
    Line t start last k ∧ t.arrivals k k.nodes = t.arrivals g g.nodes := by
  induction hreach with
  | refl => exact ⟨hg, rfl⟩
  | tail _ hstep ih =>
    obtain ⟨hline, harrivals⟩ := ih
    exact ⟨hline.advances hstep, (hline.arrivals_advances hstep).trans harrivals⟩

end Graph.Line

/-! ## The whole way -/

namespace RuleChoice

open ConvFlow.Graph

variable {σ α : Type} [Element α] {t : RuleChoice} {g₀ g : Graph α} {start last : String}
  {ops convs : List Node}

/-- With fewer inversions than the pass limit a transformation delivers the graph at which its rule
declines. -/
lemma exists_fixedPoint (hg : g.IsChecked) (hlimit : g.inversions t.kind < passLimit) (s : σ) :
    ∃ h, ((t.rule : Rule σ α).transform s g).1 = .ok h ∧ h.IsChecked ∧ t.change h = none ∧
      Relation.ReflTransGen Advances g h := by
  obtain ⟨count, h, hsteps, hdeclines, hh, hle⟩ :=
    Rule.exists_steps_of_moves (r := (t.rule : Rule σ α)) t.rule_kind_cases hg s
  have hdone : ((t.rule : Rule σ α).transform s g).1 = .ok h := by
    rw [Rule.transform_of_steps hg hsteps hdeclines hh, if_pos (by omega)]
  refine ⟨h, hdone, hh, ?_, Rule.reach_of_transform t.rule_cases hg hdone⟩
  rw [attempt_eq_change] at hdeclines
  exact Except.ok.inj (congrArg Prod.fst hdeclines)

/-- **Operations travel through whole chains of convolutions.**  Let the nodes of a checked graph
form a single chain up to its only output, first operations that the rule can move and then
convolutions that let them pass, with fewer pairs of the two than the pass limit.  Then the
transformation succeeds, and it delivers the chain of the convolutions, in their order, and the
operations behind them, in theirs, each on its constant pushed through all convolutions.  The last
operation writes the output. -/
theorem transform_line (t : RuleChoice) (hchecked : g₀.checked = .ok g)
    (hnodes : g.nodes.Perm (ops ++ convs)) (hchain : g.Chain start (ops ++ convs) last)
    (houtputs : g.outputs = [last]) (hops : ∀ n ∈ ops, t.CanMove g n)
    (hconvs : ∀ n ∈ convs, t.LetsPass n) (hsome : ops ≠ [])
    (hlimit : ops.length * convs.length < passLimit) (s : σ) :
    ∃ h convs' ops' n, ((t.rule : Rule σ α).transform s g).1 = .ok h ∧
      h.nodes = convs' ++ ops' ∧
      (convs'.map fun n => (n.name, n.op, n.inputs.drop 1)) =
        (convs.map fun n => (n.name, n.op, n.inputs.drop 1)) ∧
      (ops'.map fun n => (n.name, n.op, h.constant? n)) =
        (ops.map fun n => (n.name, n.op, (g.constant? n).bind (g.convs.foldlM (t.pushed g)))) ∧
      (∀ n ∈ ops', t.CanMove h n) ∧ h.Chain start (convs' ++ ops') last ∧ h.outputs = [last] ∧
      ops'.getLast? = some n ∧ n.outputs = [last] := by
  have hg := Graph.isChecked_of_checked hchecked
  have hopkind : ∀ n ∈ ops, n.op.kind ≠ .conv := fun n hn => (hops n hn).kind ▸ t.kind_ne_conv
  have hconvkind : ∀ n ∈ convs, n.op.kind = .conv := fun n hn => (hconvs n hn).kind
  have heq : g.nodes = ops ++ convs := hchain.eq_of_perm hg.wellFormed.ordered hnodes
  have hline : Line t start last g := by
    refine ⟨hg, heq ▸ hchain, houtputs, fun n hn => ?_⟩
    rw [heq, List.mem_append] at hn
    exact hn.imp (hops n) (hconvs n)
  have hinversions : g.inversions t.kind ≤ ops.length * convs.length :=
    g.inversions_le heq hopkind fun n hn => hconvkind n hn ▸ t.kind_ne_conv.symm
  obtain ⟨h, hdone, hh, hnone, hreach⟩ := exists_fixedPoint hg (hinversions.trans_lt hlimit) s
  obtain ⟨hline', harrivals⟩ := hline.reach hreach
  obtain ⟨convs', ops', hsplit, hconvkind', hopkind'⟩ := hline'.exists_split hnone
  -- The convolutions are the same in both graphs, and so is what arrives behind them.
  have hconvs₁ : g.convs = convsOf convs := by
    rw [convs_eq, heq, convsOf_append, convsOf_eq_nil hopkind, List.nil_append]
  have hconvs₂ : h.convs = convsOf convs' := by
    rw [convs_eq, hsplit, convsOf_append, convsOf_eq_nil hopkind', List.append_nil]
  have hconvs₃ : h.convs = g.convs := (preserves_of_reach hreach hg).convs
  rw [hconvs₁, hconvs₂, convsOf_eq_map hconvkind, convsOf_eq_map hconvkind'] at hconvs₃
  rw [hsplit, heq, arrivals_of_behind hopkind' hconvkind', arrivals_append hopkind hconvkind,
    ← hconvs₁] at harrivals
  have hmem : ∀ m ∈ ops', m ∈ h.nodes := fun m hm => hsplit ▸ List.mem_append_right _ hm
  have hsome' : ops' ≠ [] := by
    rintro rfl
    have hlength := congrArg List.length harrivals
    rw [List.length_map, List.length_map] at hlength
    exact hsome (List.length_eq_zero_iff.1 hlength.symm)
  have hchain' : h.Chain start (convs' ++ ops') last := hsplit ▸ hline'.chain
  obtain ⟨v, -, hbehind⟩ := Chain.append_iff.1 hchain'
  obtain ⟨n, hn, hresult⟩ := hbehind.exists_last hsome'
  have hout : n.outputs = [last] := by
    rw [(hh.wellFormed.arity n (hmem n (List.mem_of_getLast? hn))).results, hresult]
  exact ⟨h, convs', ops', n, hdone, hsplit, hconvs₃, harrivals,
    fun m hm => hline'.canMove (hmem m hm) (hopkind' m hm), hchain', hline'.outputs, hn, hout⟩

/-- An addition of a constant for each channel, and one of a single number. -/
def shiftAndLift : List Node :=
  [⟨"shift", .add, ["x", "offsets"], ["a"]⟩, ⟨"lift", .add, ["one", "a"], ["b"]⟩]

/-- A convolution with two groups, and one that joins them. -/
def splitAndJoin : List Node :=
  [⟨"split", .conv { kernel := ⟨1, 1⟩, group := 2 }, ["b", "w"], ["c"]⟩,
    ⟨"join", .conv { kernel := ⟨2, 2⟩ }, ["c", "v"], ["y"]⟩]

/-- The two additions in front of the two convolutions, with the nodes listed backwards. -/
def twoAdditions : Graph Rat where
  name := "additions"
  inputs := [⟨"x", [1, 2, 2, 2]⟩]
  outputs := ["y"]
  nodes := (shiftAndLift ++ splitAndJoin).reverse
  initializers := Std.ExtTreeMap.ofList ([
    ("offsets", ⟨[1, 2, 1, 1], #[10, 20], rfl⟩),
    ("one", .fill [1] 1),
    ("v", .fill [1, 2, 2, 2] 1),
    ("w", ⟨[2, 1, 1, 1], #[2, 3], rfl⟩)] : List (String × Tensor Rat)) compare
  valueShapes := ∅

/-- Both additions move past both convolutions, in their order. -/
theorem twoAdditions_travel : ∃ g h convs ops n, twoAdditions.checked = .ok g ∧
    ((addPastConv.rule : Rule Unit Rat).transform () g).1 = .ok h ∧ h.nodes = convs ++ ops ∧
    convs.map (·.name) = ["split", "join"] ∧ ops.map (·.name) = ["shift", "lift"] ∧
    ops.getLast? = some n ∧ n.outputs = ["y"] := by
  obtain ⟨g, hg, hnodes, houtputs, hchain, hoffsets, hone, hshapes⟩ : ∃ g,
      twoAdditions.checked = .ok g ∧ g.nodes = shiftAndLift ++ splitAndJoin ∧ g.outputs = ["y"] ∧
      g.Chain "x" (shiftAndLift ++ splitAndJoin) "y" ∧
      g.initializers["offsets"]? = some ⟨[1, 2, 1, 1], #[10, 20], rfl⟩ ∧
      g.initializers["one"]? = some (.fill [1] 1) ∧
      ∀ n ∈ shiftAndLift, ∀ v ∈ g.computedInputs n,
        g.valueShapes[n.result]? = g.valueShapes[v]? :=
    ⟨_, rfl, by decide +kernel, rfl, by decide +kernel, by decide +kernel, by decide +kernel,
      by decide +kernel⟩
  have hops : ∀ n ∈ shiftAndLift, addPastConv.CanMove g n := by
    intro n hn
    refine ⟨?_, ?_, hshapes n hn⟩
    · revert n
      decide
    · rcases List.mem_pair.1 hn with rfl | rfl
      · exact ⟨"offsets", by decide, _, hoffsets, Or.inr ⟨rfl, 2, rfl⟩⟩
      · exact ⟨"one", by decide, _, hone, Or.inl rfl⟩
  have hconvs : ∀ n ∈ splitAndJoin, addPastConv.LetsPass n := by
    intro n hn
    rcases List.mem_pair.1 hn with rfl | rfl <;> exact ⟨_, rfl, rfl⟩
  obtain ⟨h, convs, ops, n, hdone, hsplit, hconvs', hops', -, -, -, hlast, hout⟩ :=
    transform_line addPastConv hg (.of_eq hnodes) hchain houtputs hops hconvs (by decide)
      (by decide) ()
  refine ⟨g, h, convs, ops, n, hg, hdone, hsplit, ?_, ?_, hlast, hout⟩
  · simpa [splitAndJoin, Function.comp_def] using congrArg (List.map Prod.fst) hconvs'
  · simpa [shiftAndLift, Function.comp_def] using congrArg (List.map Prod.fst) hops'

end RuleChoice

end ConvFlow
