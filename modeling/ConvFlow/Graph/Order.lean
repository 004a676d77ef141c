/-
# Ordering the nodes of a graph

`Graph.sort` brings the nodes into an order in which every node comes after the nodes whose
results it reads.  Of all nodes that could come next it always takes the one that stood first, so
nodes keep their order wherever the data allows it.

The sort also says which graph it leaves behind.  If nodes wait for each other, those that could
be placed stand in front and the others follow in their old order; if it fails before it starts
placing, the graph is as it was.
-/
import ConvFlow.Graph.Error

namespace ConvFlow.Graph

variable {α : Type}

/-- The first name of a list that is taken, or that occurs earlier in the list. -/
def firstClash (taken : List String) : List String → Option String
  | [] => none
  | v :: vs => if v ∈ taken then some v else firstClash (v :: taken) vs

/-- Every value is written at most once, and neither inputs nor constants are. -/
def checkProducers (g : Graph α) : Except Error Unit :=
  match firstClash g.sources g.results with
  | some v => .error (.duplicateProducer v)
  | none => .ok ()

/-- Every value that a node reads is an input, a constant or the result of some node. -/
def checkReads (g : Graph α) : Except Error Unit :=
  let known := g.sources ++ g.results
  let dangling := g.nodes.findSome? fun n =>
    (n.inputs.find? fun v => !known.contains v).map fun v => Error.danglingReference n.name v
  match dangling with
  | some e => .error e
  | none => .ok ()

/-- The first entry that satisfies the test, and the list without it. -/
def takeFirst {β : Type} (test : β → Bool) : List β → Option (β × List β)
  | [] => none
  | b :: bs => if test b then some (b, bs) else (takeFirst test bs).map fun (c, cs) => (c, b :: cs)

/-- Place nodes whose operands are all available, one in each round, always the first of them;
the second list holds those that could not be placed. -/
def place (available : List String) : (rounds : Nat) → List Node → List Node × List Node
  | 0, pending => ([], pending)
  | rounds + 1, pending =>
    match takeFirst (fun n => n.inputs.all available.contains) pending with
    | none => ([], pending)
    | some (n, rest) =>
      let (placed, stuck) := place (n.outputs ++ available) rounds rest
      (n :: placed, stuck)

/-- Sort the nodes: the graph left behind, and whether the sort succeeded. -/
def sort (g : Graph α) : Graph α × Except Error Unit :=
  match g.checkProducers with
  | .error e => (g, .error e)
  | .ok () =>
    match g.checkReads with
    | .error e => (g, .error e)
    | .ok () =>
      let (placed, stuck) := place g.sources g.nodes.length g.nodes
      ({ g with nodes := placed ++ stuck },
        if stuck.isEmpty then .ok () else .error (.cycle (stuck.map (·.name))))

/-- The graph with its nodes sorted. -/
def sorted (g : Graph α) : Except Error (Graph α) :=
  match g.sort with
  | (h, .ok ()) => .ok h
  | (_, .error e) => .error e

end ConvFlow.Graph
