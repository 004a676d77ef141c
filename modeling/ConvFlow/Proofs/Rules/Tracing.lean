/-
# Following the rules without inferring shapes

A rule reads the recorded shapes only to see whether an operation keeps the shape of its operand.
Where everything that is computed has one shape, it always does, so what the rule makes of such a
graph is the same with other shapes recorded (`moveAt_recording`), and the shapes of a graph before
a move serve for the graph behind it as well (`exists_advance`).

`RuleChoice.change` looks for a place to change the graph only among the operations that stand
directly in front of a convolution.  Nothing is missed that way (`attempt_eq_change`).
-/
import ConvFlow.Proofs.Rules.Termination
import ConvFlow.Settings

namespace ConvFlow

open Outcome

variable {σ α : Type}

namespace RuleChoice

/-- The kind of the operations that the rule moves. -/
def kind : RuleChoice → OpKind
  | addPastConv => .add
  | mulPastConv => .mul

variable [Element α] {t : RuleChoice} {g h : Graph α} {i : Nat}

/-- What the rule makes of the operation at a position. -/
def moveAt : RuleChoice → Graph α → Nat → Option (Graph α)
  | addPastConv => Rule.addPastConvAt
  | mulPastConv => Rule.mulPastConvAt

lemma kind_cases (t : RuleChoice) : t.kind = .add ∨ t.kind = .mul := by
  cases t with
  | addPastConv => exact Or.inl rfl
  | mulPastConv => exact Or.inr rfl

lemma rule_cases (t : RuleChoice) :
    (t.rule : Rule σ α) = Rule.addPastConv ∨ (t.rule : Rule σ α) = Rule.mulPastConv := by
  cases t with
  | addPastConv => exact Or.inl rfl
  | mulPastConv => exact Or.inr rfl

lemma eq_addPastConv_of_kind (h : t.kind = .add) : t = .addPastConv := by
  cases t with
  | addPastConv => rfl
  | mulPastConv => simp [kind] at h

lemma eq_mulPastConv_of_kind (h : t.kind = .mul) : t = .mulPastConv := by
  cases t with
  | addPastConv => simp [kind] at h
  | mulPastConv => rfl

/-- The two rules, each with the kind of its operations. -/
lemma rule_kind_cases (t : RuleChoice) :
    (t.rule : Rule σ α) = Rule.addPastConv ∧ t.kind = .add ∨
      (t.rule : Rule σ α) = Rule.mulPastConv ∧ t.kind = .mul := by
  cases t with
  | addPastConv => exact Or.inl ⟨rfl, rfl⟩
  | mulPastConv => exact Or.inr ⟨rfl, rfl⟩

lemma movesOf_of_moveAt (hg : g.IsChecked) (h' : t.moveAt g i = some h) :
    Graph.MovesOf t.kind g h := by
  cases t with
  | addPastConv => exact Graph.movesOf_of_addPastConvAt hg h'
  | mulPastConv => exact (Graph.movesOf_of_mulPastConvAt hg h').1

/-- Only an operation at a site is moved. -/
lemma exists_site_of_moveAt (h' : t.moveAt g i = some h) :
    ∃ site, g.site? t.kind i = some site := by
  cases t with
  | addPastConv =>
    obtain ⟨site, hsite, -⟩ := Option.bind_eq_some_iff.1 h'
    exact ⟨site, hsite⟩
  | mulPastConv =>
    obtain ⟨site, hsite, -⟩ := Option.bind_eq_some_iff.1 h'
    exact ⟨site, hsite⟩

end RuleChoice

/-! ## Where to look -/

section Search

variable {β γ : Type} {p : β → Bool} {f : β → Option γ}

/-- Candidates without a result can be left out of a search. -/
lemma findSome?_filter {l : List β} (h : ∀ b ∈ l, ∀ c, f b = some c → p b = true) :
    (l.filter p).findSome? f = l.findSome? f := by
  induction l with
  | nil => rfl
  | cons b l ih =>
    obtain ⟨hb, hl⟩ := List.forall_mem_cons.1 h
    rw [List.filter_cons, List.findSome?_cons]
    cases hresult : f b with
    | some c => rw [if_pos (hb c hresult), List.findSome?_cons, hresult]
    | none =>
      split
      · rw [List.findSome?_cons, hresult]
        exact ih hl
      · exact ih hl

end Search

/-- The positions of the operations of a kind whose result is the image of a convolution. -/
def Graph.fronts (g : Graph α) (kind : OpKind) : List Nat :=
  (List.range g.nodes.length).filter fun i => g.nodes[i]?.any fun n =>
    n.op.kind == kind && g.nodes.any fun c => c.op.kind == .conv && c.operand 0 == n.result

namespace RuleChoice

variable [Element α] {t : RuleChoice} {g h : Graph α} {i : Nat}

/-- One change by the rule, found in front of a convolution. -/
def change (t : RuleChoice) (g : Graph α) : Option (Graph α) :=
  (g.fronts t.kind).findSome? (t.moveAt g)

lemma change_eq_findSome? :
    t.change g = (List.range g.nodes.length).findSome? (t.moveAt g) := by
  refine findSome?_filter fun i _ h hmove => ?_
  obtain ⟨site, hsite⟩ := exists_site_of_moveAt hmove
  obtain ⟨n, c, hn, hkind, -, -, -, -, hc, hplain, -, -⟩ := Graph.site?_eq_some hsite
  simp only [Graph.isPlainConv, Bool.and_eq_true] at hplain
  rw [hn, Option.any_some, hkind, beq_self_eq_true, Bool.true_and]
  refine List.any_eq_true.2 ⟨c, List.mem_of_getElem? hc, ?_⟩
  rw [hplain.1.1, hplain.1.2, Bool.and_self]

/-- The search of a rule comes to the same. -/
lemma attempt_eq_change (s : σ) : (t.rule : Rule σ α).attempt s g = (.ok (t.change g), s) := by
  rw [change_eq_findSome?]
  cases t with
  | addPastConv => rfl
  | mulPastConv => rfl

/-- Nothing in front of a convolution, nothing to change. -/
lemma change_eq_none (hfronts : g.fronts t.kind = []) : t.change g = none := by
  rw [change, hfronts]
  rfl

end RuleChoice

/-! ## Other shapes recorded -/

namespace Graph

variable {g : Graph α} {m : NameMap Shape} {n : Node} {s : Shape} {kind : OpKind} {slot : Nat}

/-- The graph with other shapes recorded. -/
def recording (g : Graph α) (m : NameMap Shape) : Graph α := { g with valueShapes := m }

@[simp] lemma nodes_recording : (g.recording m).nodes = g.nodes := rfl

@[simp] lemma initializers_recording : (g.recording m).initializers = g.initializers := rfl

/-- Whatever is computed has the same shape. -/
def Uniform (s : Shape) (m : NameMap Shape) (g : Graph α) : Prop :=
  ∀ n ∈ g.nodes, ∀ v ∈ n.inputs ++ n.outputs, g.isInitializer v = false → m[v]? = some s

instance (s : Shape) (m : NameMap Shape) (g : Graph α) : Decidable (g.Uniform s m) :=
  inferInstanceAs (Decidable (∀ n ∈ g.nodes, ∀ v ∈ n.inputs ++ n.outputs,
    g.isInitializer v = false → m[v]? = some s))

/-- Where everything has one shape, every operation keeps it. -/
lemma Uniform.keepsShape (hm : g.Uniform s m) (hg : g.WellFormed) (hn : n ∈ g.nodes)
    (hop : n.IsElementwise) (hslot : g.dataSlot? n = some slot) :
    (g.recording m).keepsShape n slot = true := by
  have harity := hg.arity n hn
  have hlen := harity.length_elementwise hop
  obtain ⟨hlt, -, hcomputed, -⟩ := dataSlot?_eq_some hslot hlen
  have hread : m[n.operand slot]? = some s :=
    hm n hn _ (List.mem_append_left _ (Node.operand_mem (hlen ▸ hlt))) hcomputed
  have hresult : m[n.result]? = some s :=
    hm n hn _ (List.mem_append_right _ harity.result_mem)
      (hg.isInitializer_of_written (result_mem_written hn))
  have hread' : (g.recording m).valueShapes[n.operand slot]? = some s := hread
  have hresult' : (g.recording m).valueShapes[n.result]? = some s := hresult
  rw [Graph.keepsShape, hread', hresult']
  exact beq_self_eq_true _

/-- A site is found whatever shapes are recorded, as long as the operations keep them. -/
lemma site?_recording {i : Nat} (hkeeps : ∀ n ∈ g.nodes, n.op.kind = kind →
      ∀ slot, g.dataSlot? n = some slot →
        (g.recording m).keepsShape n slot = true ∧ g.keepsShape n slot = true) :
    (g.recording m).site? kind i = g.site? kind i := by
  unfold site?
  cases hn : g.nodes[i]? with
  | none => simp [hn]
  | some n =>
    by_cases hkind : n.op.kind = kind
    · cases hslot : g.dataSlot? n with
      | none =>
        have hslot' : (g.recording m).dataSlot? n = none := hslot
        simp [hn, hslot, hslot']
      | some slot =>
        obtain ⟨hother, hown⟩ := hkeeps n (List.mem_of_getElem? hn) hkind slot hslot
        have hslot' : (g.recording m).dataSlot? n = some slot := hslot
        simp only [hn, nodes_recording, Option.bind_eq_bind, Option.bind_some, hslot, hslot',
          hother, hown]
        rfl
    · simp [hn, hkind]

lemma moveAlong_recording (site : Site) :
    (g.recording m).moveAlong site = (g.moveAlong site).recording m := by
  rw [moveAlong, moveAlong, nodes_recording]
  split <;> rfl

end Graph

namespace RuleChoice

variable [Element α] {t : RuleChoice} {g : Graph α} {m : NameMap Shape} {s : Shape}

/-- **Where everything has one shape, a rule makes the same of a graph with other shapes
recorded.** -/
theorem moveAt_recording (hg : g.WellFormed) (hm : g.Uniform s m)
    (hs : g.Uniform s g.valueShapes) (i : Nat) :
    t.moveAt (g.recording m) i = (t.moveAt g i).map fun h => h.recording m := by
  have hsite : (g.recording m).site? t.kind i = g.site? t.kind i := by
    refine Graph.site?_recording fun n hn hkind slot hslot => ?_
    have hop := Graph.isElementwise_of_kind t.kind_cases hkind
    exact ⟨hm.keepsShape hg hn hop hslot, hs.keepsShape hg hn hop hslot⟩
  cases t with
  | addPastConv =>
    have hconstant (site : Graph.Site) (name : String) (value : Tensor α) :
        Rule.withConstant (g.recording m) site name value =
          (Rule.withConstant g site name value).recording m := rfl
    have hname (site : Graph.Site) :
        Rule.addendName (g.recording m) site = Rule.addendName g site := rfl
    simp only [moveAt, Rule.addPastConvAt, kind] at hsite ⊢
    rw [hsite]
    cases g.site? .add i with
    | none => rfl
    | some site =>
      simp only [Option.bind_eq_bind, Option.bind_some, Graph.nodes_recording,
        Graph.initializers_recording]
      cases g.nodes[site.conv]? with
      | none => rfl
      | some c =>
        simp only [Option.bind_some]
        split
        · simp only [hconstant, hname, Graph.moveAlong_recording, Option.map_bind,
            Function.comp_def, Option.pure_def, Option.map_some]
        · rfl
  | mulPastConv =>
    simp only [moveAt, Rule.mulPastConvAt, kind] at hsite ⊢
    rw [hsite]
    simp only [Graph.moveAlong_recording, Option.bind_eq_bind, Option.map_bind,
      Function.comp_def, Option.pure_def, Option.map_some, Graph.nodes_recording,
      Graph.initializers_recording]

lemma change_recording (hg : g.WellFormed) (hm : g.Uniform s m) (hs : g.Uniform s g.valueShapes) :
    t.change (g.recording m) = (t.change g).map fun h => h.recording m := by
  have hmove : t.moveAt (g.recording m) = fun i => (t.moveAt g i).map fun h => h.recording m :=
    funext fun i => moveAt_recording hg hm hs i
  have hfronts : (g.recording m).fronts t.kind = g.fronts t.kind := rfl
  rw [change, change, hfronts, hmove, List.map_findSome?]
  rfl

end RuleChoice

/-! ## One move -/

namespace Graph.Pair

variable {g : Graph α} {p : Pair g} {name : String} {value : Tensor α} {m : NameMap Shape}
  {s : Shape}

/-- A name that is no constant after a move was none before, and is not the name of the move. -/
lemma computed_of_exchange {v : String} (hv : (p.exchange name value).isInitializer v = false) :
    name ≠ v ∧ g.isInitializer v = false := by
  rw [isInitializer_eq_false_iff, getElem?_initializers_exchange] at hv
  split at hv
  · simp at hv
  · rename_i hne
    exact ⟨hne, isInitializer_eq_false_iff.2 hv⟩

/-- The nodes of a move read and write the names that the graph had, apart from the constant. -/
lemma uniform_exchange (hm : g.Uniform s m) : (p.exchange name value).Uniform s m := by
  intro n hn v hv hinit
  obtain ⟨hname, hcomputed⟩ := computed_of_exchange hinit
  rcases mem_nodes_exchange hn with rfl | rfl | hrest
  · simp only [newConv, List.mem_append, List.mem_cons, List.not_mem_nil, or_false] at hv
    rcases hv with (rfl | hconstant) | rfl
    · exact hm p.op p.op_mem_nodes _ (List.mem_append_left _ p.start_mem) hcomputed
    · simp [p.constants_known v hconstant] at hcomputed
    · exact hm p.op p.op_mem_nodes _ (by simp [p.op_outputs]) hcomputed
  · simp only [newOp, List.mem_append, List.mem_singleton] at hv
    rcases hv with hslotted | rfl
    · have hbetween : v = p.between := by
        rw [slotted] at hslotted
        split at hslotted
        · exact (List.mem_pair.1 hslotted).resolve_right hname.symm
        · exact (List.mem_pair.1 hslotted).resolve_left hname.symm
      rw [hbetween] at hcomputed ⊢
      exact hm p.op p.op_mem_nodes _ (by simp [p.op_outputs]) hcomputed
    · exact hm p.conv p.conv_mem_nodes _ (by simp [p.conv_outputs]) hcomputed
  · exact hm n (mem_nodes_of_rest hrest) v hv hcomputed

end Graph.Pair

namespace RuleChoice

variable [Element α] {t : RuleChoice} {g e : Graph α} {m : NameMap Shape} {s : Shape}

/-- **A change is followed without inferring shapes.**  If everything in a checked graph has one
shape, then so it is after a change, and the rule makes of the graph with other shapes recorded
what it makes of the graph itself. -/
theorem exists_advance (hg : g.IsChecked) (hm : g.Uniform s m) (hs : g.Uniform s g.valueShapes)
    (he : t.change (g.recording m) = some e) : ∃ h k, t.change g = some h ∧
      Graph.MovesOf t.kind g h ∧ h.inferShapes = .ok k ∧ e = k.recording m ∧ k.Uniform s m ∧
      k.Uniform s k.valueShapes := by
  rw [change_recording hg.wellFormed hm hs] at he
  obtain ⟨h, hchange, rfl⟩ := Option.map_eq_some_iff.1 he
  obtain ⟨i, -, hmove⟩ := List.exists_of_findSome?_eq_some hchange
  obtain ⟨p, name, value, hkind, hfree, hlegal, rfl⟩ := movesOf_of_moveAt hg hmove
  obtain ⟨out, hlast, hinfer⟩ := Graph.Pair.inferShapes_exchange hg hfree hlegal
  refine ⟨_, _, hchange, ⟨p, name, value, hkind, hfree, hlegal, rfl⟩, hinfer, rfl,
    p.uniform_exchange hm, fun n hn v hv hinit => ?_⟩
  -- The value between the two nodes takes the shape of the last one, which is that of all others.
  have hlast' := hs p.conv p.conv_mem_nodes p.last (by simp [p.conv_outputs])
    (hg.wellFormed.isInitializer_of_written p.last_mem_written)
  obtain rfl : out = s := Option.some.inj (hlast.symm.trans hlast')
  by_cases hbetween : v = p.between
  · rw [hbetween]
    exact Graph.Pair.getElem?_table_between
  · rw [Graph.Pair.getElem?_table_of_ne hbetween]
    · exact p.uniform_exchange hs n hn v hv hinit
    · have hcomputed : (p.exchange name value).isInitializer v = false := hinit
      exact (Graph.Pair.computed_of_exchange hcomputed).1.symm

end RuleChoice

end ConvFlow
