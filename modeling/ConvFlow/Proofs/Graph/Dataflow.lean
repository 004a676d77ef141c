/-
# Tables filled along the nodes of a graph

Shape inference and execution do the same with different entries: they start from a table of the
sources, visit the nodes in order, compute an entry from the entries of a node's operands, and
store it under the name of the node's result.  `fill` is this loop for any way of computing an
entry.

Nodes are `Ordered` if each reads only names that are known when it runs and writes a name that
is not known yet.  The main statement, `fill_eq_ok_iff`, says that the table filled along ordered
nodes is the only one that solves the equations of the nodes (`Solves`).  The equations do not
mention the order of the nodes, so nodes may be exchanged as long as their equations keep a
solution.
-/
import Mathlib.Data.Set.Insert
import ConvFlow.Graph.WellFormed
import ConvFlow.Proofs.Outcome

namespace ConvFlow

open Outcome

namespace NameMap

variable {β : Type}

lemma getElem?_insert (m : NameMap β) (k v : String) (b : β) :
    (m.insert k b)[v]? = if k = v then some b else m[v]? := by
  simp [Std.ExtTreeMap.getElem?_insert]

@[simp] lemma getElem?_insert_same (m : NameMap β) (k : String) (b : β) :
    (m.insert k b)[k]? = some b := by
  simp

lemma getElem?_insert_of_ne {k v : String} (h : k ≠ v) (m : NameMap β) (b : β) :
    (m.insert k b)[v]? = m[v]? := by
  rw [getElem?_insert, if_neg h]

/-- Entries under different names may be stored in any order. -/
lemma insert_comm {k l : String} (h : k ≠ l) (m : NameMap β) (b c : β) :
    (m.insert k b).insert l c = (m.insert l c).insert k b := by
  refine Std.ExtTreeMap.ext_getElem? ?_
  intro v
  simp only [getElem?_insert]
  split
  · rename_i hl
    rw [if_neg (hl ▸ h)]
  · rfl

end NameMap

namespace Node

/-- The node has as many operands as its operation takes, and one result. -/
structure FitsArity (n : Node) : Prop where
  operands : Graph.takesOperands n.op.kind n.inputs.length = true
  results : n.outputs = [n.result]

/-- What the node writes first is all that it writes. -/
lemma FitsArity.result_mem {n : Node} (h : n.FitsArity) : n.result ∈ n.outputs := by
  rw [h.results]
  exact List.mem_singleton_self _

/-- An operand that the node has is one of the names that it reads. -/
lemma operand_mem {n : Node} {i : Nat} (h : i < n.inputs.length) : n.operand i ∈ n.inputs := by
  simp [operand, h]

end Node

namespace Graph

/-- The names that the nodes write. -/
def written (nodes : List Node) : Set String := {v | ∃ n ∈ nodes, n.result = v}

@[simp] lemma written_nil : written [] = ∅ := by
  simp [written]

@[simp] lemma written_cons (n : Node) (nodes : List Node) :
    written (n :: nodes) = insert n.result (written nodes) := by
  ext v
  simp [written, eq_comm]

@[simp] lemma written_append (xs ys : List Node) :
    written (xs ++ ys) = written xs ∪ written ys := by
  ext v
  simp [written, or_and_right, exists_or]

lemma result_mem_written {n : Node} {nodes : List Node} (h : n ∈ nodes) :
    n.result ∈ written nodes := ⟨n, h, rfl⟩

/-- The order of the nodes plays no role for the names that they write. -/
lemma written_perm {xs ys : List Node} (h : xs.Perm ys) : written xs = written ys := by
  ext v
  show (∃ n ∈ xs, n.result = v) ↔ ∃ n ∈ ys, n.result = v
  simp only [h.mem_iff]

/-- Each node reads only known names and writes an unknown one, which is known from then on. -/
def Ordered : Set String → List Node → Prop
  | _, [] => True
  | known, n :: rest =>
    (∀ v ∈ n.inputs, v ∈ known) ∧ n.result ∉ known ∧ Ordered (insert n.result known) rest

namespace Ordered

variable {known other : Set String} {xs ys : List Node}

lemma append_iff : Ordered known (xs ++ ys) ↔
    Ordered known xs ∧ Ordered (known ∪ written xs) ys := by
  induction xs generalizing known with
  | nil => simp [Ordered]
  | cons n xs ih =>
    have hset : insert n.result known ∪ written xs = known ∪ written (n :: xs) := by
      rw [written_cons, Set.union_insert, Set.insert_union]
    rw [List.cons_append, Ordered, Ordered, ih, hset, and_assoc, and_assoc]

/-- A known name is not written. -/
lemma notMem_written (h : Ordered known xs) {v : String} (hv : v ∈ known) : v ∉ written xs := by
  induction xs generalizing known with
  | nil => simp
  | cons n xs ih =>
    obtain ⟨-, hnew, hrest⟩ := h
    rw [written_cons, Set.mem_insert_iff, not_or]
    exact ⟨fun heq => hnew (heq ▸ hv), ih hrest (Set.mem_insert_of_mem _ hv)⟩

/-- A node reads only what sources and earlier nodes provide. -/
lemma notMem_written_of_reads {n : Node} (h : Ordered known (xs ++ n :: ys)) {v : String}
    (hv : v ∈ n.inputs) : v ∉ written (n :: ys) := by
  obtain ⟨-, hys⟩ := append_iff.1 h
  exact hys.notMem_written (hys.1 v hv)

/-- Nodes stay ordered over other known names, if these contain all that the nodes read and
nothing that the nodes write. -/
lemma of_reads (h : Ordered known xs)
    (hread : ∀ n ∈ xs, ∀ v ∈ n.inputs, v ∈ known → v ∈ other)
    (hwrite : ∀ v ∈ other, v ∉ written xs) : Ordered other xs := by
  induction xs generalizing known other with
  | nil => trivial
  | cons n xs ih =>
    obtain ⟨hin, hnew, hrest⟩ := h
    refine ⟨fun v hv => hread n (by simp) v hv (hin v hv), fun hmem => ?_, ?_⟩
    · exact hwrite n.result hmem (by simp)
    · refine ih hrest (fun k hk v hv hknown => ?_) (fun v hv => ?_)
      · rcases Set.mem_insert_iff.1 hknown with rfl | hknown
        · exact Set.mem_insert _ _
        · exact Set.mem_insert_of_mem _ (hread k (by simp [hk]) v hv hknown)
      · rcases Set.mem_insert_iff.1 hv with rfl | hv
        · exact hrest.notMem_written (Set.mem_insert _ _)
        · exact fun hmem => hwrite v hv (by simp [hmem])

end Ordered

/-! ## Filling a table -/

variable {ε β : Type}

/-- What is computed at a node that fits its arity depends only on the entries of its operands. -/
def ReadsOperands (f : NameMap β → Node → Except ε β) : Prop :=
  ∀ (m m' : NameMap β) (n : Node), n.FitsArity → (∀ v ∈ n.inputs, m[v]? = m'[v]?) → f m n = f m' n

/-- Compute the entry of each node in turn. -/
def fill (f : NameMap β → Node → Except ε β) (start : NameMap β) (nodes : List Node) :
    Except ε (NameMap β) :=
  nodes.foldlM (fun m n => (f m n).map (m.insert n.result)) start

/-- The table holds at each result what is computed from the table itself, and agrees with the
start everywhere else. -/
structure Solves (f : NameMap β → Node → Except ε β) (start : NameMap β) (nodes : List Node)
    (m : NameMap β) : Prop where
  frame : ∀ v, v ∉ written nodes → m[v]? = start[v]?
  entry : ∀ n ∈ nodes, ∃ b, f m n = .ok b ∧ m[n.result]? = some b

section Fill

variable {f : NameMap β → Node → Except ε β} {start m : NameMap β} {known : Set String}
  {nodes xs ys : List Node}

/-- The equations of the nodes do not mention their order. -/
lemma Solves.perm (h : Solves f start xs m) (hperm : xs.Perm ys) : Solves f start ys m := by
  refine ⟨fun v hv => ?_, fun n hn => ?_⟩
  · rw [← written_perm hperm] at hv
    exact h.frame v hv
  · exact h.entry n (hperm.mem_iff.2 hn)

@[simp] lemma fill_nil : fill f start [] = .ok start := rfl

lemma fill_cons_eq_ok_iff {n : Node} : fill f start (n :: nodes) = .ok m ↔
    ∃ b, f start n = .ok b ∧ fill f (start.insert n.result b) nodes = .ok m := by
  simp only [fill, List.foldlM_cons, bind_eq_ok_iff, map_eq_ok_iff]
  constructor
  · rintro ⟨_, ⟨b, hb, rfl⟩, hm⟩
    exact ⟨b, hb, hm⟩
  · rintro ⟨b, hb, hm⟩
    exact ⟨_, ⟨b, hb, rfl⟩, hm⟩

lemma fill_append_eq_ok_iff : fill f start (xs ++ ys) = .ok m ↔
    ∃ mid, fill f start xs = .ok mid ∧ fill f mid ys = .ok m := by
  rw [fill, List.foldlM_append, bind_eq_ok_iff]
  rfl

/-- Filling changes nothing but the entries of results. -/
lemma fill_frame (h : fill f start nodes = .ok m) {v : String} (hv : v ∉ written nodes) :
    m[v]? = start[v]? := by
  induction nodes generalizing start with
  | nil =>
    obtain rfl : start = m := by simpa using h
    rfl
  | cons n nodes ih =>
    rw [written_cons, Set.mem_insert_iff, not_or] at hv
    obtain ⟨b, -, hrest⟩ := fill_cons_eq_ok_iff.1 h
    rw [ih hrest hv.2, NameMap.getElem?_insert_of_ne (Ne.symm hv.1)]

/-- A table filled along ordered nodes solves their equations: an operand keeps the entry that it
had when the node ran. -/
lemma solves_of_fill (hf : ReadsOperands f) (ha : ∀ n ∈ nodes, n.FitsArity)
    (ho : Ordered known nodes) (h : fill f start nodes = .ok m) : Solves f start nodes m := by
  refine ⟨fun v hv => fill_frame h hv, ?_⟩
  induction nodes generalizing start known with
  | nil => simp
  | cons n nodes ih =>
    obtain ⟨hin, hnew, hrest⟩ := ho
    obtain ⟨b, hb, hfill⟩ := fill_cons_eq_ok_iff.1 h
    rintro k hk
    -- No later node writes the name of an operand, so its entry is still the one that was read.
    rcases List.mem_cons.1 hk with rfl | hk
    · refine ⟨b, ?_, ?_⟩
      · rw [← hb]
        refine hf _ _ _ (ha _ (by simp)) fun v hv => ?_
        have hne : k.result ≠ v := fun heq => hnew (heq ▸ hin v hv)
        rw [fill_frame hfill (hrest.notMem_written (Set.mem_insert_of_mem _ (hin v hv))),
          NameMap.getElem?_insert_of_ne hne]
      · rw [fill_frame hfill (hrest.notMem_written (Set.mem_insert _ _)),
          NameMap.getElem?_insert_same]
    · exact ih (fun k hk => ha k (by simp [hk])) hrest hfill k hk

/-- A solution of the equations is what filling computes. -/
lemma fill_of_solves (hf : ReadsOperands f) (ha : ∀ n ∈ nodes, n.FitsArity)
    (ho : Ordered known nodes) (h : Solves f start nodes m) : fill f start nodes = .ok m := by
  induction nodes generalizing start known with
  | nil =>
    have heq : start = m := Std.ExtTreeMap.ext_getElem? fun v => (h.frame v (by simp)).symm
    rw [fill_nil, heq]
  | cons n nodes ih =>
    have hall := ho
    obtain ⟨hin, hnew, hrest⟩ := ho
    obtain ⟨b, hb, hres⟩ := h.entry n (by simp)
    -- The first node finds its operands among the known names, where the solution is the start.
    have hstart : f start n = .ok b := by
      rw [← hb]
      exact hf _ _ _ (ha _ (by simp)) fun v hv => (h.frame v (hall.notMem_written (hin v hv))).symm
    refine fill_cons_eq_ok_iff.2 ⟨b, hstart, ?_⟩
    refine ih (fun k hk => ha k (by simp [hk])) hrest ⟨fun v hv => ?_, fun k hk => ?_⟩
    · rcases eq_or_ne n.result v with rfl | hne
      · rw [hres, NameMap.getElem?_insert_same]
      · rw [NameMap.getElem?_insert_of_ne hne]
        refine h.frame v ?_
        rw [written_cons, Set.mem_insert_iff, not_or]
        exact ⟨Ne.symm hne, hv⟩
    · exact h.entry k (by simp [hk])

/-- **The table filled along ordered nodes is the only solution of their equations.** -/
theorem fill_eq_ok_iff (hf : ReadsOperands f) (ha : ∀ n ∈ nodes, n.FitsArity)
    (ho : Ordered known nodes) : fill f start nodes = .ok m ↔ Solves f start nodes m :=
  ⟨solves_of_fill hf ha ho, fill_of_solves hf ha ho⟩

end Fill

end Graph

end ConvFlow
