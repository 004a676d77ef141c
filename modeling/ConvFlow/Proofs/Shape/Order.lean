/-
# The order behind joined shapes

A shape stretches to another one if it has no more axes and each of its extents, aligned from the
innermost axis outwards, is one or the same as the other's.  This is an order on shapes, and
`Shape.broadcast` computes joins in it: shapes have a joined shape exactly if both stretch to a
common one, and the joined shape stretches to exactly the shapes to which both stretch
(`broadcast_eq_some_iff`).  The laws of joining follow from this description, without another look
at how extents are joined.

The main statement, `broadcast_partial_join`, collects these laws.
-/
import ConvFlow.Proofs.Shape

namespace ConvFlow.Shape

variable {a b c d u : Shape} {as bs cs ds us : List Nat}

/-- The extent of an axis, where axes are counted from the innermost one outwards. -/
def extent? (s : Shape) (i : Nat) : Option Nat := s.reverse[i]?

/-! ## Lists of extents, innermost axis first -/

/-- Each extent of the first list is one or the same as that of the second list, which is at least
as long. -/
def StretchesInner : List Nat → List Nat → Prop
  | [], _ => True
  | _ :: _, [] => False
  | x :: xs, z :: zs => (x = 1 ∨ x = z) ∧ StretchesInner xs zs

namespace StretchesInner

lemma refl (as : List Nat) : StretchesInner as as := by
  induction as with
  | nil => trivial
  | cons x xs ih => exact ⟨Or.inr rfl, ih⟩

lemma trans (hab : StretchesInner as bs) (hbc : StretchesInner bs cs) : StretchesInner as cs := by
  induction as generalizing bs cs with
  | nil => trivial
  | cons x xs ih =>
    cases bs with
    | nil => exact hab.elim
    | cons y ys =>
      cases cs with
      | nil => exact hbc.elim
      | cons z zs =>
        have hxy := hab.1
        have hyz := hbc.1
        exact ⟨by omega, ih hab.2 hbc.2⟩

lemma antisymm (hab : StretchesInner as bs) (hba : StretchesInner bs as) : as = bs := by
  induction as generalizing bs with
  | nil =>
    cases bs with
    | nil => rfl
    | cons y ys => exact hba.elim
  | cons x xs ih =>
    cases bs with
    | nil => exact hab.elim
    | cons y ys =>
      have hhead : x = y := by
        have hxy := hab.1
        have hyx := hba.1
        omega
      rw [hhead, ih hab.2 hba.2]

end StretchesInner

lemma stretchesInner_iff : StretchesInner as cs ↔ as.length ≤ cs.length ∧
    ∀ (i x z : Nat), as[i]? = some x → cs[i]? = some z → x = 1 ∨ x = z := by
  induction as generalizing cs with
  | nil => simp [StretchesInner]
  | cons x xs ih =>
    cases cs with
    | nil => simp [StretchesInner]
    | cons z zs =>
      rw [StretchesInner, ih, List.length_cons, List.length_cons, Nat.add_le_add_iff_right]
      constructor
      · rintro ⟨hhead, hlen, htail⟩
        refine ⟨hlen, fun i x' z' hx hz => ?_⟩
        cases i with
        | zero =>
          obtain rfl : x = x' := by simpa using hx
          obtain rfl : z = z' := by simpa using hz
          exact hhead
        | succ i => exact htail i x' z' hx hz
      · rintro ⟨hlen, hall⟩
        exact ⟨hall 0 x z rfl rfl, hlen, fun i => hall (i + 1)⟩

/-- What a joined list stretches to: exactly what both lists stretch to. -/
lemma stretchesInner_of_joinInner (h : joinInner as bs = some cs) :
    StretchesInner cs us ↔ StretchesInner as us ∧ StretchesInner bs us := by
  induction as generalizing bs cs us with
  | nil =>
    obtain rfl : bs = cs := by simpa [joinInner] using h
    simp [StretchesInner]
  | cons x xs ih =>
    cases bs with
    | nil =>
      obtain rfl : x :: xs = cs := by simpa [joinInner] using h
      simp [StretchesInner]
    | cons y ys =>
      cases us with
      | nil =>
        refine iff_of_false (fun hcs => ?_) fun hboth => hboth.1
        cases cs with
        | nil => simpa using length_joinInner h
        | cons z zs => exact hcs
      | cons z zs =>
        -- The extent in front is the one of the two that is not one, if there is such.
        have hcons {v : Nat} (hv : v = 1 ∨ v = z ↔ (x = 1 ∨ x = z) ∧ (y = 1 ∨ y = z))
            (hrest : (joinInner xs ys).map (v :: ·) = some cs) :
            StretchesInner cs (z :: zs) ↔
              StretchesInner (x :: xs) (z :: zs) ∧ StretchesInner (y :: ys) (z :: zs) := by
          obtain ⟨vs, hvs, rfl⟩ := Option.map_eq_some_iff.1 hrest
          rw [StretchesInner, StretchesInner, StretchesInner, hv, ih hvs, and_and_and_comm]
        rw [joinInner] at h
        split at h
        · exact hcons (by omega) h
        · split at h
          · exact hcons (by omega) h
          · simp at h

/-- Lists that stretch to a common one can be joined. -/
lemma exists_joinInner (ha : StretchesInner as us) (hb : StretchesInner bs us) :
    ∃ cs, joinInner as bs = some cs := by
  induction as generalizing bs us with
  | nil => exact ⟨bs, rfl⟩
  | cons x xs ih =>
    cases bs with
    | nil => exact ⟨x :: xs, rfl⟩
    | cons y ys =>
      cases us with
      | nil => exact ha.elim
      | cons z zs =>
        obtain ⟨cs, hcs⟩ := ih ha.2 hb.2
        have hx := ha.1
        have hy := hb.1
        rw [joinInner, hcs]
        split
        · exact ⟨_, rfl⟩
        · rw [if_pos (by omega)]
          exact ⟨_, rfl⟩

/-- Lists cannot be joined exactly if two extents at one position clash. -/
lemma joinInner_eq_none_iff : joinInner as bs = none ↔
    ∃ (i x y : Nat), as[i]? = some x ∧ bs[i]? = some y ∧ x ≠ y ∧ x ≠ 1 ∧ y ≠ 1 := by
  induction as generalizing bs with
  | nil => simp [joinInner]
  | cons x xs ih =>
    cases bs with
    | nil => simp [joinInner]
    | cons y ys =>
      by_cases hclash : x ≠ y ∧ x ≠ 1 ∧ y ≠ 1
      · refine iff_of_true ?_ ⟨0, x, y, rfl, rfl, hclash⟩
        rw [joinInner, if_neg (by omega), if_neg (by omega)]
      · have hrest : joinInner (x :: xs) (y :: ys) = none ↔ joinInner xs ys = none := by
          rw [joinInner]
          split
          · exact Option.map_eq_none_iff
          · rw [if_pos (by omega)]
            exact Option.map_eq_none_iff
        rw [hrest, ih]
        constructor
        · rintro ⟨i, hfound⟩
          exact ⟨i + 1, hfound⟩
        · rintro ⟨i, x', y', hx, hy, hne⟩
          cases i with
          | zero =>
            obtain rfl : x = x' := by simpa using hx
            obtain rfl : y = y' := by simpa using hy
            exact absurd hne hclash
          | succ i => exact ⟨i, x', y', hx, hy, hne⟩

/-! ## Shapes -/

/-- The shape stretches to the other one: it has no more axes, and aligned from the innermost axis
outwards each of its extents is one or the same as the other's. -/
def StretchesTo (a c : Shape) : Prop := StretchesInner a.reverse c.reverse

namespace StretchesTo

lemma refl (a : Shape) : a.StretchesTo a := StretchesInner.refl a.reverse

lemma trans (hab : a.StretchesTo b) (hbc : b.StretchesTo c) : a.StretchesTo c :=
  StretchesInner.trans hab hbc

lemma antisymm (hab : a.StretchesTo b) (hba : b.StretchesTo a) : a = b :=
  List.reverse_inj.1 (StretchesInner.antisymm hab hba)

end StretchesTo

lemma stretchesTo_iff : a.StretchesTo c ↔ a.length ≤ c.length ∧
    ∀ (i x z : Nat), a.extent? i = some x → c.extent? i = some z → x = 1 ∨ x = z := by
  simp only [StretchesTo, stretchesInner_iff, List.length_reverse, extent?]

/-- Shapes can be joined exactly if they stretch to a common shape. -/
lemma exists_broadcast_iff :
    (∃ c, a.broadcast b = some c) ↔ ∃ u : Shape, a.StretchesTo u ∧ b.StretchesTo u := by
  constructor
  · rintro ⟨c, hc⟩
    obtain ⟨cs, hcs, rfl⟩ := Option.map_eq_some_iff.1 hc
    have hboth := (stretchesInner_of_joinInner hcs).1 (StretchesInner.refl cs)
    refine ⟨cs.reverse, ?_⟩
    rwa [StretchesTo, StretchesTo, List.reverse_reverse]
  · rintro ⟨u, ha, hb⟩
    obtain ⟨cs, hcs⟩ := exists_joinInner ha hb
    exact ⟨cs.reverse, by rw [broadcast, hcs, Option.map_some]⟩

/-- **Joining computes least upper bounds.**  The joined shape is the one that stretches to exactly
the shapes to which both operands stretch. -/
theorem broadcast_eq_some_iff : a.broadcast b = some c ↔
    ∀ u : Shape, c.StretchesTo u ↔ a.StretchesTo u ∧ b.StretchesTo u := by
  have hleast {c : Shape} (h : a.broadcast b = some c) (u : Shape) :
      c.StretchesTo u ↔ a.StretchesTo u ∧ b.StretchesTo u := by
    obtain ⟨cs, hcs, rfl⟩ := Option.map_eq_some_iff.1 h
    rw [StretchesTo, List.reverse_reverse]
    exact stretchesInner_of_joinInner hcs
  constructor
  · exact hleast
  · intro hc
    obtain ⟨c', hc'⟩ := exists_broadcast_iff.2 ⟨c, (hc c).1 (StretchesTo.refl c)⟩
    have hto : c.StretchesTo c' := (hc c').2 ((hleast hc' c').1 (StretchesTo.refl c'))
    have hfrom : c'.StretchesTo c := (hleast hc' c).2 ((hc c).1 (StretchesTo.refl c))
    rw [hc', hto.antisymm hfrom]

/-- Joining a third shape to two joined ones gives the least shape to which all three stretch. -/
lemma broadcast_bind_eq_some_iff : (a.broadcast b).bind (·.broadcast c) = some d ↔
    ∀ u : Shape, d.StretchesTo u ↔ a.StretchesTo u ∧ b.StretchesTo u ∧ c.StretchesTo u := by
  rw [Option.bind_eq_some_iff]
  constructor
  · rintro ⟨e, he, hd⟩ u
    rw [broadcast_eq_some_iff.1 hd, broadcast_eq_some_iff.1 he, and_assoc]
  · intro hd
    obtain ⟨ha, hb, -⟩ := (hd d).1 (StretchesTo.refl d)
    obtain ⟨e, he⟩ := exists_broadcast_iff.2 ⟨d, ha, hb⟩
    refine ⟨e, he, broadcast_eq_some_iff.2 fun u => ?_⟩
    rw [hd, broadcast_eq_some_iff.1 he, and_assoc]

lemma broadcast_assoc (a b c : Shape) :
    (a.broadcast b).bind (·.broadcast c) = (b.broadcast c).bind (·.broadcast a) := by
  refine Option.ext fun d => ?_
  rw [broadcast_bind_eq_some_iff, broadcast_bind_eq_some_iff]
  refine forall_congr' fun u => ?_
  rw [and_comm, and_assoc]

/-- A shape takes in exactly the shapes that stretch to it. -/
lemma broadcast_eq_self_iff : a.broadcast b = some a ↔ b.StretchesTo a := by
  rw [broadcast_eq_some_iff]
  constructor
  · intro h
    exact ((h a).1 (StretchesTo.refl a)).2
  · intro hba u
    exact ⟨fun hau => ⟨hau, hba.trans hau⟩, And.left⟩

lemma broadcast_eq_none_iff : a.broadcast b = none ↔
    ∃ i x y, a.extent? i = some x ∧ b.extent? i = some y ∧ x ≠ y ∧ x ≠ 1 ∧ y ≠ 1 := by
  rw [broadcast, Option.map_eq_none_iff, joinInner_eq_none_iff]
  rfl

/-- **Joining shapes is a partial join.**  It is commutative, idempotent and associative, as far as
shapes can be joined, and the shape without axes is neutral.  Shapes cannot be joined exactly if
two extents at the same distance from the innermost axis are different and both not one, and a
shape stays as it is exactly if the other one has no more axes and all of its extents are one or
the same as those of the shape. -/
theorem broadcast_partial_join (a b c : Shape) :
    a.broadcast b = b.broadcast a ∧
    a.broadcast a = some a ∧
    (a.broadcast [] = some a ∧ broadcast [] a = some a) ∧
    (a.broadcast b).bind (·.broadcast c) = (b.broadcast c).bind (·.broadcast a) ∧
    (a.broadcast b = none ↔
      ∃ i x y, a.extent? i = some x ∧ b.extent? i = some y ∧ x ≠ y ∧ x ≠ 1 ∧ y ≠ 1) ∧
    (a.broadcast b = some a ↔ b.length ≤ a.length ∧
      ∀ (i y x : Nat), b.extent? i = some y → a.extent? i = some x → y = 1 ∨ y = x) := by
  have hneutral : a.broadcast [] = some a := broadcast_eq_self_iff.2 trivial
  refine ⟨broadcast_comm a b, broadcast_eq_self_iff.2 (StretchesTo.refl a), ⟨hneutral, ?_⟩,
    broadcast_assoc a b c, broadcast_eq_none_iff, ?_⟩
  · rw [broadcast_comm, hneutral]
  · rw [broadcast_eq_self_iff, stretchesTo_iff]

end ConvFlow.Shape
