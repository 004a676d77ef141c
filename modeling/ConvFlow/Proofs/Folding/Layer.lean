/-
# The names of layers

The name of a layer begins with the kind of its operation and ends with its number.  What stands
between the two, and how many underscores separate them, plays no role.  A name of another kind is
foreign; a name of a known kind that does not end with a number is refused.

The main statement is `parse_grammar`: reading a name finds out exactly which of the three it is.
-/
import ConvFlow.Folding.Layer
import Mathlib.Data.List.TakeWhile
import Mathlib.Tactic.Common

namespace ConvFlow.Folding

/-! ## The grammar -/

/-- The text stands before the first underscore of the name; it is the whole name if there is no
underscore. -/
def BeginsWith (name first : String) : Prop :=
  '_' ∉ first.toList ∧ (name = first ∨ ∃ rest, name = first ++ "_" ++ rest)

/-- The text stands behind the last underscore of the name. -/
def EndsWith (name last : String) : Prop :=
  '_' ∉ last.toList ∧ ∃ front, name = front ++ "_" ++ last

/-- The text consists of decimal digits, at least one, behind a plus sign or not. -/
def IsNumeral (text : String) (n : Nat) : Prop :=
  ∃ ds : List Char, ds ≠ [] ∧ (∀ c ∈ ds, c.isDigit = true) ∧ n = Nat.ofDigitChars 10 ds 0 ∧
    (text = String.ofList ds ∨ text = "+" ++ String.ofList ds)

/-- The kinds of operations that belong to a category. -/
def Category.kinds : Category → List String
  | matrixVector => ["MatrixVectorActivation", "MVAU"]
  | vectorVector => ["VectorVectorActivation", "VVAU"]

/-- The name begins with a kind of operation that belongs to no category. -/
def IsForeign (name : String) : Prop :=
  ∃ first, BeginsWith name first ∧ ∀ category : Category, first ∉ category.kinds

/-- The name begins with a kind of the layer's category and ends with the layer's number, which
fits 32 bits. -/
structure Names (name : String) (layer : Layer) : Prop where
  kind : ∃ first, BeginsWith name first ∧ first ∈ layer.category.kinds
  number : ∃ last, EndsWith name last ∧ IsNumeral last layer.index
  fits : layer.index < UInt32.size

/-! ## The parts of a name -/

lemma firstPart_eq_iff {cs first : List Char} :
    firstPart cs = first ↔ '_' ∉ first ∧ (cs = first ∨ ∃ rest, cs = first ++ '_' :: rest) := by
  constructor
  · rintro rfl
    refine ⟨fun hmem => by simpa using List.mem_takeWhile_imp hmem, ?_⟩
    have hsplit : firstPart cs ++ cs.dropWhile (· != '_') = cs := List.takeWhile_append_dropWhile
    cases hrest : cs.dropWhile (· != '_') with
    | nil =>
      rw [hrest, List.append_nil] at hsplit
      exact Or.inl hsplit.symm
    | cons c rest =>
      have hc := List.head?_dropWhile_not (· != '_') cs
      rw [hrest] at hc hsplit
      obtain rfl : c = '_' := by simpa using hc
      exact Or.inr ⟨rest, hsplit.symm⟩
  · rintro ⟨hfree, hcs⟩
    have hall : ∀ c ∈ first, (c != '_') = true := fun c hc =>
      bne_iff_ne.2 fun heq => hfree (heq ▸ hc)
    obtain rfl | ⟨rest, rfl⟩ := hcs
    · exact List.takeWhile_eq_self_iff.2 hall
    · rw [firstPart, List.takeWhile_append_of_pos hall, List.takeWhile_cons_of_neg (by simp),
        List.append_nil]

/-- The last part of a name with an underscore, found from the other end. -/
lemma lastPart_eq_iff {cs last : List Char} :
    '_' ∈ cs ∧ lastPart cs = last ↔ '_' ∉ last ∧ ∃ front, cs = front ++ '_' :: last := by
  have hreverse : lastPart cs = last ↔ firstPart cs.reverse = last.reverse := by
    rw [lastPart, ← firstPart, List.reverse_eq_iff]
  rw [hreverse, firstPart_eq_iff, List.mem_reverse]
  constructor
  · rintro ⟨hmem, hfree, hcs | ⟨rest, hcs⟩⟩
    · rw [List.reverse_inj.1 hcs] at hmem
      exact absurd hmem hfree
    · refine ⟨hfree, rest.reverse, ?_⟩
      rw [← List.reverse_reverse cs, hcs]
      simp
  · rintro ⟨hfree, front, rfl⟩
    refine ⟨by simp, hfree, Or.inr ⟨front.reverse, ?_⟩⟩
    simp

lemma ofList_eq_iff {cs : List Char} {text : String} :
    String.ofList cs = text ↔ cs = text.toList := by
  rw [← String.toList_inj, String.toList_ofList]

lemma beginsWith_iff {name first : String} :
    BeginsWith name first ↔ String.ofList (firstPart name.toList) = first := by
  rw [ofList_eq_iff, firstPart_eq_iff, BeginsWith, ← String.toList_inj]
  refine and_congr_right fun _ => or_congr_right ⟨?_, ?_⟩
  · rintro ⟨rest, rfl⟩
    exact ⟨rest.toList, by simp⟩
  · rintro ⟨rest, hname⟩
    refine ⟨String.ofList rest, String.toList_inj.1 ?_⟩
    simp [hname]

lemma endsWith_iff {name last : String} :
    EndsWith name last ↔ '_' ∈ name.toList ∧ String.ofList (lastPart name.toList) = last := by
  rw [ofList_eq_iff, lastPart_eq_iff, EndsWith]
  refine and_congr_right fun _ => ⟨?_, ?_⟩
  · rintro ⟨front, rfl⟩
    exact ⟨front.toList, by simp⟩
  · rintro ⟨front, hname⟩
    refine ⟨String.ofList front, String.toList_inj.1 ?_⟩
    simp [hname]

/-! ## Kinds and numbers -/

lemma ofKind?_eq_some_iff {kind : String} {category : Category} :
    Category.ofKind? kind = some category ↔ kind ∈ category.kinds := by
  unfold Category.ofKind?
  split <;> cases category <;> simp_all [Category.kinds]

lemma ofKind?_eq_none_iff {kind : String} :
    Category.ofKind? kind = none ↔ ∀ category : Category, kind ∉ category.kinds := by
  simp only [Option.eq_none_iff_forall_ne_some, ne_eq, ofKind?_eq_some_iff]

/-- Digits are appended one after another as long as there are only digits. -/
lemma appendDigits_eq (n : Nat) (cs : List Char) :
    appendDigits n cs = if cs.all Char.isDigit then some (Nat.ofDigitChars 10 cs n) else none := by
  induction cs generalizing n with
  | nil => rfl
  | cons c cs ih =>
    have hdigit : ('0' ≤ c ∧ c ≤ '9') ↔ c.isDigit = true := by
      rw [Char.isDigit_iff_toNat]
      rfl
    rw [appendDigits, ih, List.all_cons]
    by_cases hc : c.isDigit = true
    · rw [if_pos (hdigit.2 hc), hc, Bool.true_and, Nat.ofDigitChars_cons, Nat.mul_comm]
    · rw [if_neg (mt hdigit.1 hc), Bool.eq_false_iff.2 hc, Bool.false_and]
      rfl

/-- Digits without a sign are read if there are some and their number fits. -/
lemma readDigits_eq_some_iff {ds : List Char} {n : Nat} :
    (if ds.isEmpty then none else (appendDigits 0 ds).filter (· < UInt32.size)) = some n ↔
      (ds ≠ [] ∧ (∀ c ∈ ds, c.isDigit = true) ∧ n = Nat.ofDigitChars 10 ds 0) ∧
        n < UInt32.size := by
  have hall : ds.all Char.isDigit = true ↔ ∀ c ∈ ds, c.isDigit = true := List.all_eq_true
  rw [appendDigits_eq]
  by_cases hempty : ds = []
  · simp [hempty]
  · rw [if_neg (by simpa using hempty)]
    by_cases hdigits : ∀ c ∈ ds, c.isDigit = true
    · rw [if_pos (hall.2 hdigits), Option.filter_eq_some_iff]
      simp only [Option.some.injEq, decide_eq_true_eq]
      exact and_congr_left fun _ => ⟨fun h => ⟨hempty, hdigits, h.symm⟩, fun h => h.2.2.symm⟩
    · rw [if_neg (mt hall.1 hdigits)]
      exact iff_of_false (by simp) fun h => hdigits h.1.2.1

/-- The number is read behind the sign, if there is one. -/
lemma parseIndex?_eq_some_iff {cs : List Char} {n : Nat} :
    parseIndex? cs = some n ↔ IsNumeral (String.ofList cs) n ∧ n < UInt32.size := by
  have hplus : ("+" : String).toList = ['+'] := rfl
  simp only [IsNumeral, ofList_eq_iff, String.toList_append, String.toList_ofList, hplus,
    List.cons_append, List.nil_append]
  unfold parseIndex?
  extract_lets unsigned
  rw [readDigits_eq_some_iff]
  refine and_congr_left fun _ => ⟨fun ⟨hne, hdigits, hn⟩ => ?_, ?_⟩
  · refine ⟨unsigned, hne, hdigits, hn, ?_⟩
    simp only [unsigned]
    split
    · exact Or.inr rfl
    · exact Or.inl rfl
  · rintro ⟨ds, hne, hdigits, hn, hcs⟩
    have hunsigned : unsigned = ds := by
      obtain rfl | rfl := hcs
      · simp only [unsigned]
        split
        · -- A sign is no digit.
          exact absurd (hdigits '+' List.mem_cons_self) (by decide)
        · rfl
      · rfl
    rw [hunsigned]
    exact ⟨hne, hdigits, hn⟩

/-! ## Reading a name -/

lemma parse_eq_ok_none_iff {name : String} : Layer.parse name = .ok none ↔ IsForeign name := by
  have hforeign : IsForeign name ↔
      Category.ofKind? (String.ofList (firstPart name.toList)) = none := by
    rw [ofKind?_eq_none_iff]
    simp only [IsForeign, beginsWith_iff]
    exact ⟨fun ⟨_, hfirst, hkinds⟩ => hfirst ▸ hkinds, fun hkinds => ⟨_, rfl, hkinds⟩⟩
  rw [hforeign, Layer.parse]
  split
  · rename_i hkind
    exact iff_of_true rfl hkind
  · rename_i category hkind
    refine iff_of_false (fun h => ?_) (by simp [hkind])
    split at h
    · split at h <;> cases h
    · cases h

lemma parse_eq_ok_some_iff {name : String} {layer : Layer} :
    Layer.parse name = .ok (some layer) ↔ Names name layer := by
  have hnames : Names name layer ↔
      Category.ofKind? (String.ofList (firstPart name.toList)) = some layer.category ∧
        '_' ∈ name.toList ∧ parseIndex? (lastPart name.toList) = some layer.index := by
    rw [ofKind?_eq_some_iff, parseIndex?_eq_some_iff]
    constructor
    · rintro ⟨⟨first, hfirst, hkind⟩, ⟨last, hlast, hnumber⟩, hfits⟩
      obtain rfl := beginsWith_iff.1 hfirst
      obtain ⟨hmem, rfl⟩ := endsWith_iff.1 hlast
      exact ⟨hkind, hmem, hnumber, hfits⟩
    · rintro ⟨hkind, hmem, hnumber, hfits⟩
      exact ⟨⟨_, beginsWith_iff.2 rfl, hkind⟩, ⟨_, endsWith_iff.2 ⟨hmem, rfl⟩, hnumber⟩, hfits⟩
  rw [hnames, Layer.parse]
  obtain ⟨category, index⟩ := layer
  split
  · rename_i hkind
    simp [hkind]
  · rename_i category' hkind
    rw [hkind]
    split
    · rename_i hmem
      split
      · rename_i index' hindex
        simp [hmem, hindex]
      · rename_i hindex
        simp [hindex]
    · rename_i hmem
      simp [hmem]

/-- There is only one way to refuse a name. -/
lemma eq_invalidIndex_of_parse {name : String} {e : LayerError}
    (h : Layer.parse name = .error e) : e = .invalidIndex name := by
  rw [Layer.parse] at h
  split at h
  · cases h
  · split at h
    · split at h <;> cases h
      rfl
    · cases h
      rfl

/-- **Reading a name recognises exactly the grammar.**  A foreign name is left alone, a name that
ends with a number names the layer of its kind with this number, and every other name is refused. -/
theorem parse_grammar (name : String) :
    (Layer.parse name = .ok none ↔ IsForeign name) ∧
    (∀ layer, Layer.parse name = .ok (some layer) ↔ Names name layer) ∧
    (∀ e, Layer.parse name = .error e ↔
      e = .invalidIndex name ∧ ¬IsForeign name ∧ ∀ layer, ¬Names name layer) := by
  refine ⟨parse_eq_ok_none_iff, fun layer => parse_eq_ok_some_iff, fun e => ?_⟩
  simp only [← parse_eq_ok_none_iff, ← parse_eq_ok_some_iff]
  constructor
  · intro hrefused
    refine ⟨eq_invalidIndex_of_parse hrefused, ?_, fun layer => ?_⟩
    · simp [hrefused]
    · simp [hrefused]
  · rintro ⟨rfl, hforeign, hlayer⟩
    cases hparse : Layer.parse name with
    | error e => rw [eq_invalidIndex_of_parse hparse]
    | ok found =>
      cases found with
      | none => exact absurd hparse hforeign
      | some layer => exact absurd hparse (hlayer layer)

-- The sign and leading zeros do not count, and the number has to fit 32 bits.
example : Layer.parse "MVAU__+007" = .ok (some ⟨.matrixVector, 7⟩) := rfl
example : Layer.parse "MVAU_4294967296" = .error (.invalidIndex "MVAU_4294967296") := rfl

end ConvFlow.Folding
