/-
# What stands behind a part of a text

A part of a text is read in the same way whatever stands behind it.  For words and strings this
holds without any condition, because they say themselves where they end (`readString_append`); a
numeral ends where no character of a numeral follows, so what stands behind it must not begin with
one (`Numeral.read_append`).  `readScalar_append` puts this together for all scalars.
-/
import ConvFlow.Json.Reader
import ConvFlow.Proofs.Outcome
import Mathlib.Data.List.DropRight

namespace ConvFlow.Json

open Outcome

namespace Numeral

variable {atEnd atEnd' : Problem} {cs r rest : List Char} {ds : List Nat}

/-- No character with which a numeral could go on stands at the beginning of a text. -/
def Delimits (rest : List Char) : Prop :=
  ∀ c ∈ rest.head?, digit? c = none ∧ c ≠ '.' ∧ c ≠ 'e' ∧ c ≠ 'E'

lemma digits_append (hrest : Delimits rest) (cs : List Char) :
    digits (cs ++ rest) = ((digits cs).1, (digits cs).2 ++ rest) := by
  induction cs with
  | nil =>
    cases rest with
    | nil => rfl
    | cons c rest => simp [digits, (hrest c rfl).1]
  | cons c cs ih =>
    rw [List.cons_append, digits, digits]
    cases digit? c with
    | none => rfl
    | some d => simp only [ih]

lemma someDigits_eq_ok_iff :
    someDigits atEnd cs = .ok (ds, r) ↔ digits cs = (ds, r) ∧ ds ≠ [] := by
  unfold someDigits
  rcases hds : digits cs with ⟨_ | ⟨d, ds'⟩, _ | ⟨c, cs'⟩⟩
  all_goals simp
  all_goals grind

lemma someDigits_append (hrest : Delimits rest) (h : someDigits atEnd cs = .ok (ds, r)) :
    someDigits atEnd' (cs ++ rest) = .ok (ds, r ++ rest) := by
  obtain ⟨hcs, hds⟩ := someDigits_eq_ok_iff.1 h
  refine someDigits_eq_ok_iff.2 ⟨?_, hds⟩
  rw [digits_append hrest, hcs]

lemma wholePart_eq_ok_iff :
    wholePart atEnd cs = .ok (ds, r) ↔
      someDigits atEnd cs = .ok (ds, r) ∧ ∀ d ds', ds ≠ 0 :: d :: ds' := by
  rw [wholePart, bind_eq_ok_iff]
  constructor
  · rintro ⟨part, hpart, h⟩
    split at h
    · cases h
    · next hzero =>
      cases h
      exact ⟨hpart, fun d ds' h => hzero d ds' r (by rw [h])⟩
  · rintro ⟨hpart, hzero⟩
    refine ⟨_, hpart, ?_⟩
    split
    · next d ds' r' heq =>
      cases heq
      exact absurd rfl (hzero d ds')
    · rfl

lemma wholePart_append (hrest : Delimits rest) (h : wholePart atEnd cs = .ok (ds, r)) :
    wholePart atEnd' (cs ++ rest) = .ok (ds, r ++ rest) := by
  obtain ⟨hsome, hzero⟩ := wholePart_eq_ok_iff.1 h
  exact wholePart_eq_ok_iff.2 ⟨someDigits_append hrest hsome, hzero⟩

lemma fractionPart_append {fraction : Option (List Nat)} (hrest : Delimits rest)
    (h : fractionPart atEnd cs = .ok (fraction, r)) :
    fractionPart atEnd' (cs ++ rest) = .ok (fraction, r ++ rest) := by
  unfold fractionPart at h
  split at h
  · obtain ⟨part, hpart, heq⟩ := map_eq_ok_iff.1 h
    cases heq
    simp only [List.cons_append, fractionPart, someDigits_append hrest hpart, map_ok]
  · next hpoint =>
    cases h
    unfold fractionPart
    split
    · next cs' heq =>
      -- The point would stand at the beginning of the text itself or of what follows it.
      cases cs with
      | nil => exact absurd rfl (hrest '.' (by simp_all)).2.1
      | cons c cs => exact absurd (by simp_all) (hpoint cs)
    · rfl

lemma exponentSign_append (hcs : cs ≠ []) :
    exponentSign (cs ++ rest) = ((exponentSign cs).1, (exponentSign cs).2 ++ rest) := by
  obtain ⟨c, cs, rfl⟩ := List.exists_cons_of_ne_nil hcs
  unfold exponentSign
  grind

lemma exponentPart_append {exponent : Option (Bool × List Nat)} (hrest : Delimits rest)
    (h : exponentPart atEnd cs = .ok (exponent, r)) :
    exponentPart atEnd' (cs ++ rest) = .ok (exponent, r ++ rest) := by
  cases cs with
  | nil =>
    cases h
    cases rest with
    | nil => rfl
    | cons c rest =>
      have hc : ¬ (c = 'e' ∨ c = 'E') := by
        rintro (rfl | rfl)
        · exact (hrest _ rfl).2.2.1 rfl
        · exact (hrest _ rfl).2.2.2 rfl
      simp only [List.nil_append, exponentPart, if_neg hc]
  | cons c cs =>
    rw [List.cons_append, exponentPart]
    rw [exponentPart] at h
    split
    · next hc =>
      rw [if_pos hc] at h
      have hcs : cs ≠ [] := by
        rintro rfl
        cases h
      rw [exponentSign_append hcs]
      generalize exponentSign cs = signed at h
      obtain ⟨negative, cs⟩ := signed
      obtain ⟨part, hpart, heq⟩ := map_eq_ok_iff.1 h
      cases heq
      simp only [someDigits_append hrest hpart, map_ok]
    · next hc =>
      rw [if_neg hc] at h
      cases h
      rfl

/-- **A numeral is found again in front of any text that cannot continue it.** -/
lemma read_append {negative : Bool} {n : Numeral} (hrest : Delimits rest)
    (h : Numeral.read atEnd negative cs = .ok (n, r)) :
    Numeral.read atEnd' negative (cs ++ rest) = .ok (n, r ++ rest) := by
  obtain ⟨⟨whole, cs₁⟩, hwhole, h⟩ := bind_eq_ok_iff.1 h
  obtain ⟨⟨fraction, cs₂⟩, hfraction, h⟩ := bind_eq_ok_iff.1 h
  obtain ⟨⟨exponent, cs₃⟩, hexponent, h⟩ := bind_eq_ok_iff.1 h
  cases h
  simp only [Numeral.read, wholePart_append hrest hwhole, ok_bind,
    fractionPart_append hrest hfraction, exponentPart_append hrest hexponent, pure_eq_ok]

end Numeral

open Numeral (Delimits)

section Steps

variable {c e : Char} {cs r rest before b b' : List Char} {high : Option Nat} {t : Tree}

/-! ## The steps through a string -/

lemma passString_short (he : shortEscape? c = some e) :
    passString ('\\' :: c :: cs) = passString cs := by
  have hc : c ≠ 'u' := by
    rintro rfl
    exact nomatch he
  simp [passString, hc, he]

lemma passString_plain (hc : c ≠ '\\') (hquote : c ≠ '"') (hblank : ¬ c < ' ') :
    passString (c :: cs) = passString cs := by
  simp [passString, hc, hquote, hblank]

lemma unquote_short (he : shortEscape? c = some e) :
    unquote before none ('\\' :: c :: cs) = unquote (e :: before) none cs := by
  have hc : c ≠ 'u' := by
    rintro rfl
    exact nomatch he
  simp [unquote, hc, he]

lemma unquote_plain (hc : c ≠ '\\') (hquote : c ≠ '"') (hblank : ¬ c < ' ') :
    unquote before none (c :: cs) = unquote (c :: before) none cs := by
  simp [unquote, hc, hquote, hblank]

lemma unquote_numbered {a b c d : Char} {n : Nat} (hn : hexNumber? a b c d = some n) :
    unquote before none ('\\' :: 'u' :: a :: b :: c :: d :: cs)
      = if isLowHalf n then .error .malformed
        else if isHighHalf n then unquote before (some n) cs
        else unquote (Char.ofNat n :: before) none cs := by
  simp [unquote, hn]

lemma unquote_secondHalf {a b c d : Char} {first n : Nat} (hn : hexNumber? a b c d = some n) :
    unquote before (some first) ('\\' :: 'u' :: a :: b :: c :: d :: cs)
      = if isLowHalf n then unquote (joinHalves first n :: before) none cs
        else .error .malformed := by
  simp [unquote, hn]

lemma passString_numbered {a b c d : Char} {n : Nat} (hn : hexNumber? a b c d = some n) :
    passString ('\\' :: 'u' :: a :: b :: c :: d :: cs) = passString cs := by
  simp [passString, hn]

lemma passString_append (h : passString cs = .ok r) (rest : List Char) :
    passString (cs ++ rest) = .ok (r ++ rest) := by
  fun_induction passString cs with
  | case3 a b c d cs hhex ih => simp only [List.cons_append, passString, if_pos hhex, ih h]
  | case6 c cs _ hu hc ih =>
    obtain ⟨e, he⟩ := Option.isSome_iff_exists.1 hc
    rw [List.cons_append, List.cons_append, passString_short he, ih h]
  | case8 cs =>
    cases h
    simp [passString]
  | case10 c cs hend _ hcons hquote hblank ih =>
    have hc : c ≠ '\\' := by
      rintro rfl
      cases cs with
      | nil => exact hend rfl rfl
      | cons c' cs => exact hcons c' cs rfl rfl
    rw [List.cons_append, passString_plain hc hquote hblank, ih h]
  | _ => cases h

/-- What a string means does not depend on what stands behind it. -/
lemma unquote_append (h : passString cs = .ok r) (rest before : List Char) (high : Option Nat) :
    unquote before high (cs ++ rest)
      = (unquote before high cs).map fun part => (part.1, part.2 ++ rest) := by
  fun_induction passString cs generalizing before high with
  | case3 a b c d cs hhex ih =>
    obtain ⟨n, hn⟩ := Option.isSome_iff_exists.1 hhex
    cases high with
    | none =>
      simp only [List.cons_append, unquote_numbered hn]
      split
      · rfl
      · split <;> exact ih h _ _
    | some first =>
      simp only [List.cons_append, unquote_secondHalf hn]
      split
      · exact ih h _ _
      · rfl
  | case6 c cs _ hu hc ih =>
    obtain ⟨e, he⟩ := Option.isSome_iff_exists.1 hc
    cases high with
    | none =>
      rw [List.cons_append, List.cons_append, unquote_short he, unquote_short he]
      exact ih h _ _
    | some first => simp [unquote, hu]
  | case8 cs => cases high <;> simp [unquote]
  | case10 c cs hend _ hcons hquote hblank ih =>
    have hc : c ≠ '\\' := by
      rintro rfl
      cases cs with
      | nil => exact hend rfl rfl
      | cons c' cs => exact hcons c' cs rfl rfl
    cases high with
    | none =>
      rw [List.cons_append, unquote_plain hc hquote hblank, unquote_plain hc hquote hblank]
      exact ih h _ _
    | some first => simp [unquote, hc]
  | _ => cases h


/-! ## Words and scalars -/

lemma readWord_append {word : List Char} (h : readWord word cs = .ok r) (rest : List Char) :
    readWord word (cs ++ rest) = .ok (r ++ rest) := by
  induction word generalizing cs with
  | nil =>
    cases h
    rfl
  | cons w word ih =>
    cases cs with
    | nil => cases h
    | cons c cs =>
      obtain rfl | hc := eq_or_ne c w
      · simp only [List.cons_append, readWord, if_true] at h ⊢
        exact ih h
      · simp only [readWord, if_neg hc] at h
        cases h

lemma readLiteral_append {word : String} {s : Scalar} {t : Tree}
    (h : readLiteral word s cs = (t, .ok r)) (rest : List Char) :
    readLiteral word s (cs ++ rest) = (t, .ok (r ++ rest)) := by
  obtain ⟨htree, hbehind⟩ := Prod.mk.inj h
  rw [← htree, readLiteral, hbehind, readWord_append hbehind]
  rfl

lemma readString_append {l : Lexeme String} (h : readString cs = (l, .ok r)) (rest : List Char) :
    readString (cs ++ rest) = (l, .ok (r ++ rest)) := by
  obtain ⟨hlexeme, hbehind⟩ := Prod.mk.inj h
  rw [← hlexeme, readString, hbehind, passString_append hbehind, unquote_append hbehind]
  cases unquote [] none cs <;> rfl

lemma readNumeral_append {negative : Bool} {t : Tree} (hrest : Delimits rest)
    (h : readNumeral negative cs = (t, .ok r)) :
    readNumeral negative (cs ++ rest) = (t, .ok (r ++ rest)) := by
  obtain ⟨htree, hbehind⟩ := Prod.mk.inj h
  obtain ⟨⟨n, r'⟩, hread, rfl⟩ := map_eq_ok_iff.1 hbehind
  have hnil : Delimits [] := fun _ hc => nomatch hc
  have hvalue : Numeral.read .truncated negative cs = .ok (n, r') := by
    have hread' : Numeral.read .truncated negative (cs ++ []) = .ok (n, r' ++ []) :=
      Numeral.read_append hnil hread
    rwa [List.append_nil, List.append_nil] at hread'
  rw [← htree]
  simp only [readNumeral, hread, hvalue, Numeral.read_append hrest hread, map_ok, ok_bind]

lemma readScalar_append (hrest : Delimits rest) (h : readScalar c cs = (t, .ok r)) :
    readScalar c (cs ++ rest) = (t, .ok (r ++ rest)) := by
  unfold readScalar at h ⊢
  split_ifs at h ⊢
  · exact readLiteral_append h rest
  · exact readLiteral_append h rest
  · exact readLiteral_append h rest
  · obtain ⟨rfl, hbehind⟩ := Prod.mk.inj h
    have hstring : readString cs = ((readString cs).1, .ok r) := Prod.ext rfl hbehind
    simp only [readString_append hstring rest]
    rfl
  · exact readNumeral_append hrest h
  · exact readNumeral_append hrest h
  · cases h

lemma isBlank_iff : isBlank c = true ↔ ((c = ' ' ∨ c = '\n') ∨ c = '\t') ∨ c = '\r' := by
  simp only [isBlank, Bool.or_eq_true, beq_iff_eq]

lemma readScalar_head (h : readScalar c cs = (t, .ok r)) :
    isBlank c = false ∧ c ≠ '[' ∧ c ≠ '\x7b' ∧ c ≠ ']' := by
  refine ⟨?_, ?_, ?_, ?_⟩
  · rw [Bool.eq_false_iff, ne_eq, isBlank_iff]
    rintro (((rfl | rfl) | rfl) | rfl) <;> exact nomatch h
  all_goals
    rintro rfl
    exact nomatch h

/-! ## Blanks -/

/-- Blanks only. -/
def Blank (b : List Char) : Prop := ∀ c ∈ b, isBlank c = true

lemma Blank.nil : Blank [] := fun _ hc => nomatch hc

lemma Blank.append (hb : Blank b) (hb' : Blank b') : Blank (b ++ b') := fun c hc =>
  (List.mem_append.1 hc).elim (hb c) (hb' c)

lemma skipBlanks_append (hb : Blank b) (cs : List Char) : skipBlanks (b ++ cs) = skipBlanks cs :=
  List.dropWhile_append_of_pos hb

lemma skipBlanks_cons (hc : isBlank c = false) : skipBlanks (c :: cs) = c :: cs :=
  List.dropWhile_cons_of_neg (by simp [hc])

lemma skipBlanks_skipBlanks : skipBlanks (skipBlanks cs) = skipBlanks cs :=
  List.dropWhile_idempotent _ _

lemma delimits_cons (hc : Numeral.digit? c = none ∧ c ≠ '.' ∧ c ≠ 'e' ∧ c ≠ 'E')
    (rest : List Char) : Delimits (c :: rest) := by
  intro c' hc'
  obtain rfl : c = c' := by simpa using hc'
  exact hc

lemma Blank.delimits (hb : Blank b) (hrest : Delimits rest) : Delimits (b ++ rest) := by
  cases b with
  | nil => exact hrest
  | cons c b =>
    obtain ((rfl | rfl) | rfl) | rfl := isBlank_iff.1 (hb c (List.mem_cons_self ..))
    all_goals exact delimits_cons (by decide) _

lemma readValue_skipBlanks (fuel : Nat) (cs : List Char) :
    readValue fuel (skipBlanks cs) = readValue fuel cs := by
  cases fuel with
  | zero => rfl
  | succ fuel => rw [readValue, readValue, skipBlanks_skipBlanks]

end Steps

end ConvFlow.Json
