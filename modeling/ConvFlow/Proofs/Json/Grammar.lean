/-
# The grammar of JSON texts

`Spells` relates the texts that spell out a value to the trees that they lay out, with the same
rules for every layout: blanks may stand around each value and each name.  A reader has to find
the end of every part on its own; what each rule of the grammar asks of it is shown rule by rule
(`ReadsValue`, `ReadsItems`, `ReadsFields`), with the length of the text as a bound for the number
of steps.

The main result is `Document.read_of_spells`: a text that follows the grammar is laid out as the
grammar says, and nothing of it is left over.
-/
import ConvFlow.Proofs.Json.Scanning

namespace ConvFlow.Json

open Outcome
open Numeral (Delimits)

section Brackets

variable {c : Char} {cs r : List Char}

/-! ## The first character behind a bracket -/

lemma readItems_close (fuel : Nat) (rest : List Char) :
    readItems (fuel + 1) (']' :: rest) = ([], .ok rest) := by
  rw [readItems]

lemma readItems_item (fuel : Nat) (hc : c ≠ ']') :
    readItems (fuel + 1) (c :: cs) = readItem fuel (c :: cs) := by
  rw [readItems]
  · exact fun h => nomatch h
  · exact fun rest h => hc (List.cons.inj h).1

lemma readFields_close (fuel : Nat) (rest : List Char) :
    readFields (fuel + 1) ('\x7d' :: rest) = ([], .ok rest) := by
  rw [readFields]

lemma readFields_field (fuel : Nat) (hc : c ≠ '\x7d') :
    readFields (fuel + 1) (c :: cs) = readField fuel (c :: cs) := by
  rw [readFields]
  · exact fun h => nomatch h
  · exact fun rest h => hc (List.cons.inj h).1

lemma readValue_array (fuel : Nat) (cs : List Char) {ts : List Tree}
    (h : readItems fuel (skipBlanks cs) = (ts, .ok r)) :
    readValue (fuel + 1) ('[' :: cs) = (.array ts (.ok ()), .ok r) := by
  rw [readValue, skipBlanks_cons (by decide)]
  simp only [if_true, h, map_ok]

lemma readValue_object (fuel : Nat) (cs : List Char)
    {fs : List (Option (Lexeme String) × Tree)}
    (h : readFields fuel (skipBlanks cs) = (fs, .ok r)) :
    readValue (fuel + 1) ('\x7b' :: cs) = (.object fs (.ok ()), .ok r) := by
  rw [readValue, skipBlanks_cons (by decide)]
  simp only [if_neg (show '\x7b' ≠ '[' by decide), if_true, h, map_ok]

end Brackets

/-! ## The grammar -/

/-- Texts that spell out the entries of a list, with commas between them, up to a closing
bracket. -/
inductive Listed {β : Type} (close : Char) (R : List Char → β → Prop) : List Char → List β → Prop
  | last {s x} (h : R s x) : Listed close R (s ++ [close]) [x]
  | more {s x s' xs} (h : R s x) (hs : Listed close R s' xs) :
    Listed close R (s ++ ',' :: s') (x :: xs)

/-- A text that spells out the name of a field, up to the colon behind it. -/
inductive SpellsName : List Char → Lexeme String → Prop
  | name {b s b' l} (hb : Blank b) (hs : readString s = (l, .ok [])) (hb' : Blank b') :
    SpellsName (b ++ '"' :: (s ++ (b' ++ [':']))) l

mutual

/-- A text that spells out one value, perhaps with blanks around it, with the tree that it lays
out. -/
inductive Spells : List Char → Tree → Prop
  | scalar {c s t r} (h : readScalar c s = (t, .ok r)) (hr : Blank r) : Spells (c :: s) t
  | emptyArray {b} (hb : Blank b) : Spells ('[' :: (b ++ [']'])) (.array [] (.ok ()))
  | array {s ts} (h : Listed ']' Spells s ts) : Spells ('[' :: s) (.array ts (.ok ()))
  | emptyObject {b} (hb : Blank b) : Spells ('\x7b' :: (b ++ ['\x7d'])) (.object [] (.ok ()))
  | object {s fs} (h : Listed '\x7d' SpellsField s fs) :
    Spells ('\x7b' :: s) (.object fs (.ok ()))
  | around {b s b' t} (hb : Blank b) (h : Spells s t) (hb' : Blank b') : Spells (b ++ (s ++ b')) t

/-- A text that spells out a field of an object. -/
inductive SpellsField : List Char → Option (Lexeme String) × Tree → Prop
  | field {n l s t} (hn : SpellsName n l) (h : Spells s t) : SpellsField (n ++ s) (some l, t)

end

/-! ## What reading such texts comes to -/

/-- A text is read to its end as a value, up to blanks and whatever follows. -/
def ReadsValue (s : List Char) (t : Tree) : Prop :=
  ∀ fuel rest, 3 * s.length ≤ fuel → Delimits rest →
    ∃ r, Blank r ∧ readValue fuel (s ++ rest) = (t, .ok (r ++ rest))

/-- A text is read to its end as the items of an array. -/
def ReadsItems (s : List Char) (ts : List Tree) : Prop :=
  ∀ fuel rest, 3 * s.length ≤ fuel → readItem fuel (skipBlanks (s ++ rest)) = (ts, .ok rest)

/-- A text consists of a name and of a value that is read to its end. -/
inductive ReadsField : List Char → Option (Lexeme String) × Tree → Prop
  | field {n l s t} (hn : SpellsName n l) (h : ReadsValue s t) : ReadsField (n ++ s) (some l, t)

/-- A text is read to its end as the fields of an object. -/
def ReadsFields (s : List Char) (fs : List (Option (Lexeme String) × Tree)) : Prop :=
  ∀ fuel rest, 3 * s.length ≤ fuel → readField fuel (skipBlanks (s ++ rest)) = (fs, .ok rest)

variable {b b' s s' n r rest cs : List Char} {c : Char} {t : Tree} {l : Lexeme String}
  {ts : List Tree} {f : Option (Lexeme String) × Tree}
  {fs : List (Option (Lexeme String) × Tree)}

lemma SpellsField.around (hb : Blank b) (h : SpellsField s f) (hb' : Blank b') :
    SpellsField (b ++ (s ++ b')) f := by
  obtain ⟨⟨hfront, hs, hcolon⟩, hvalue⟩ := h
  have hvalue' := Spells.around .nil hvalue hb'
  have hname := SpellsName.name (hb.append hfront) hs hcolon
  simpa [List.append_assoc] using SpellsField.field hname hvalue'

/-! ## How such texts begin -/

/-- The first character of a text that is no blank does not close an array. -/
def Begins (s : List Char) : Prop := ∃ c cs, skipBlanks s = c :: cs ∧ c ≠ ']'

lemma Begins.append (h : Begins s) (rest : List Char) : Begins (s ++ rest) := by
  obtain ⟨c, cs, hs, hc⟩ := h
  refine ⟨c, cs ++ rest, ?_, hc⟩
  rw [skipBlanks] at hs ⊢
  simp [List.dropWhile_append, hs]

lemma Spells.begins : ∀ {s t}, Spells s t → Begins s
  | _, _, .scalar h _ =>
    have hc := readScalar_head h
    ⟨_, _, skipBlanks_cons hc.1, hc.2.2.2⟩
  | _, _, .emptyArray _ | _, _, .array _ | _, _, .emptyObject _ | _, _, .object _ =>
    ⟨_, _, skipBlanks_cons (by decide), by decide⟩
  | _, _, .around hb h _ => by
    obtain ⟨c, cs, hs, hc⟩ := h.begins.append _
    exact ⟨c, cs, (skipBlanks_append hb _).trans hs, hc⟩

lemma begins_of_items (h : Listed ']' Spells s ts) : Begins s := by
  cases h with
  | last h => exact h.begins.append _
  | more h hs => exact h.begins.append _

lemma SpellsField.begins (h : SpellsField s f) (rest : List Char) :
    ∃ cs, skipBlanks (s ++ rest) = '"' :: cs := by
  obtain ⟨⟨hb, -, -⟩, -⟩ := h
  simp only [List.append_assoc, skipBlanks_append hb, List.cons_append]
  exact ⟨_, skipBlanks_cons (by decide)⟩

lemma begins_of_fields (h : Listed '\x7d' SpellsField s fs) (rest : List Char) :
    ∃ cs, skipBlanks (s ++ rest) = '"' :: cs := by
  cases h with
  | last h =>
    rw [List.append_assoc]
    exact h.begins _
  | more h hs =>
    rw [List.append_assoc]
    exact h.begins _

/-! ## How such texts are read -/

lemma readsValue_scalar (h : readScalar c s = (t, .ok r)) (hr : Blank r) :
    ReadsValue (c :: s) t := by
  intro fuel rest hfuel hrest
  obtain ⟨hblank, hbracket, hbrace, -⟩ := readScalar_head h
  rw [List.length_cons] at hfuel
  obtain ⟨fuel, rfl⟩ : ∃ k, fuel = k + 1 := ⟨fuel - 1, by omega⟩
  refine ⟨r, hr, ?_⟩
  rw [List.cons_append, readValue, skipBlanks_cons hblank]
  simp only [if_neg hbracket, if_neg hbrace]
  exact readScalar_append hrest h

lemma readsValue_emptyArray (hb : Blank b) :
    ReadsValue ('[' :: (b ++ [']'])) (.array [] (.ok ())) := by
  intro fuel rest hfuel _
  rw [List.length_cons] at hfuel
  obtain ⟨fuel, rfl⟩ : ∃ k, fuel = k + 2 := ⟨fuel - 2, by omega⟩
  refine ⟨[], .nil, ?_⟩
  rw [List.cons_append]
  refine readValue_array _ _ ?_
  rw [List.append_assoc, skipBlanks_append hb, List.singleton_append,
    skipBlanks_cons (by decide), readItems_close]
  rfl

lemma readsValue_array (hbegins : Begins s) (h : ReadsItems s ts) :
    ReadsValue ('[' :: s) (.array ts (.ok ())) := by
  intro fuel rest hfuel _
  rw [List.length_cons] at hfuel
  obtain ⟨fuel, rfl⟩ : ∃ k, fuel = k + 2 := ⟨fuel - 2, by omega⟩
  refine ⟨[], .nil, ?_⟩
  rw [List.cons_append]
  refine readValue_array _ _ ?_
  obtain ⟨c, cs, hs, hc⟩ := hbegins.append rest
  rw [hs, readItems_item _ hc, ← hs]
  exact h fuel rest (by omega)

lemma readsValue_emptyObject (hb : Blank b) :
    ReadsValue ('\x7b' :: (b ++ ['\x7d'])) (.object [] (.ok ())) := by
  intro fuel rest hfuel _
  rw [List.length_cons] at hfuel
  obtain ⟨fuel, rfl⟩ : ∃ k, fuel = k + 2 := ⟨fuel - 2, by omega⟩
  refine ⟨[], .nil, ?_⟩
  rw [List.cons_append]
  refine readValue_object _ _ ?_
  rw [List.append_assoc, skipBlanks_append hb, List.singleton_append,
    skipBlanks_cons (by decide), readFields_close]
  rfl

lemma readsValue_object (hbegins : ∀ rest, ∃ cs, skipBlanks (s ++ rest) = '"' :: cs)
    (h : ReadsFields s fs) : ReadsValue ('\x7b' :: s) (.object fs (.ok ())) := by
  intro fuel rest hfuel _
  rw [List.length_cons] at hfuel
  obtain ⟨fuel, rfl⟩ : ∃ k, fuel = k + 2 := ⟨fuel - 2, by omega⟩
  refine ⟨[], .nil, ?_⟩
  rw [List.cons_append]
  refine readValue_object _ _ ?_
  obtain ⟨cs, hs⟩ := hbegins rest
  rw [hs, readFields_field _ (by decide), ← hs]
  exact h fuel rest (by omega)

lemma readsValue_around (hb : Blank b) (h : ReadsValue s t) (hb' : Blank b') :
    ReadsValue (b ++ (s ++ b')) t := by
  intro fuel rest hfuel hrest
  simp only [List.length_append] at hfuel
  obtain ⟨r, hr, hread⟩ := h fuel (b' ++ rest) (by omega) (hb'.delimits hrest)
  refine ⟨r ++ b', hr.append hb', ?_⟩
  rw [← readValue_skipBlanks, List.append_assoc, skipBlanks_append hb, readValue_skipBlanks,
    List.append_assoc, hread, List.append_assoc]

lemma readsItems_last (h : ReadsValue s t) : ReadsItems (s ++ [']']) [t] := by
  intro fuel rest hfuel
  rw [List.length_append, List.length_singleton] at hfuel
  obtain ⟨fuel, rfl⟩ : ∃ k, fuel = k + 1 := ⟨fuel - 1, by omega⟩
  obtain ⟨r, hr, hread⟩ := h fuel (']' :: rest) (by omega) (delimits_cons (by decide) _)
  rw [readItem, readValue_skipBlanks, List.append_assoc, List.singleton_append, hread]
  simp only [skipBlanks_append hr, skipBlanks_cons (show isBlank ']' = false by decide)]

lemma readsItems_more (h : ReadsValue s t) (hbegins : Begins s') (hs : ReadsItems s' ts) :
    ReadsItems (s ++ ',' :: s') (t :: ts) := by
  intro fuel rest hfuel
  rw [List.length_append, List.length_cons] at hfuel
  obtain ⟨fuel, rfl⟩ : ∃ k, fuel = k + 1 := ⟨fuel - 1, by omega⟩
  obtain ⟨r, hr, hread⟩ := h fuel (',' :: (s' ++ rest)) (by omega) (delimits_cons (by decide) _)
  obtain ⟨c, cs, hbegin, hc⟩ := hbegins.append rest
  have hitems := hs fuel rest (by omega)
  rw [readItem, readValue_skipBlanks, List.append_assoc, List.cons_append, hread]
  simp only [skipBlanks_append hr, skipBlanks_cons (show isBlank ',' = false by decide)]
  rw [hbegin] at hitems ⊢
  split
  · next heq => exact absurd (List.cons.inj heq).1 hc
  · rw [hitems]

lemma readsFields_last (h : ReadsField s f) : ReadsFields (s ++ ['\x7d']) [f] := by
  intro fuel rest hfuel
  obtain ⟨⟨hb, hname, hb'⟩, h⟩ := h
  simp only [List.length_append, List.length_singleton] at hfuel
  obtain ⟨fuel, rfl⟩ : ∃ k, fuel = k + 1 := ⟨fuel - 1, by omega⟩
  obtain ⟨r, hr, hread⟩ := h fuel ('\x7d' :: rest) (by omega) (delimits_cons (by decide) _)
  simp only [List.append_assoc, List.cons_append, List.nil_append, skipBlanks_append hb]
  rw [skipBlanks_cons (by decide), readField, readString_append hname]
  simp only [List.nil_append, skipBlanks_append hb',
    skipBlanks_cons (show isBlank ':' = false by decide), hread, skipBlanks_append hr,
    skipBlanks_cons (show isBlank '\x7d' = false by decide)]

lemma readsFields_more (h : ReadsField s f) (hs : ReadsFields s' fs) :
    ReadsFields (s ++ ',' :: s') (f :: fs) := by
  intro fuel rest hfuel
  obtain ⟨⟨hb, hname, hb'⟩, h⟩ := h
  simp only [List.length_append, List.length_cons] at hfuel
  obtain ⟨fuel, rfl⟩ : ∃ k, fuel = k + 1 := ⟨fuel - 1, by omega⟩
  obtain ⟨r, hr, hread⟩ := h fuel (',' :: (s' ++ rest)) (by omega) (delimits_cons (by decide) _)
  simp only [List.append_assoc, List.cons_append, List.nil_append, skipBlanks_append hb]
  rw [skipBlanks_cons (by decide), readField, readString_append hname]
  simp only [List.nil_append, skipBlanks_append hb',
    skipBlanks_cons (show isBlank ':' = false by decide), hread, skipBlanks_append hr,
    skipBlanks_cons (show isBlank ',' = false by decide), hs fuel rest (by omega)]

mutual

lemma Spells.reads : ∀ {s t}, Spells s t → ReadsValue s t
  | _, _, .scalar h hr => readsValue_scalar h hr
  | _, _, .emptyArray hb => readsValue_emptyArray hb
  | _, _, .array h => readsValue_array (begins_of_items h) (reads_items h)
  | _, _, .emptyObject hb => readsValue_emptyObject hb
  | _, _, .object h => readsValue_object (begins_of_fields h) (reads_fields h)
  | _, _, .around hb h hb' => readsValue_around hb h.reads hb'

lemma SpellsField.reads : ∀ {s f}, SpellsField s f → ReadsField s f
  | _, _, .field hn h => .field hn h.reads

lemma reads_items : ∀ {s ts}, Listed ']' Spells s ts → ReadsItems s ts
  | _, _, .last h => readsItems_last h.reads
  | _, _, .more h hs => readsItems_more h.reads (begins_of_items hs) (reads_items hs)

lemma reads_fields : ∀ {s fs}, Listed '\x7d' SpellsField s fs → ReadsFields s fs
  | _, _, .last h => readsFields_last h.reads
  | _, _, .more h hs => readsFields_more h.reads (reads_fields hs)

end

/-- **A text that follows the grammar is laid out as it says**, to its end. -/
theorem Document.read_of_spells {text : String} (h : Spells text.toList t) :
    Document.read text = ⟨t, .ok ()⟩ := by
  obtain ⟨r, hr, hread⟩ :=
    h.reads (3 * text.toList.length + 3) [] (by omega) fun _ hc => nomatch hc
  rw [List.append_nil, List.append_nil] at hread
  have hend : skipBlanks r = [] := List.dropWhile_eq_nil_iff.2 hr
  simp only [Document.read, hread, ok_bind, hend, pure_eq_ok]

end ConvFlow.Json
