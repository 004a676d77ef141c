/-
# Printed values follow the grammar

Every printed string, number and value follows the grammar of JSON texts, so it is laid out as the
value that it spells out.  The layout makes no difference: the blanks of the two layouts stand where
the grammar admits any.

What is read back of a number is the number that its own text is read as.  Natural numbers of 64
bits are read as they are written (`spells_natural`); whether a float is depends on its digits, and
one of single precision never comes back as such.  So a value is read back with every number
replaced by what its text is read as (`Document.read_compact`, `Document.read_pretty`).
-/
import ConvFlow.Json.Decoder
import ConvFlow.Json.Printer
import ConvFlow.Proofs.Json.Grammar

namespace ConvFlow.Json

open Outcome

/-! ## Strings -/

/-- A control character is the one with the number that its two digits spell. -/
lemma hexNumber?_twoHexDigits : ∀ n < 32,
    hexNumber? '0' '0' (Nat.digitChar (n / 16)) (Nat.digitChar (n % 16)) = some n
      ∧ isLowHalf n = false ∧ isHighHalf n = false := by
  decide

/-- How a character is written: by a short escape, by a numbered one, or as it is. -/
lemma escapeChar_cases (c : Char) :
    (∃ e, (escapeChar c).toList = ['\\', e] ∧ shortEscape? e = some c)
      ∨ (c.toNat < 32 ∧ (escapeChar c).toList
          = ['\\', 'u', '0', '0', Nat.digitChar (c.toNat / 16), Nat.digitChar (c.toNat % 16)])
      ∨ ((escapeChar c).toList = [c] ∧ c ≠ '\\' ∧ c ≠ '"' ∧ ¬ c < ' ') := by
  unfold escapeChar
  split
  · exact .inl ⟨_, rfl, rfl⟩
  · exact .inl ⟨_, rfl, rfl⟩
  · exact .inl ⟨_, rfl, rfl⟩
  · exact .inl ⟨_, rfl, rfl⟩
  · exact .inl ⟨_, rfl, rfl⟩
  · exact .inl ⟨_, rfl, rfl⟩
  · exact .inl ⟨_, rfl, rfl⟩
  · next hquote hslash _ _ _ _ _ =>
    split
    · next hc =>
      refine .inr (.inl ⟨hc, ?_⟩)
      simp [twoHexDigits]
    · next hc =>
      exact .inr (.inr ⟨by simp, hslash, hquote, hc⟩)

lemma passString_escapeChar (c : Char) (cs : List Char) :
    passString ((escapeChar c).toList ++ cs) = passString cs := by
  obtain ⟨e, htext, he⟩ | ⟨hc, htext⟩ | ⟨htext, hslash, hquote, hc⟩ := escapeChar_cases c
  · rw [htext]
    exact passString_short he
  · rw [htext]
    exact passString_numbered (hexNumber?_twoHexDigits _ hc).1
  · rw [htext]
    exact passString_plain hslash hquote hc

lemma unquote_escapeChar (c : Char) (before cs : List Char) :
    unquote before none ((escapeChar c).toList ++ cs) = unquote (c :: before) none cs := by
  obtain ⟨e, htext, he⟩ | ⟨hc, htext⟩ | ⟨htext, hslash, hquote, hc⟩ := escapeChar_cases c
  · rw [htext]
    exact unquote_short he
  · obtain ⟨hn, hlow, hhigh⟩ := hexNumber?_twoHexDigits _ hc
    rw [htext]
    refine (unquote_numbered hn).trans ?_
    simp only [hlow, hhigh, Bool.false_eq_true, if_false, Char.ofNat_toNat]
    rfl
  · rw [htext]
    exact unquote_plain hslash hquote hc

lemma passString_escaped (cs rest : List Char) :
    passString (cs.flatMap (fun c => (escapeChar c).toList) ++ '"' :: rest) = .ok rest := by
  induction cs with
  | nil => simp [passString]
  | cons c cs ih => rw [List.flatMap_cons, List.append_assoc, passString_escapeChar, ih]

lemma unquote_escaped (before cs rest : List Char) :
    unquote before none (cs.flatMap (fun c => (escapeChar c).toList) ++ '"' :: rest)
      = .ok (String.ofList (before.reverse ++ cs), rest) := by
  induction cs generalizing before with
  | nil => simp [unquote]
  | cons c cs ih =>
    rw [List.flatMap_cons, List.append_assoc, unquote_escapeChar, ih, List.reverse_cons,
      List.append_assoc, List.singleton_append]

/-- A string between its quotes. -/
lemma exists_quoteString (s : String) :
    ∃ cs, (quoteString s).toList = '"' :: cs ∧ readString cs = (.ofValue s, .ok []) := by
  refine ⟨s.toList.flatMap (fun c => (escapeChar c).toList) ++ ['"'], ?_, ?_⟩
  · simp [quoteString, List.flatMap_map]
  · rw [readString, passString_escaped, unquote_escaped]
    simp [Lexeme.ofValue]

lemma spells_quoteString (s : String) : Spells (quoteString s).toList (.string (.ofValue s)) := by
  obtain ⟨cs, htext, hread⟩ := exists_quoteString s
  rw [htext]
  refine .scalar (r := []) ?_ .nil
  simp [readScalar, hread]

lemma spellsName_quoteString (s : String) :
    SpellsName ((quoteString s).toList ++ [':']) (.ofValue s) := by
  obtain ⟨cs, htext, hread⟩ := exists_quoteString s
  rw [htext]
  exact .name .nil hread .nil

/-! ## Numbers -/

lemma toJson_eq_number {room : Nat} {t : Tree} {m : Number} (h : t.toJson room = .ok (.number m)) :
    ∃ l, t = .scalar l ∧ l.value = .ok (.number m) := by
  cases t with
  | absent p => simp [Tree.toJson] at h
  | scalar l =>
    rw [Tree.toJson] at h
    obtain ⟨v, hv, h⟩ := bind_eq_ok_iff.1 h
    cases v with
    | null => cases h
    | bool b => cases h
    | number n =>
      cases h
      exact ⟨l, rfl, hv⟩
  | string l =>
    rw [Tree.toJson] at h
    obtain ⟨s, hs, h⟩ := map_eq_ok_iff.1 h
    cases h
  | array items ending =>
    cases room with
    | zero => simp [Tree.toJson] at h
    | succ room =>
      simp only [Tree.toJson, bind_eq_ok_iff] at h
      obtain ⟨js, _, _, _, h⟩ := h
      cases h
  | object fields ending =>
    cases room with
    | zero => simp [Tree.toJson] at h
    | succ room =>
      simp only [Tree.toJson, bind_eq_ok_iff] at h
      obtain ⟨js, _, _, _, h⟩ := h
      cases h

/-- A scalar that ends somewhere is passed over. -/
lemma passing_of_readScalar {c : Char} {cs r : List Char} {l : Lexeme Scalar}
    (h : readScalar c cs = (.scalar l, .ok r)) : l.passing = .ok () := by
  have hliteral {word : String} {s : Scalar} (h : readLiteral word s cs = (.scalar l, .ok r)) :
      l.passing = .ok () := by
    obtain ⟨htree, hbehind⟩ := Prod.mk.inj h
    cases htree
    exact map_eq_ok_iff.2 ⟨r, hbehind, rfl⟩
  have hnumeral {negative : Bool} {cs : List Char}
      (h : readNumeral negative cs = (.scalar l, .ok r)) : l.passing = .ok () := by
    obtain ⟨htree, hbehind⟩ := Prod.mk.inj h
    cases htree
    exact map_eq_ok_iff.2 ⟨r, hbehind, rfl⟩
  unfold readScalar at h
  split_ifs at h
  · exact hliteral h
  · exact hliteral h
  · exact hliteral h
  · cases (Prod.mk.inj h).1
  · exact hnumeral h
  · exact hnumeral h
  · cases h

/-- A text that is read as a number follows the grammar. -/
lemma spells_of_number {text : String} {m : Number}
    (h : Decoder.ofText Decoder.json text = .ok (.number m)) :
    Spells text.toList (Tree.ofJson (.number m)) := by
  obtain ⟨j, hroot, h⟩ := bind_eq_ok_iff.1 h
  obtain ⟨hending, h⟩ := check_bind_eq_ok_iff.1 h
  cases h
  obtain ⟨r, hbehind, hending⟩ := bind_eq_ok_iff.1 hending
  obtain ⟨l, hl, hvalue⟩ := toJson_eq_number hroot
  have hread : readValue (3 * text.toList.length + 3) text.toList = (.scalar l, .ok r) :=
    Prod.ext hl hbehind
  have hr : Blank r := by
    cases hskip : skipBlanks r with
    | nil => exact List.dropWhile_eq_nil_iff.1 hskip
    | cons c cs =>
      rw [hskip] at hending
      cases hending
  rw [readValue] at hread
  have hfront : Blank (text.toList.takeWhile isBlank) := fun c hc => List.mem_takeWhile_imp hc
  have hsplit : text.toList = text.toList.takeWhile isBlank ++ (skipBlanks text.toList ++ []) := by
    rw [List.append_nil, skipBlanks, List.takeWhile_append_dropWhile]
  rw [hsplit]
  refine .around hfront ?_ .nil
  cases hcs : skipBlanks text.toList with
  | nil =>
    rw [hcs] at hread
    cases hread
  | cons c cs =>
    simp only [hcs] at hread
    split_ifs at hread
    · cases (Prod.mk.inj hread).1
    · cases (Prod.mk.inj hread).1
    · have hl : l = .ofValue (.number m) := by
        rw [Lexeme.ofValue, ← hvalue, ← passing_of_readScalar hread]
      rw [Tree.ofJson, ← hl]
      exact .scalar hread hr

/-! ## Natural numbers -/

namespace Numeral

/-- The digits of a number in decimal notation. -/
def decimal (n : Nat) : List Nat := (Nat.toDigits 10 n).map fun c => c.toNat - '0'.toNat

lemma digit?_of_isDigit {c : Char} (hc : c.isDigit = true) :
    digit? c = some (c.toNat - '0'.toNat) := by
  have hrange : '0' ≤ c ∧ c ≤ '9' := by simpa [Char.isDigit, Char.le_def] using hc
  rw [digit?, if_pos hrange]

lemma digits_of_isDigit {cs : List Char} (hcs : ∀ c ∈ cs, c.isDigit = true) :
    digits cs = (cs.map fun c => c.toNat - '0'.toNat, []) := by
  induction cs with
  | nil => rfl
  | cons c cs ih =>
    obtain ⟨hc, hcs⟩ := List.forall_mem_cons.1 hcs
    simp only [digits, digit?_of_isDigit hc, ih hcs, List.map_cons]

lemma isDigit_toDigits {n : Nat} {c : Char} (hc : c ∈ Nat.toDigits 10 n) : c.isDigit = true :=
  Nat.isDigit_of_mem_toDigits (by decide) (by decide) hc

lemma digits_toDigits (n : Nat) : digits (Nat.toDigits 10 n) = (decimal n, []) :=
  digits_of_isDigit fun _ hc => isDigit_toDigits hc

lemma decimal_of_lt {n : Nat} (hn : n < 10) : decimal n = [n] := by
  rw [decimal, Nat.toDigits_of_lt_base hn]
  have hdigit : ∀ m < 10, (Nat.digitChar m).toNat - '0'.toNat = m := by decide
  exact congrArg (fun m => [m]) (hdigit n hn)

/-- A number that is not zero does not begin with a zero. -/
lemma head_decimal {n : Nat} (hn : n ≠ 0) : ∃ d ds, decimal n = d :: ds ∧ d ≠ 0 := by
  induction n using Nat.strong_induction_on with
  | _ n ih =>
    by_cases hlt : n < 10
    · exact ⟨n, [], decimal_of_lt hlt, hn⟩
    · obtain ⟨d, ds, hds, hd⟩ := ih (n / 10) (by omega) (by omega)
      refine ⟨d, ds ++ decimal (n % 10), ?_, hd⟩
      rw [← List.cons_append, ← hds, decimal, Nat.toDigits_of_base_le (by decide) (by omega),
        List.map_append, decimal, decimal, Nat.toDigits_of_lt_base (Nat.mod_lt _ (by decide))]

lemma spelled_decimal (n : Nat) : spelled (decimal n) = n := by
  rw [spelled, decimal, List.foldl_map]
  have h : Nat.ofDigitChars 10 (Nat.toDigits 10 n) 0 = _ := Nat.ofDigitChars_eq_foldl
  rw [Nat.ofDigitChars_ten_toDigits] at h
  simpa [Nat.mul_comm] using h.symm

lemma le_foldl (ds : List Nat) (s : Nat) : s ≤ ds.foldl (fun n d => n * 10 + d) s := by
  induction ds generalizing s with
  | nil => exact le_rfl
  | cons d ds ih =>
    have h := ih (s * 10 + d)
    rw [List.foldl_cons]
    omega

lemma append_eq {ds : List Nat} {s : Nat}
    (h : ds.foldl (fun n d => n * 10 + d) s ≤ maxSignificand) :
    append s ds = (ds.foldl (fun n d => n * 10 + d) s, ds.length) := by
  induction ds generalizing s with
  | nil => rfl
  | cons d ds ih =>
    have hle := le_foldl ds (s * 10 + d)
    rw [List.foldl_cons] at h
    rw [append, if_neg (by omega), ih h]
    rfl

/-- The value of a numeral that is a whole number without a sign. -/
lemma value_decimal {n : Nat} (hn : n < UInt64.size) :
    Numeral.value ⟨false, decimal n, none, none⟩ = .ok (.integer n) := by
  have happend : append 0 (decimal n) = (n, (decimal n).length) := by
    have hspelled : (decimal n).foldl (fun m d => m * 10 + d) 0 = n := spelled_decimal n
    have h : append 0 (decimal n) = _ := append_eq (by rw [hspelled, maxSignificand]; omega)
    rwa [hspelled] at h
  simp [Numeral.value, happend, wholeValue]

lemma read_toDigits (atEnd : Problem) (n : Nat) :
    Numeral.read atEnd false (Nat.toDigits 10 n) = .ok (⟨false, decimal n, none, none⟩, []) := by
  have hne : decimal n ≠ [] := by simp [decimal, Nat.toDigits_ne_nil]
  have hwhole : wholePart atEnd (Nat.toDigits 10 n) = .ok (decimal n, []) := by
    refine wholePart_eq_ok_iff.2 ⟨someDigits_eq_ok_iff.2 ⟨digits_toDigits n, hne⟩, ?_⟩
    intro d ds h
    obtain rfl | hn := eq_or_ne n 0
    · simp [decimal_of_lt] at h
    · obtain ⟨d', ds', hds, hd⟩ := head_decimal hn
      rw [hds] at h
      exact hd (List.cons.inj h).1
  rw [Numeral.read, hwhole, ok_bind]
  rfl

end Numeral

/-- A natural number of 64 bits is read as it is written. -/
lemma spells_natural {n : Nat} (hn : n < UInt64.size) :
    Spells (Number.integer n).text.toList (Tree.ofJson (ofNat n)) := by
  have htext : (Number.integer n).text.toList = Nat.toDigits 10 n := by
    have hn : ¬ (n : Int) < 0 := by omega
    simp [Number.text, Text.integer, Nat.repr_eq_ofList_toDigits, hn]
  have hread (atEnd : Problem) := Numeral.read_toDigits atEnd n
  rw [htext]
  cases hds : Nat.toDigits 10 n with
  | nil => exact absurd hds Nat.toDigits_ne_nil
  | cons c cs =>
    have hc : c.isDigit = true := Numeral.isDigit_toDigits (n := n) (by simp [hds])
    refine .scalar (r := []) ?_ .nil
    rw [hds] at hread
    have hnumeral : readNumeral false (c :: cs) = (Tree.ofJson (ofNat n), .ok []) := by
      simp only [readNumeral, hread, ok_bind, map_ok, Numeral.value_decimal hn]
      rfl
    have hne {x : Char} (hx : x.isDigit = false) : c ≠ x := by
      rintro rfl
      rw [hc] at hx
      cases hx
    rw [readScalar, if_neg (hne rfl), if_neg (hne rfl), if_neg (hne rfl), if_neg (hne rfl),
      if_neg (hne rfl), if_pos (by simp [Numeral.digit?_of_isDigit hc]), hnumeral]

/-! ## What is read back of a value -/

/-- The number that the text of a number is read as. -/
def Number.reread (n : Number) : Number :=
  match Decoder.ofText Decoder.json n.text with
  | .ok (.number m) => m
  | _ => n

/-- The text of a number is read as a number. -/
def Number.Legible (n : Number) : Prop :=
  ∃ m, Decoder.ofText Decoder.json n.text = .ok (.number m)

lemma spells_number {n : Number} (h : n.Legible) :
    Spells n.text.toList (Tree.ofJson (.number n.reread)) := by
  obtain ⟨m, hm⟩ := h
  have hreread : n.reread = m := by rw [Number.reread, hm]
  rw [hreread]
  exact spells_of_number hm

mutual

/-- The value that the text of a value is read as, which has other numbers if its own are of single
precision. -/
def reread : Json → Json
  | null => null
  | bool b => bool b
  | number n => number n.reread
  | string s => string s
  | array items => array (rereadItems items)
  | object members => object (rereadMembers members)

/-- The items of an array as they are read back. -/
def rereadItems : List Json → List Json
  | [] => []
  | j :: js => reread j :: rereadItems js

/-- The members of an object as they are read back. -/
def rereadMembers : List (String × Json) → List (String × Json)
  | [] => []
  | (k, j) :: rest => (k, reread j) :: rereadMembers rest

end

mutual

/-- The numbers of a value. -/
def numbers : Json → List Number
  | number n => [n]
  | array items => itemNumbers items
  | object members => memberNumbers members
  | _ => []

/-- The numbers of the items of an array. -/
def itemNumbers : List Json → List Number
  | [] => []
  | j :: js => numbers j ++ itemNumbers js

/-- The numbers of the members of an object. -/
def memberNumbers : List (String × Json) → List Number
  | [] => []
  | (_, j) :: rest => numbers j ++ memberNumbers rest

end

/-! ## Lists of parts -/

variable {β : Type} {R : List Char → β → Prop} {parts : List String} {xs : List β}

/-- Parts with commas between them and the same blanks in front of each. -/
lemma listed_of_parts {close : Char} {front back : String} (hfront : Blank front.toList)
    (hback : Blank back.toList)
    (hR : ∀ {b s b' x}, Blank b → R s x → Blank b' → R (b ++ (s ++ b')) x) {x : β}
    (h : List.Forall₂ (fun s x => R s.toList x) parts (x :: xs)) :
    Listed close R ((",".intercalate (parts.map (front ++ ·))).toList ++ (back.toList ++ [close]))
      (x :: xs) := by
  induction xs generalizing parts x with
  | nil =>
    cases h with
    | cons hpart hrest => 
      cases hrest
      have hlast : Listed close R _ [x] := .last (hR hfront hpart hback)
      simpa [List.append_assoc] using hlast
  | cons y ys ih =>
    cases h with
    | cons hpart hrest => 
      have hmore := Listed.more (hR hfront hpart .nil) (ih hrest)
      cases hrest
      simpa [List.append_assoc] using hmore

/-- A part of an array is followed by the tree of its item. -/
abbrev ItemParts (parts : List String) (ts : List Tree) : Prop :=
  List.Forall₂ (fun s t => Spells s.toList t) parts ts

/-- A part of an object is followed by its field. -/
abbrev FieldParts (parts : List String) (fs : List (Option (Lexeme String) × Tree)) : Prop :=
  List.Forall₂ (fun s f => SpellsField s.toList f) parts fs

variable {front back : String} {ts : List Tree} {fs : List (Option (Lexeme String) × Tree)}

lemma spells_array (hfront : Blank front.toList) (hback : Blank back.toList)
    (h : ItemParts parts ts) :
    Spells ("[" ++ ",".intercalate (parts.map (front ++ ·)) ++ back ++ "]").toList
      (.array ts (.ok ())) := by
  cases ts with
  | nil =>
    cases h
    simpa using Spells.emptyArray hback
  | cons t ts =>
    simpa [List.append_assoc] using Spells.array (listed_of_parts hfront hback .around h)

lemma spells_object (hfront : Blank front.toList) (hback : Blank back.toList)
    (h : FieldParts parts fs) :
    Spells ("\x7b" ++ ",".intercalate (parts.map (front ++ ·)) ++ back ++ "\x7d").toList
      (.object fs (.ok ())) := by
  cases fs with
  | nil =>
    cases h
    simpa using Spells.emptyObject hback
  | cons f fs =>
    simpa [List.append_assoc] using Spells.object (listed_of_parts hfront hback .around h)

lemma spellsField_member {colon s : String} {b : List Char} {t : Tree} (k : String)
    (hcolon : colon.toList = ':' :: b) (hb : Blank b) (h : Spells s.toList t) :
    SpellsField (quoteString k ++ colon ++ s).toList (some (.ofValue k), t) := by
  simpa [List.append_assoc, hcolon] using
    SpellsField.field (spellsName_quoteString k) (.around hb h .nil)

lemma blank_empty : Blank "".toList := fun _ hc => nomatch hc

lemma blank_space : Blank [' '] := by simp [Blank, isBlank]

lemma blank_indent (depth : Nat) : Blank (indent depth).toList := by
  intro c hc
  rw [indent, String.toList_ofList, List.mem_cons, List.mem_replicate] at hc
  obtain rfl | ⟨-, rfl⟩ := hc <;> rfl

lemma spells_arrayBlock (depth : Nat) (h : ItemParts parts ts) :
    Spells (block "[" "]" depth parts).toList (.array ts (.ok ())) := by
  unfold block
  split
  · next hparts =>
    rw [List.isEmpty_iff.1 hparts] at h
    simpa using spells_array blank_empty blank_empty h
  · exact spells_array (blank_indent (depth + 1)) (blank_indent depth) h

lemma spells_objectBlock (depth : Nat) (h : FieldParts parts fs) :
    Spells (block "\x7b" "\x7d" depth parts).toList (.object fs (.ok ())) := by
  unfold block
  split
  · next hparts =>
    rw [List.isEmpty_iff.1 hparts] at h
    simpa using spells_object blank_empty blank_empty h
  · exact spells_object (blank_indent (depth + 1)) (blank_indent depth) h

/-! ## Values -/

lemma spells_null : Spells "null".toList (Tree.ofJson .null) := .scalar (r := []) rfl .nil

lemma spells_bool (b : Bool) :
    Spells (if b then "true" else "false" : String).toList (Tree.ofJson (.bool b)) := by
  cases b with
  | false => exact .scalar (r := []) rfl .nil
  | true => exact .scalar (r := []) rfl .nil

mutual

/-- A value that is written without blanks follows the grammar. -/
lemma spells_compact : ∀ j : Json, (∀ n ∈ j.numbers, n.Legible) →
    Spells (compact j).toList (Tree.ofJson j.reread)
  | .null, _ => spells_null
  | .bool b, _ => spells_bool b
  | .number n, h => spells_number (h n (List.mem_singleton_self n))
  | .string s, _ => spells_quoteString s
  | .array items, h => by
    have hparts := spells_array (blank_empty) (blank_empty) (itemParts_compact items h)
    simpa [compact, reread, Tree.ofJson] using hparts
  | .object members, h => by
    have hparts := spells_object (blank_empty) (blank_empty) (fieldParts_compact members h)
    simpa [compact, reread, Tree.ofJson] using hparts

lemma itemParts_compact : ∀ js : List Json, (∀ n ∈ itemNumbers js, n.Legible) →
    ItemParts (compactItems js) (Tree.itemsOfJson (rereadItems js))
  | [], _ => .nil
  | j :: js, h =>
    .cons (spells_compact j fun n hn => h n (List.mem_append_left _ hn))
      (itemParts_compact js fun n hn => h n (List.mem_append_right _ hn))

lemma fieldParts_compact : ∀ ms : List (String × Json), (∀ n ∈ memberNumbers ms, n.Legible) →
    FieldParts (compactMembers ms) (Tree.fieldsOfJson (rereadMembers ms))
  | [], _ => .nil
  | (k, j) :: rest, h => by
    have hvalue := spells_compact j fun n hn => h n (List.mem_append_left _ hn)
    exact .cons (spellsField_member k rfl .nil hvalue)
      (fieldParts_compact rest fun n hn => h n (List.mem_append_right _ hn))

end

mutual

/-- A value that is written with one part to a line follows the grammar. -/
lemma spells_prettyAt : ∀ (depth : Nat) (j : Json), (∀ n ∈ j.numbers, n.Legible) →
    Spells (prettyAt depth j).toList (Tree.ofJson j.reread)
  | _, .null, _ => spells_null
  | _, .bool b, _ => spells_bool b
  | _, .number n, h => spells_number (h n (List.mem_singleton_self n))
  | _, .string s, _ => spells_quoteString s
  | depth, .array items, h => spells_arrayBlock depth (itemParts_pretty (depth + 1) items h)
  | depth, .object members, h =>
    spells_objectBlock depth (fieldParts_pretty (depth + 1) members h)

lemma itemParts_pretty : ∀ (depth : Nat) (js : List Json), (∀ n ∈ itemNumbers js, n.Legible) →
    ItemParts (prettyItems depth js) (Tree.itemsOfJson (rereadItems js))
  | _, [], _ => .nil
  | depth, j :: js, h =>
    .cons (spells_prettyAt depth j fun n hn => h n (List.mem_append_left _ hn))
      (itemParts_pretty depth js fun n hn => h n (List.mem_append_right _ hn))

lemma fieldParts_pretty : ∀ (depth : Nat) (ms : List (String × Json)),
    (∀ n ∈ memberNumbers ms, n.Legible) →
    FieldParts (prettyMembers depth ms) (Tree.fieldsOfJson (rereadMembers ms))
  | _, [], _ => .nil
  | depth, (k, j) :: rest, h => by
    have hvalue := spells_prettyAt depth j fun n hn => h n (List.mem_append_left _ hn)
    exact .cons (spellsField_member k rfl blank_space hvalue)
      (fieldParts_pretty depth rest fun n hn => h n (List.mem_append_right _ hn))

end

variable {j : Json}

/-- **A printed value is laid out as the value that its numbers make of it**, without blanks and
with one part to a line alike. -/
theorem Document.read_compact (h : ∀ n ∈ j.numbers, n.Legible) :
    Document.read (compact j) = ⟨Tree.ofJson j.reread, .ok ()⟩ :=
  Document.read_of_spells (spells_compact j h)

theorem Document.read_pretty (h : ∀ n ∈ j.numbers, n.Legible) :
    Document.read (pretty j) = ⟨Tree.ofJson j.reread, .ok ()⟩ :=
  Document.read_of_spells (spells_prettyAt 0 j h)

end ConvFlow.Json
