/-
# What comes back of printed values

`ReadsBack d j r` says that printing the value `j` and decoding the text with `d` has the outcome
`r`: all numbers of `j` are read as numbers, and the value that is read in place of `j` decodes to
`r`.  Strings, natural numbers, lists and records come back whenever their parts do, and so do
members that have been read before, as long as their numbers are read as themselves.
-/
import ConvFlow.Proofs.Json.Decoding
import ConvFlow.Proofs.Json.Printing

namespace ConvFlow.Json

open Outcome

/-- All numbers of a value are read as numbers. -/
def Legible (j : Json) : Prop := ∀ n ∈ j.numbers, n.Legible

section Numbers

variable {n : Number} {js : List Json} {ms : Members} {j : Json}

lemma mem_itemNumbers : n ∈ itemNumbers js ↔ ∃ j ∈ js, n ∈ j.numbers := by
  induction js with
  | nil => simp [itemNumbers]
  | cons j js ih => simp [itemNumbers, ih]

lemma mem_memberNumbers : n ∈ memberNumbers ms ↔ ∃ m ∈ ms, n ∈ m.2.numbers := by
  induction ms with
  | nil => simp [memberNumbers]
  | cons m ms ih => simp [memberNumbers, ih]

lemma legible_array (h : ∀ j ∈ js, Legible j) : Legible (.array js) := fun n hn => by
  obtain ⟨j, hj, hn⟩ := mem_itemNumbers.1 hn
  exact h j hj n hn

lemma legible_object (h : ∀ m ∈ ms, Legible m.2) : Legible (.object ms) := fun n hn => by
  obtain ⟨m, hm, hn⟩ := mem_memberNumbers.1 hn
  exact h m hm n hn

@[simp] lemma rereadItems_eq_map (js : List Json) : rereadItems js = js.map reread := by
  induction js with
  | nil => rfl
  | cons j js ih => rw [rereadItems, ih, List.map_cons]

@[simp] lemma rereadMembers_eq_map (ms : Members) :
    rereadMembers ms = ms.map fun m => (m.1, m.2.reread) := by
  induction ms with
  | nil => rfl
  | cons m ms ih => rw [rereadMembers, ih, List.map_cons]

mutual

/-- A value comes back as it is if its numbers do. -/
lemma reread_eq_self : ∀ {j : Json}, (∀ n ∈ j.numbers, n.reread = n) → j.reread = j
  | .null, _ | .bool _, _ | .string _, _ => rfl
  | .number n, h => congrArg Json.number (h n (List.mem_singleton_self n))
  | .array _, h => congrArg Json.array (rereadItems_eq_self h)
  | .object _, h => congrArg Json.object (rereadMembers_eq_self h)

lemma rereadItems_eq_self : ∀ {js : List Json}, (∀ n ∈ itemNumbers js, n.reread = n) →
    rereadItems js = js
  | [], _ => rfl
  | _ :: _, h =>
    congrArg₂ List.cons (reread_eq_self fun n hn => h n (List.mem_append_left _ hn))
      (rereadItems_eq_self fun n hn => h n (List.mem_append_right _ hn))

lemma rereadMembers_eq_self : ∀ {ms : List (String × Json)},
    (∀ n ∈ memberNumbers ms, n.reread = n) → rereadMembers ms = ms
  | [], _ => rfl
  | (_, _) :: _, h =>
    congrArg₂ List.cons
      (congrArg (Prod.mk _) (reread_eq_self fun n hn => h n (List.mem_append_left _ hn)))
      (rereadMembers_eq_self fun n hn => h n (List.mem_append_right _ hn))

end

end Numbers

/-! ## Values that decode to something once they have been printed -/

variable {β γ : Type} {d : Decoder β} {j : Json} {b : β} {r : Except Problem β}

/-- The outcome of decoding a printed value. -/
structure ReadsBack (d : Decoder β) (j : Json) (r : Except Problem β) : Prop where
  /-- Its numbers are read as numbers. -/
  legible : Legible j
  /-- The value that is read back decodes in this way. -/
  decoded : d (Tree.ofJson j.reread) = r

lemma ReadsBack.ofText {text : String} (hread : Document.read text = ⟨Tree.ofJson j.reread, .ok ()⟩)
    (h : ReadsBack d j r) : Decoder.ofText d text = r := by
  rw [Decoder.ofText, hread]
  simp only [h.decoded]
  cases r <;> rfl

lemma ReadsBack.pretty (h : ReadsBack d j r) : Decoder.ofText d (Json.pretty j) = r :=
  h.ofText (Document.read_pretty h.legible)

lemma ReadsBack.compact (h : ReadsBack d j r) : Decoder.ofText d (Json.compact j) = r :=
  h.ofText (Document.read_compact h.legible)

lemma readsBack_text (s : String) : ReadsBack Decoder.text (.string s) (.ok s) :=
  ⟨fun _ hn => (nomatch hn), rfl⟩

/-- A printed list comes back as its items do, one after another. -/
lemma readsBack_listOf {l : List γ} {f : γ → Json} {r : γ → Except Problem β}
    (h : ∀ c ∈ l, ReadsBack d (f c) (r c)) :
    ReadsBack (Decoder.listOf d) (.array (l.map f)) (l.mapM r) := by
  refine ⟨legible_array ?_, ?_⟩
  · intro j hj
    obtain ⟨c, hc, rfl⟩ := List.mem_map.1 hj
    exact (h c hc).legible
  · rw [reread, rereadItems_eq_map, Decoder.listOf_ofJson, List.mapM_map, List.mapM_map]
    exact mapM_congr fun c hc => (h c hc).decoded

/-- A printed map comes back as its entries do. -/
lemma readsBack_entriesOf {l : List (String × γ)} {f : γ → Json} {r : γ → Except Problem β}
    (h : ∀ m ∈ l, ReadsBack d (f m.2) (r m.2)) :
    ReadsBack (Decoder.entriesOf d) (.object (l.map fun m => (m.1, f m.2)))
      (l.mapM fun m => (r m.2).map fun b => (m.1, b)) := by
  refine ⟨legible_object ?_, ?_⟩
  · intro m hm
    obtain ⟨c, hc, rfl⟩ := List.mem_map.1 hm
    exact (h c hc).legible
  · rw [reread, rereadMembers_eq_map, Decoder.entriesOf_ofJson, List.mapM_map, List.mapM_map]
    refine mapM_congr fun m hm => ?_
    simp only [Function.comp_apply, (h m hm).decoded]

/-- A list of values that come back as they are unless they fail a test. -/
lemma readsBack_listOf_ite {l : List β} {f : β → Json} {p : β → Bool} {e : Problem}
    (h : ∀ b ∈ l, ReadsBack d (f b) (if p b then .ok b else .error e)) :
    ReadsBack (Decoder.listOf d) (.array (l.map f)) (if l.all p then .ok l else .error e) := by
  have hlist := readsBack_listOf h
  rwa [mapM_ite, List.map_id'] at hlist

/-- A list of values that come back as they are. -/
lemma readsBack_listOf_self {l : List β} {f : β → Json}
    (h : ∀ b ∈ l, ReadsBack d (f b) (.ok b)) :
    ReadsBack (Decoder.listOf d) (.array (l.map f)) (.ok l) := by
  have hlist := readsBack_listOf_ite (p := fun _ => true) (e := .unfit) h
  rwa [if_pos (by simp)] at hlist

/-- Natural numbers of 64 bits come back as they are. -/
lemma reread_natural {n : Nat} (hn : n < UInt64.size) :
    (Number.integer n).Legible ∧ (Number.integer n).reread = .integer n := by
  have hread := Document.read_of_spells (spells_natural hn)
  have htext : Decoder.ofText Decoder.json (Number.integer n).text
      = .ok (.number (.integer n)) := by
    rw [Decoder.ofText, hread]
    rfl
  exact ⟨⟨_, htext⟩, by rw [Number.reread, htext]⟩

/-- A value that nests no deeper than allowed and has only natural numbers comes back as it is. -/
lemma readsBack_naturals (hj : Decoder.json (Tree.ofJson j) = .ok j)
    (hnumbers : ∀ n ∈ j.numbers, ∃ k < UInt64.size, n = .integer k) :
    ReadsBack Decoder.json j (.ok j) := by
  have hreread : ∀ n ∈ j.numbers, n.Legible ∧ n.reread = n := by
    intro n hn
    obtain ⟨k, hk, rfl⟩ := hnumbers n hn
    exact reread_natural hk
  refine ⟨fun n hn => (hreread n hn).1, ?_⟩
  rw [reread_eq_self fun n hn => (hreread n hn).2, hj]

lemma readsBack_below {n bound : Nat} (hn : n < bound) (hbound : bound ≤ UInt64.size) :
    ReadsBack (Decoder.below bound) (ofNat n) (.ok n) := by
  obtain ⟨hlegible, hreread⟩ := reread_natural (hn.trans_le hbound)
  refine ⟨?_, ?_⟩
  · intro m hm
    obtain rfl : m = .integer n := List.mem_singleton.1 hm
    exact hlegible
  · have hrange : (0 : Int) ≤ n ∧ (n : Int) < bound := by omega
    rw [ofNat, reread, hreread]
    exact if_pos hrange

lemma exists_number_of_single {t : Tree} {x : Float32} (h : Decoder.single t = .ok x) :
    ∃ m, Decoder.json t = .ok (.number m) ∧ m.toSingle = x := by
  obtain ⟨s, hs, h⟩ := bind_eq_ok_iff.1 h
  cases s with
  | number m =>
    cases h
    cases t with
    | scalar l =>
      have hl : l.value = .ok (.number m) := hs
      refine ⟨m, ?_, rfl⟩
      rw [Decoder.json, Tree.toJson, hl]
      rfl
    | _ => cases hs
  | _ => cases h

/-- A number of single precision comes back if its text is read as itself. -/
lemma readsBack_single {x : Float32}
    (h : Decoder.ofText Decoder.single (Number.single x).text = .ok x) :
    ReadsBack Decoder.single (.number (.single x)) (.ok x) := by
  obtain ⟨y, hroot, h⟩ := bind_eq_ok_iff.1 h
  obtain ⟨hending, h⟩ := check_bind_eq_ok_iff.1 h
  cases h
  -- The text holds a number, and the same number is found when nothing is known of it beforehand.
  obtain ⟨m, hm, rfl⟩ := exists_number_of_single hroot
  have hjson : Decoder.ofText Decoder.json (Number.single m.toSingle).text = .ok (.number m) := by
    rw [Decoder.ofText, hm, ok_bind, hending]
    rfl
  have hreread : (Number.single m.toSingle).reread = m := by rw [Number.reread, hjson]
  refine ⟨?_, ?_⟩
  · intro n hn
    obtain rfl : n = .single m.toSingle := List.mem_singleton.1 hn
    exact ⟨m, hjson⟩
  · rw [reread, hreread]
    rfl

lemma readsBack_members {room : Nat} {ms : Members} {t : Tree}
    (h : Decoder.members room t = .ok ms)
    (hms : ∀ n ∈ memberNumbers ms, Decoder.ofText Decoder.json n.text = .ok (.number n)) :
    ReadsBack (Decoder.members room) (.object ms) (.ok ms) := by
  have hreread : ∀ n ∈ memberNumbers ms, n.reread = n := fun n hn => by
    rw [Number.reread, hms n hn]
  refine ⟨fun n hn => ⟨n, hms n hn⟩, ?_⟩
  rw [reread, rereadMembers_eq_self hreread]
  exact Decoder.members_ofJson h

/-! ## Records -/

section Records

variable {ms : Members} {name : String}

lemma get?_rereadMembers (ms : Members) (name : String) :
    Members.get? name (rereadMembers ms) = (ms.get? name).map reread := by
  induction ms with
  | nil => rfl
  | cons m ms ih =>
    obtain ⟨k, j⟩ := m
    rw [rereadMembers, Members.get?, Members.get?]
    split
    · rfl
    · exact ih

lemma names_rereadMembers (ms : Members) : Members.names (rereadMembers ms) = Members.names ms := by
  rw [rereadMembers_eq_map, Members.names, List.map_map]
  rfl

/-- The fields of a record that has been printed as an object with these members. -/
def Fields.ofPrinted (ms : Members) : Fields := .ofMembers (rereadMembers ms)

lemma required_ofPrinted (hname : ms.get? name = some j) (hj : ReadsBack d j (.ok b)) :
    (Fields.ofPrinted ms).required name d = .ok b :=
  Fields.required_ofMembers (by rw [get?_rereadMembers, hname]; rfl) hj.decoded

lemma required_ofPrinted_error {p : Problem} (hname : ms.get? name = some j)
    (hj : ReadsBack d j (.error p)) :
    ∃ place, (Fields.ofPrinted ms).required name d = .error (place, p) :=
  Fields.required_ofMembers_error (by rw [get?_rereadMembers, hname]; rfl) hj.decoded

lemma optional_ofPrinted {default : β} (hname : ms.get? name = some j)
    (hj : ReadsBack d j (.ok b)) : (Fields.ofPrinted ms).optional name default d = .ok b :=
  Fields.optional_ofMembers (by rw [get?_rereadMembers, hname]; rfl) hj.decoded

lemma optional_ofPrinted_error {default : β} {p : Problem} (hname : ms.get? name = some j)
    (hj : ReadsBack d j (.error p)) :
    ∃ place, (Fields.ofPrinted ms).optional name default d = .error (place, p) :=
  Fields.optional_ofMembers_error (by rw [get?_rereadMembers, hname]; rfl) hj.decoded

lemma optional_ofPrinted_missing {default : β} (hname : ms.get? name = none) :
    (Fields.ofPrinted ms).optional name default d = .ok default :=
  Fields.optional_of_missing (by rw [get?_rereadMembers, hname]; rfl)

variable {names : List String} {build : Fields → Located β}

/-- A record comes back as it is built from its printed fields. -/
lemma readsBack_record (hnames : names.Nodup) (hms : (Members.names ms).Sublist names)
    (hlegible : ∀ m ∈ ms, Legible m.2) (hbuild : build (Fields.ofPrinted ms) = .ok b) :
    ReadsBack (Decoder.record names build) (.object ms) (.ok b) := by
  rw [← names_rereadMembers] at hms
  exact ⟨legible_object hlegible,
    Decoder.record_ofJson (hms.nodup hnames) hms.subset hbuild⟩

lemma readsBack_record_error {p : Problem} (hnames : names.Nodup)
    (hms : (Members.names ms).Sublist names) (hlegible : ∀ m ∈ ms, Legible m.2)
    (hbuild : ∃ place, build (Fields.ofPrinted ms) = .error (place, p)) :
    ReadsBack (Decoder.record names build) (.object ms) (.error p) := by
  obtain ⟨place, hbuild⟩ := hbuild
  rw [← names_rereadMembers] at hms
  exact ⟨legible_object hlegible,
    Decoder.record_ofJson_error (hms.nodup hnames) hms.subset hbuild⟩

end Records

end ConvFlow.Json
