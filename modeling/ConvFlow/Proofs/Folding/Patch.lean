/-
# What patching a configuration touches

The rules of a category set the attributes of a layer as described by `CategoryRules.Sets`, which
says what the attributes are afterwards and where they stand, not how they are set.  Attributes that
are as the rules want them are not changed (`CategoryRules.Sets.setAll_eq_self`).

Patching goes through the members of a configuration in order.  A member that fits, foreign or a
layer with an object for an entry, is patched by itself and reported (`patch_cons_of_fits`); at the
first member that does not fit the patching stops (`patch_of_offends`).

The main statements are `patch_exact`, what patching does to every configuration, and
`patch_again`, that patching twice is patching once.
-/
import ConvFlow.Folding.Patch
import ConvFlow.Proofs.Json.Decoding

namespace ConvFlow.Folding

open Json (Members)
open Json.Members (get? get?_set names names_set_of_mem set_of_get? set_of_notMem)

variable {r : Rules} {rules : CategoryRules} {index : Nat} {attrs old new : Members}

/-! ## Attributes -/

/-- The new attributes are named as the old ones, followed by some of the given keys that were not
there. -/
def Adds (keys : List String) (old new : Members) : Prop :=
  ∃ added, added.Sublist keys ∧ (∀ key ∈ added, key ∉ names old) ∧ names new = names old ++ added

namespace Adds

variable {keys keys' : List String} {mid : Members}

lemma refl (keys : List String) (attrs : Members) : Adds keys attrs attrs :=
  ⟨[], List.nil_sublist keys, by simp, (List.append_nil _).symm⟩

lemma trans (h : Adds keys old mid) (h' : Adds keys' mid new) : Adds (keys ++ keys') old new := by
  obtain ⟨added, hsub, hfresh, hmid⟩ := h
  obtain ⟨added', hsub', hfresh', hnew⟩ := h'
  refine ⟨added ++ added', hsub.append hsub', fun key hkey => ?_, ?_⟩
  · rcases List.mem_append.1 hkey with hkey | hkey
    · exact hfresh key hkey
    · have hnotin := hfresh' key hkey
      rw [hmid, List.mem_append, not_or] at hnotin
      exact hnotin.1
  · rw [hnew, hmid, List.append_assoc]

/-- An attribute that is set keeps its place, or comes last if it is new. -/
lemma set (key : String) (value : Json) (attrs : Members) :
    Adds [key] attrs (attrs.set key value) := by
  by_cases hkey : key ∈ names attrs
  · exact ⟨[], List.nil_sublist _, by simp, by rw [names_set_of_mem hkey, List.append_nil]⟩
  · refine ⟨[key], List.Sublist.refl _, by simpa using hkey, ?_⟩
    rw [set_of_notMem hkey, names, names, List.map_append]
    rfl

end Adds

section Reached

variable {β : Type} {key : String} {name : β → String} {t : Threshold β}

lemma get?_setReached (k : String) : get? k (setReached key name t index attrs) =
    if k = key ∧ t.reaches index then some (.string (name t.value)) else get? k attrs := by
  rw [setReached]
  split_ifs <;> simp_all [get?_set]

lemma adds_setReached : Adds [key] attrs (setReached key name t index attrs) := by
  rw [setReached]
  split
  · exact .set key _ attrs
  · exact .refl _ attrs

/-- An attribute that has its value already is not changed. -/
lemma setReached_eq_self (old : Members)
    (h : get? key attrs = if t.reaches index then some (.string (name t.value)) else get? key old) :
    setReached key name t index attrs = attrs := by
  rw [setReached]
  split_ifs at h ⊢ with hreached
  · exact set_of_get? h
  · rfl

end Reached

/-- The names of the attributes that rules can set, in the order in which they are set. -/
def CategoryRules.attributes : List String :=
  ["ram_style", "runtime_writeable_weights", "resType", "mem_mode"]

/-- What the rules of a category do to the attributes of a layer.  Each of the three attributes has
the value of its rule if the layer is reached by its threshold, weights can be written at run time
if the memory has just become ultra, and all else is as it was.  Attributes that were there stand
where they stood, and new ones come behind them. -/
structure CategoryRules.Sets (rules : CategoryRules) (index : Nat) (old new : Members) :
    Prop where
  ramStyle : new.get? "ram_style" =
    if rules.ramStyle.fromIndex ≤ index then some (.string rules.ramStyle.value.name)
    else old.get? "ram_style"
  writeable : new.get? "runtime_writeable_weights" =
    if rules.ramStyle.fromIndex ≤ index ∧ rules.ramStyle.value = .ultra then some (Json.ofNat 1)
    else old.get? "runtime_writeable_weights"
  resType : new.get? "resType" =
    if rules.resType.fromIndex ≤ index then some (.string rules.resType.value.name)
    else old.get? "resType"
  memMode : new.get? "mem_mode" =
    if rules.memMode.fromIndex ≤ index then some (.string rules.memMode.value.name)
    else old.get? "mem_mode"
  others : ∀ key, key ∉ attributes → new.get? key = old.get? key
  order : Adds attributes old new

lemma get?_setRamStyle (t : Threshold RamStyle) (k : String) :
    get? k (setRamStyle t index attrs) =
      if k = "runtime_writeable_weights" ∧ t.reaches index ∧ t.value = .ultra then
        some (Json.ofNat 1)
      else get? k (setReached "ram_style" RamStyle.name t index attrs) := by
  rw [setRamStyle]
  split_ifs <;> simp_all [get?_set]

lemma get?_setAll (k : String) : get? k (rules.setAll index attrs) =
    if k = "mem_mode" ∧ rules.memMode.reaches index then some (.string rules.memMode.value.name)
    else if k = "resType" ∧ rules.resType.reaches index then
      some (.string rules.resType.value.name)
    else if k = "runtime_writeable_weights" ∧ rules.ramStyle.reaches index ∧
        rules.ramStyle.value = .ultra then some (Json.ofNat 1)
    else if k = "ram_style" ∧ rules.ramStyle.reaches index then
      some (.string rules.ramStyle.value.name)
    else get? k attrs := by
  rw [CategoryRules.setAll, get?_setReached, get?_setReached, get?_setRamStyle, get?_setReached]

lemma adds_setAll : Adds CategoryRules.attributes attrs (rules.setAll index attrs) := by
  have hram : Adds ["ram_style", "runtime_writeable_weights"] attrs
      (setRamStyle rules.ramStyle index attrs) := by
    rw [setRamStyle]
    split
    · exact adds_setReached.trans (.set _ _ _)
    · exact adds_setReached.trans (.refl ["runtime_writeable_weights"] _)
  exact hram.trans (adds_setReached.trans adds_setReached)

namespace CategoryRules

/-- Setting all attributes does what the rules say. -/
lemma sets_setAll (rules : CategoryRules) (index : Nat) (attrs : Members) :
    rules.Sets index attrs (rules.setAll index attrs) where
  ramStyle := by simp [get?_setAll, Threshold.reaches]
  writeable := by simp [get?_setAll, Threshold.reaches]
  resType := by simp [get?_setAll, Threshold.reaches]
  memMode := by simp [get?_setAll, Threshold.reaches]
  others := fun key hkey => by
    simp only [attributes, List.mem_cons, List.not_mem_nil, or_false, not_or] at hkey
    obtain ⟨hram, hwriteable, hres, hmem⟩ := hkey
    simp [get?_setAll, hram, hwriteable, hres, hmem]
  order := adds_setAll

/-- Attributes that are as the rules want them are not changed. -/
lemma Sets.setAll_eq_self (h : rules.Sets index old new) : rules.setAll index new = new := by
  have hstyle : setReached "ram_style" RamStyle.name rules.ramStyle index new = new :=
    setReached_eq_self old (by simpa [Threshold.reaches] using h.ramStyle)
  have hram : setRamStyle rules.ramStyle index new = new := by
    rw [setRamStyle, hstyle]
    split_ifs with hultra
    · refine set_of_get? (h.writeable.trans (if_pos ?_))
      simpa [Threshold.reaches] using hultra
    · rfl
  have hres : setReached "resType" ResType.name rules.resType index new = new :=
    setReached_eq_self old (by simpa [Threshold.reaches] using h.resType)
  have hmem : setReached "mem_mode" MemMode.name rules.memMode index new = new :=
    setReached_eq_self old (by simpa [Threshold.reaches] using h.memMode)
  rw [setAll, hram, hres, hmem]

/-- A layer that no threshold reaches keeps its attributes. -/
lemma setAll_of_not_reaches (h : rules.reaches index = false) :
    rules.setAll index attrs = attrs := by
  obtain ⟨⟨hram, hres⟩, hmem⟩ : (rules.ramStyle.reaches index = false ∧
      rules.resType.reaches index = false) ∧ rules.memMode.reaches index = false := by
    simpa [reaches] using h
  simp [setAll, setRamStyle, setReached, hram, hres, hmem]

end CategoryRules

/-! ## Members -/

/-- The member can be patched: it is foreign, or it is a layer with an object for an entry. -/
def Fits (name : String) (entry : Json) : Prop :=
  Layer.parse name = .ok none ∨
    ∃ layer attrs, Layer.parse name = .ok (some layer) ∧ entry = .object attrs

/-- Why the member cannot be patched: its name is refused, or it is a layer with another entry. -/
def Offends (name : String) (entry : Json) (e : LayerError) : Prop :=
  Layer.parse name = .error e ∨
    (∃ layer, Layer.parse name = .ok (some layer)) ∧ (∀ attrs, entry ≠ .object attrs) ∧
      e = .invalidEntry name

lemma fits_or_offends (name : String) (entry : Json) :
    Fits name entry ∨ ∃ e, Offends name entry e := by
  cases hparse : Layer.parse name with
  | error e => exact Or.inr ⟨e, Or.inl hparse⟩
  | ok found =>
    cases found with
    | none => exact Or.inl (Or.inl hparse)
    | some layer =>
      by_cases hentry : ∃ attrs, entry = .object attrs
      · obtain ⟨attrs, rfl⟩ := hentry
        exact Or.inl (Or.inr ⟨layer, attrs, hparse, rfl⟩)
      · exact Or.inr ⟨_, Or.inr ⟨⟨layer, hparse⟩, fun attrs heq => hentry ⟨attrs, heq⟩, rfl⟩⟩

/-- Two summaries, one behind the other. -/
def Summary.append (s t : Summary) : Summary where
  patched := s.patched ++ t.patched
  skipped := s.skipped ++ t.skipped

namespace Rules

/-- The entry of a member after patching. -/
def newEntry (r : Rules) (name : String) (entry : Json) : Json :=
  match Layer.parse name, entry with
  | .ok (some layer), .object attrs =>
    .object ((r.category layer.category).setAll layer.index attrs)
  | _, _ => entry

/-- Whether the name is that of a layer which one of the rules of its category reaches. -/
def selects (r : Rules) (name : String) : Bool :=
  match Layer.parse name with
  | .ok (some layer) => (r.category layer.category).reaches layer.index
  | _ => false

/-- The member after patching. -/
def newMember (r : Rules) (m : String × Json) : String × Json := (m.1, r.newEntry m.1 m.2)

/-- The names in order, those that the rules select apart from the others. -/
def summary (r : Rules) (members : List String) : Summary where
  patched := members.filter r.selects
  skipped := members.filter fun name => !r.selects name

variable {name : String} {entry : Json} {e : LayerError}

lemma newEntry_of_layer {layer : Layer} (h : Layer.parse name = .ok (some layer)) :
    r.newEntry name (.object attrs)
      = .object ((r.category layer.category).setAll layer.index attrs) := by
  simp only [newEntry, h]

/-- Only the attributes of layers are changed. -/
lemma newEntry_cases (name : String) (entry : Json) :
    r.newEntry name entry = entry ∨
      ∃ layer attrs, Layer.parse name = .ok (some layer) ∧ entry = .object attrs := by
  unfold newEntry
  split
  · rename_i layer attrs hlayer
    exact Or.inr ⟨layer, attrs, hlayer, rfl⟩
  · exact Or.inl rfl

lemma newEntry_of_foreign (h : Layer.parse name = .ok none) : r.newEntry name entry = entry := by
  obtain hsame | ⟨layer, attrs, hlayer, -⟩ := newEntry_cases (r := r) name entry
  · exact hsame
  · exact nomatch h.symm.trans hlayer

lemma selects_iff : r.selects name = true ↔
    ∃ layer, Layer.parse name = .ok (some layer) ∧
      ((r.category layer.category).ramStyle.fromIndex ≤ layer.index ∨
        (r.category layer.category).resType.fromIndex ≤ layer.index ∨
        (r.category layer.category).memMode.fromIndex ≤ layer.index) := by
  rw [selects]
  split
  · rename_i layer hparse
    simp [hparse, CategoryRules.reaches, Threshold.reaches, or_assoc]
  · rename_i hother
    exact iff_of_false Bool.false_ne_true fun ⟨layer, hparse, _⟩ => hother layer hparse

/-- A member that fits is patched, and reported as patched if the rules select it. -/
lemma patchEntry_of_fits (h : Fits name entry) :
    r.patchEntry name entry
      = .ok (if r.selects name then some (r.newEntry name entry) else none) := by
  obtain hforeign | ⟨layer, attrs, hlayer, rfl⟩ := h
  · rw [patchEntry, selects, hforeign]
    rfl
  · rw [newEntry_of_layer hlayer, patchEntry, selects, hlayer]
    show (if _ then _ else _) = _
    split
    · rfl
    · rfl

/-- What the rules do not select stays as it is. -/
lemma newEntry_of_not_selects (h : r.selects name = false) : r.newEntry name entry = entry := by
  obtain hsame | ⟨layer, attrs, hlayer, rfl⟩ := newEntry_cases (r := r) name entry
  · exact hsame
  · rw [selects, hlayer] at h
    rw [newEntry_of_layer hlayer, CategoryRules.setAll_of_not_reaches h]

lemma patchEntry_of_offends (h : Offends name entry e) : r.patchEntry name entry = .error e := by
  obtain hrefused | ⟨⟨layer, hlayer⟩, hentry, rfl⟩ := h
  · rw [patchEntry, hrefused]
    rfl
  · rw [patchEntry, hlayer]
    cases entry with
    | object attrs => exact absurd rfl (hentry attrs)
    | _ => rfl

/-- Patching keeps fitting members fitting. -/
lemma fits_newEntry (h : Fits name entry) : Fits name (r.newEntry name entry) := by
  obtain hforeign | ⟨layer, attrs, hlayer, rfl⟩ := h
  · exact Or.inl hforeign
  · exact Or.inr ⟨layer, _, hlayer, newEntry_of_layer hlayer⟩

/-- An entry that has been patched is not changed by patching it again. -/
lemma newEntry_newEntry (name : String) (entry : Json) :
    r.newEntry name (r.newEntry name entry) = r.newEntry name entry := by
  obtain hsame | ⟨layer, attrs, hlayer, rfl⟩ := newEntry_cases (r := r) name entry
  · rw [hsame, hsame]
  · rw [newEntry_of_layer hlayer, newEntry_of_layer hlayer,
      (CategoryRules.sets_setAll _ layer.index attrs).setAll_eq_self]

/-! ## The whole configuration -/

lemma summary_append (xs ys : List String) :
    r.summary (xs ++ ys) = (r.summary xs).append (r.summary ys) := by
  simp [summary, Summary.append]

/-- A member that fits is patched and reported, and plays no role for the members behind it. -/
lemma patch_cons_of_fits (h : Fits name entry) (rest : Members) :
    r.patch ((name, entry) :: rest) = (r.newMember (name, entry) :: (r.patch rest).1,
      (r.patch rest).2.map (r.summary [name]).append) := by
  rw [patch, patchEntry_of_fits h]
  cases hselects : r.selects name with
  | true =>
    simp only [newMember, summary, hselects, if_true, List.filter_cons, List.filter_nil]
    rfl
  | false =>
    simp only [newMember, newEntry_of_not_selects hselects, summary, hselects, List.filter_cons,
      List.filter_nil]
    rfl

/-- At a member that does not fit, patching stops. -/
lemma patch_of_offends (h : Offends name entry e) (rest : Members) :
    r.patch ((name, entry) :: rest) = ((name, entry) :: rest, .error e) := by
  rw [patch, patchEntry_of_offends h]

variable {front config : Members}

/-- Members that fit are patched one by one, whatever comes behind them. -/
lemma patch_append (hfits : ∀ m ∈ front, Fits m.1 m.2) (back : Members) :
    r.patch (front ++ back) = (front.map r.newMember ++ (r.patch back).1,
      (r.patch back).2.map (r.summary (names front)).append) := by
  induction front with
  | nil =>
    rw [List.nil_append]
    rcases r.patch back with ⟨after, e | s⟩
    · rfl
    · rfl
  | cons m front ih =>
    obtain ⟨hm, hfront⟩ := List.forall_mem_cons.1 hfits
    have hnames : names (m :: front) = [m.1] ++ names front := rfl
    rw [List.cons_append, patch_cons_of_fits hm, ih hfront, hnames, summary_append]
    rcases r.patch back with ⟨after, e | s⟩
    · rfl
    · simp [Summary.append]

lemma patch_of_fits (hfits : ∀ m ∈ config, Fits m.1 m.2) :
    r.patch config = (config.map r.newMember, .ok (r.summary (names config))) := by
  have hpatch := patch_append (r := r) hfits []
  rw [List.append_nil] at hpatch
  rw [hpatch, patch, Outcome.map_ok, List.append_nil]
  simp [Summary.append]

lemma patch_of_front {m : String × Json} (hfits : ∀ k ∈ front, Fits k.1 k.2)
    (hm : Offends m.1 m.2 e) (rest : Members) :
    r.patch (front ++ m :: rest) = (front.map r.newMember ++ m :: rest, .error e) := by
  rw [patch_append hfits, patch_of_offends hm]
  rfl

/-- A configuration begins with members that fit, up to its end or to one that does not. -/
lemma exists_front (config : Members) :
    ∃ front back, config = front ++ back ∧ (∀ m ∈ front, Fits m.1 m.2) ∧
      (back = [] ∨ ∃ m rest e, back = m :: rest ∧ Offends m.1 m.2 e) := by
  induction config with
  | nil => exact ⟨[], [], rfl, by simp, Or.inl rfl⟩
  | cons m config ih =>
    obtain hm | ⟨e, hm⟩ := fits_or_offends m.1 m.2
    · obtain ⟨front, back, rfl, hfront, hback⟩ := ih
      exact ⟨m :: front, back, rfl, List.forall_mem_cons.2 ⟨hm, hfront⟩, hback⟩
    · exact ⟨[], m :: config, rfl, by simp, Or.inr ⟨m, config, e, rfl, hm⟩⟩

lemma names_append (xs ys : Members) : names (xs ++ ys) = names xs ++ names ys :=
  List.map_append

lemma names_map_newMember (config : Members) : names (config.map r.newMember) = names config := by
  rw [names, names, List.map_map]
  rfl

/-- **What patching touches.**  The members keep their names and their order.  If all of them fit,
each is patched by itself, and the names that the rules select are reported apart from the others;
otherwise the members in front of the first one that does not fit are patched, it and all behind it
are left alone, and what is wrong with it is reported.  The rules select a layer that one of the
three thresholds of its category reaches.  Foreign members are left alone, and of a layer exactly
the attributes that its category's rules ask for are set. -/
theorem patch_exact (r : Rules) (config : Members) :
    names (r.patch config).1 = names config ∧
    ((∀ m ∈ config, Fits m.1 m.2) →
      r.patch config = (config.map r.newMember, .ok (r.summary (names config)))) ∧
    (¬(∀ m ∈ config, Fits m.1 m.2) → ∃ front m back e, config = front ++ m :: back ∧
      (∀ k ∈ front, Fits k.1 k.2) ∧ Offends m.1 m.2 e ∧
      r.patch config = (front.map r.newMember ++ m :: back, .error e)) ∧
    (∀ name, r.selects name = true ↔ ∃ layer, Layer.parse name = .ok (some layer) ∧
      ((r.category layer.category).ramStyle.fromIndex ≤ layer.index ∨
        (r.category layer.category).resType.fromIndex ≤ layer.index ∨
        (r.category layer.category).memMode.fromIndex ≤ layer.index)) ∧
    (∀ name entry, Layer.parse name = .ok none → r.newEntry name entry = entry) ∧
    (∀ name layer attrs, Layer.parse name = .ok (some layer) →
      ∃ attrs', r.newEntry name (.object attrs) = .object attrs' ∧
        (r.category layer.category).Sets layer.index attrs attrs') := by
  refine ⟨?_, patch_of_fits, fun hnot => ?_, fun name => selects_iff,
    fun name entry => newEntry_of_foreign, fun name layer attrs hlayer => ?_⟩
  · obtain ⟨front, back, rfl, hfront, rfl | ⟨m, rest, e, rfl, hm⟩⟩ := exists_front config
    · rw [List.append_nil, patch_of_fits hfront, names_map_newMember]
    · rw [patch_of_front hfront hm, names_append, names_append, names_map_newMember]
  · obtain ⟨front, back, rfl, hfront, rfl | ⟨m, rest, e, rfl, hm⟩⟩ := exists_front config
    · rw [List.append_nil] at hnot
      exact absurd hfront hnot
    · exact ⟨front, m, rest, e, rfl, hfront, hm, patch_of_front hfront hm rest⟩
  · exact ⟨_, newEntry_of_layer hlayer, CategoryRules.sets_setAll _ layer.index attrs⟩

/-- A foreign member, a layer that one of the standard rules for its category reaches, and a layer
whose number is missing. -/
def unfinished : Members := [("Defaults", .object []),
  ("MVAU_hls_7", .object [("ram_style", .string "block"), ("PE", Json.ofNat 4)]),
  ("VVAU_rtl", .object [("PE", Json.ofNat 1)])]

/-- The standard rules patch the first two members of the unfinished configuration and stop at the
third one, and without it they patch all of the configuration. -/
theorem unfinished_patched :
    (∃ front m back e, unfinished = front ++ m :: back ∧ (∀ k ∈ front, Fits k.1 k.2) ∧
      Offends m.1 m.2 e ∧
      standard.patch unfinished = (front.map standard.newMember ++ m :: back, .error e)) ∧
    standard.patch (unfinished.take 2) = ((unfinished.take 2).map standard.newMember,
      .ok (standard.summary (names (unfinished.take 2)))) ∧
    ∃ attrs, standard.newEntry "MVAU_hls_7" (.object [("ram_style", .string "block")])
        = .object attrs ∧
      standard.matrixVector.Sets 7 [("ram_style", .string "block")] attrs := by
  have hlayer : Layer.parse "MVAU_hls_7" = .ok (some ⟨.matrixVector, 7⟩) := rfl
  have hrefused : Layer.parse "VVAU_rtl" = .error (.invalidIndex "VVAU_rtl") := rfl
  have hfits : ∀ m ∈ unfinished.take 2, Fits m.1 m.2 := by
    intro m hm
    obtain rfl | rfl : m = _ ∨ m = _ := by simpa [unfinished] using hm
    · exact Or.inl rfl
    · exact Or.inr ⟨_, _, hlayer, rfl⟩
  have hnot : ¬∀ m ∈ unfinished, Fits m.1 m.2 := by
    intro hall
    obtain hforeign | ⟨layer, attrs, hparse, -⟩ :=
      hall ("VVAU_rtl", .object [("PE", Json.ofNat 1)]) (by simp [unfinished])
    · exact nomatch hrefused.symm.trans hforeign
    · exact nomatch hrefused.symm.trans hparse
  obtain ⟨-, -, hstops, -⟩ := patch_exact standard unfinished
  obtain ⟨-, hpatched, -, -, -, hsets⟩ := patch_exact standard (unfinished.take 2)
  exact ⟨hstops hnot, hpatched hfits, hsets _ _ _ hlayer⟩

/-- **Patching twice is patching once.**  Patching what a first patching has left behind, be it
complete or stopped at a member that does not fit, changes nothing and reports the same. -/
theorem patch_again (r : Rules) (config : Members) :
    r.patch (r.patch config).1 = r.patch config := by
  obtain ⟨front, back, rfl, hfront, hback⟩ := exists_front config
  have hfront' : ∀ m ∈ front.map r.newMember, Fits m.1 m.2 := by
    intro m' hm'
    obtain ⟨m, hm, rfl⟩ := List.mem_map.1 hm'
    exact fits_newEntry (hfront m hm)
  have hmembers : (front.map r.newMember).map r.newMember = front.map r.newMember := by
    rw [List.map_map]
    exact List.map_congr_left fun m _ => congrArg (m.1, ·) (newEntry_newEntry m.1 m.2)
  have hstop : (r.patch back).1 = back := by
    obtain rfl | ⟨m, rest, e, rfl, hm⟩ := hback
    · rfl
    · rw [patch_of_offends hm]
  rw [patch_append hfront back, hstop, patch_append hfront' back, hmembers, hstop,
    names_map_newMember]

end Rules

end ConvFlow.Folding
