/-
# Decoding what has been read before

A value that has been read out of some tree is read again as it is: its brackets fit into the room
and the names in its objects differ (`Tree.toJson_ofJson`).

The fields of a record that is written as an object stand under their names, so a decoder for
records finds each member of the object (`Fields.required_ofMembers`).  Conversely, whatever a
decoder for records or lists returns has come out of decoders for the parts.
-/
import ConvFlow.Json.Decoder
import ConvFlow.Proofs.Outcome
import Mathlib.Data.List.Nodup

namespace ConvFlow.Json

open Outcome

/-! ## Members -/

namespace Members

variable {name : String} {value : Json} {ms : Members}

/-- The names of the members, in order. -/
def names (ms : Members) : List String := ms.map Prod.fst

lemma mem_of_mem_set {m : String × Json} (hm : m ∈ set name value ms) :
    m ∈ ms ∨ m = (name, value) := by
  induction ms with
  | nil => exact .inr (List.mem_singleton.1 hm)
  | cons head rest ih =>
    obtain ⟨k, v⟩ := head
    rw [set] at hm
    split at hm
    · next hk =>
      obtain rfl | hrest := List.mem_cons.1 hm
      · exact .inr (by rw [hk])
      · exact .inl (List.mem_cons_of_mem _ hrest)
    · obtain rfl | hrest := List.mem_cons.1 hm
      · exact .inl (List.mem_cons_self ..)
      · exact (ih hrest).imp_left (List.mem_cons_of_mem _)

lemma set_of_notMem (h : name ∉ names ms) : set name value ms = ms ++ [(name, value)] := by
  induction ms with
  | nil => rfl
  | cons head rest ih =>
    obtain ⟨k, v⟩ := head
    obtain ⟨hk, hrest⟩ := not_or.1 (mt List.mem_cons.2 h)
    rw [set, if_neg (Ne.symm hk), ih hrest, List.cons_append]

lemma names_set_of_mem (h : name ∈ names ms) : names (set name value ms) = names ms := by
  induction ms with
  | nil => exact absurd h List.not_mem_nil
  | cons head rest ih =>
    obtain ⟨k, v⟩ := head
    rw [set]
    split
    · rfl
    · next hk =>
      have hrest : name ∈ names rest := (List.mem_cons.1 h).resolve_left (Ne.symm hk)
      exact congrArg (k :: ·) (ih hrest)

/-- Setting a member to the value that it has changes nothing. -/
lemma set_of_get? (h : get? name ms = some value) : set name value ms = ms := by
  induction ms with
  | nil => exact nomatch h
  | cons head rest ih =>
    obtain ⟨k, v⟩ := head
    rw [get?] at h
    rw [set]
    split at h
    · next hk => rw [if_pos hk, Option.some.inj h]
    · next hk => rw [if_neg hk, ih h]

lemma nodup_set (h : (names ms).Nodup) : (names (set name value ms)).Nodup := by
  by_cases hname : name ∈ names ms
  · rwa [names_set_of_mem hname]
  · rw [set_of_notMem hname, names, List.map_append]
    refine List.nodup_append.2 ⟨h, List.nodup_singleton _, fun k hk k' hk' => ?_⟩
    obtain rfl : k' = name := List.mem_singleton.1 hk'
    exact fun heq => hname (heq ▸ hk)

/-- Members that are set one after another have different names. -/
lemma nodup_ofPairs (pairs : List (String × Json)) : (names (ofPairs pairs)).Nodup := by
  have hfold (ms : Members) (hms : (names ms).Nodup) :
      (names (pairs.foldl (fun ms p => ms.set p.1 p.2) ms)).Nodup := by
    induction pairs generalizing ms with
    | nil => exact hms
    | cons p pairs ih => exact ih _ (nodup_set hms)
  exact hfold [] List.nodup_nil

/-- Only pairs that are set become members. -/
lemma mem_of_mem_ofPairs {pairs : List (String × Json)} {m : String × Json}
    (hm : m ∈ ofPairs pairs) : m ∈ pairs := by
  have hfold (ps : List (String × Json)) (ms : Members)
      (hm : m ∈ ps.foldl (fun ms p => ms.set p.1 p.2) ms) : m ∈ ms ∨ m ∈ ps := by
    induction ps generalizing ms with
    | nil => exact .inl hm
    | cons p ps ih =>
      obtain hset | hrest := ih _ hm
      · obtain hms | rfl := mem_of_mem_set hset
        · exact .inl hms
        · exact .inr (List.mem_cons_self ..)
      · exact .inr (List.mem_cons_of_mem _ hrest)
  exact (hfold pairs [] hm).resolve_left List.not_mem_nil

/-- Members with different names are set as they are. -/
lemma ofPairs_eq_self (h : (names ms).Nodup) : ofPairs ms = ms := by
  have hfold (front back : Members) (h : (names (front ++ back)).Nodup) :
      back.foldl (fun ms p => ms.set p.1 p.2) front = front ++ back := by
    induction back generalizing front with
    | nil => exact (List.append_nil front).symm
    | cons m back ih =>
      have hm : m.1 ∉ names front := by
        rw [names, List.map_append] at h
        intro hmem
        exact (List.nodup_append.1 h).2.2 _ hmem _ (by simp) rfl
      rw [List.foldl_cons, set_of_notMem hm, ih (front ++ [m]) (by simpa using h)]
      simp
  exact hfold [] ms h

end Members

/-! ## Values that have been read -/

namespace Tree

lemma fieldsOfJson_eq_map (ms : Members) :
    fieldsOfJson ms = ms.map fun m => (some (.ofValue m.1), ofJson m.2) := by
  induction ms with
  | nil => rfl
  | cons m ms ih =>
    obtain ⟨k, j⟩ := m
    rw [fieldsOfJson, ih, List.map_cons]

lemma itemsOfJson_eq_map (js : List Json) : itemsOfJson js = js.map ofJson := by
  induction js with
  | nil => rfl
  | cons j js ih => rw [itemsOfJson, ih, List.map_cons]

lemma fieldsToJson_fieldsOfJson {room : Nat} {ms : Members}
    (h : ∀ m ∈ ms, (ofJson m.2).toJson room = .ok m.2) :
    fieldsToJson room (fieldsOfJson ms) = .ok ms := by
  induction ms with
  | nil => rfl
  | cons m ms ih =>
    obtain ⟨k, j⟩ := m
    obtain ⟨hj, hms⟩ := List.forall_mem_cons.1 h
    simp only [fieldsOfJson, fieldsToJson, Lexeme.ofValue, ok_bind, hj, ih hms, pure_eq_ok]

mutual

/-- A value that has been read is read again as it is. -/
lemma toJson_ofJson : ∀ {room : Nat} {t : Tree} {j : Json}, t.toJson room = .ok j →
    (ofJson j).toJson room = .ok j
  | _, .absent p, _, h => by cases h
  | _, .scalar l, _, h => by
    rw [toJson] at h
    obtain ⟨v, -, h⟩ := bind_eq_ok_iff.1 h
    cases v <;> cases h <;> rfl
  | _, .string l, _, h => by
    rw [toJson] at h
    obtain ⟨s, -, rfl⟩ := map_eq_ok_iff.1 h
    rfl
  | 0, .array items ending, _, h => by
    rw [toJson] at h
    cases h
  | room + 1, .array items ending, _, h => by
    rw [toJson] at h
    obtain ⟨js, hjs, h⟩ := bind_eq_ok_iff.1 h
    obtain ⟨-, h⟩ := check_bind_eq_ok_iff.1 h
    cases h
    rw [ofJson, toJson, itemsToJson_itemsOfJson hjs]
    rfl
  | 0, .object fields ending, _, h => by
    rw [toJson] at h
    cases h
  | room + 1, .object fields ending, _, h => by
    rw [toJson] at h
    obtain ⟨pairs, hpairs, h⟩ := bind_eq_ok_iff.1 h
    obtain ⟨-, h⟩ := check_bind_eq_ok_iff.1 h
    cases h
    have hms : ∀ m ∈ Members.ofPairs pairs, (ofJson m.2).toJson room = .ok m.2 := fun m hm =>
      toJson_ofJson_of_mem hpairs (Members.mem_of_mem_ofPairs hm)
    rw [ofJson, toJson, fieldsToJson_fieldsOfJson hms]
    simp only [ok_bind, Members.ofPairs_eq_self (Members.nodup_ofPairs pairs), pure_eq_ok]

lemma itemsToJson_itemsOfJson : ∀ {room : Nat} {ts : List Tree} {js : List Json},
    itemsToJson room ts = .ok js → itemsToJson room (itemsOfJson js) = .ok js
  | _, [], _, h => by
    cases h
    rfl
  | room, t :: ts, _, h => by
    rw [itemsToJson] at h
    obtain ⟨j, hj, h⟩ := bind_eq_ok_iff.1 h
    obtain ⟨js, hjs, h⟩ := bind_eq_ok_iff.1 h
    cases h
    rw [itemsOfJson, itemsToJson, toJson_ofJson hj, itemsToJson_itemsOfJson hjs]
    rfl

lemma toJson_ofJson_of_mem : ∀ {room : Nat} {fs : List (Option (Lexeme String) × Tree)}
    {pairs : List (String × Json)}, fieldsToJson room fs = .ok pairs →
    ∀ {m}, m ∈ pairs → (ofJson m.2).toJson room = .ok m.2
  | _, [], _, h, _, hm => by
    cases h
    cases hm
  | _, (none, t) :: _, _, h, _, _ => by cases h
  | room, (some name, t) :: rest, _, h, m, hm => by
    rw [fieldsToJson] at h
    obtain ⟨k, -, h⟩ := bind_eq_ok_iff.1 h
    obtain ⟨j, hj, h⟩ := bind_eq_ok_iff.1 h
    obtain ⟨pairs, hpairs, h⟩ := bind_eq_ok_iff.1 h
    cases h
    obtain rfl | hm := List.mem_cons.1 hm
    · exact toJson_ofJson hj
    · exact toJson_ofJson_of_mem hpairs hm

end

end Tree

/-! ## Lists and maps -/

namespace Decoder

variable {β γ : Type} {d : Decoder β} {t : Tree}

lemma listOf_ofJson (d : Decoder β) (js : List Json) :
    listOf d (Tree.ofJson (.array js)) = js.mapM fun j => d (Tree.ofJson j) := by
  rw [Tree.ofJson, Tree.itemsOfJson_eq_map, listOf, List.mapM_map, Function.comp_def]
  cases js.mapM fun j => d (Tree.ofJson j) <;> rfl

lemma entriesOf_ofJson (d : Decoder β) (ms : Members) :
    entriesOf d (Tree.ofJson (.object ms))
      = ms.mapM fun m => (d (Tree.ofJson m.2)).map fun b => (m.1, b) := by
  have hentry (m : String × Json) : entry d (some (.ofValue m.1), Tree.ofJson m.2)
      = (d (Tree.ofJson m.2)).map fun b => (m.1, b) := by
    rw [entry, Lexeme.ofValue, ok_bind]
    cases d (Tree.ofJson m.2) <;> rfl
  rw [Tree.ofJson, Tree.fieldsOfJson_eq_map, entriesOf, List.mapM_map]
  simp only [Function.comp_def, hentry]
  cases ms.mapM fun m => (d (Tree.ofJson m.2)).map fun b => (m.1, b) <;> rfl

lemma exists_of_listOf {bs : List β} (h : listOf d t = .ok bs) {b : β} (hb : b ∈ bs) :
    ∃ t, d t = .ok b := by
  cases t with
  | array items ending =>
    rw [listOf] at h
    obtain ⟨bs', hitems, h⟩ := bind_eq_ok_iff.1 h
    obtain ⟨-, h⟩ := check_bind_eq_ok_iff.1 h
    cases h
    obtain ⟨t, -, ht⟩ := exists_of_mem_forall₂ (mapM_eq_ok_iff.1 hitems) hb
    exact ⟨t, ht⟩
  | _ => cases h

lemma exists_of_entriesOf {bs : List (String × β)} (h : entriesOf d t = .ok bs)
    {b : String × β} (hb : b ∈ bs) : ∃ t, d t = .ok b.2 := by
  cases t with
  | object fields ending =>
    rw [entriesOf] at h
    obtain ⟨bs', hfields, h⟩ := bind_eq_ok_iff.1 h
    obtain ⟨-, h⟩ := check_bind_eq_ok_iff.1 h
    cases h
    obtain ⟨f, -, hf⟩ := exists_of_mem_forall₂ (mapM_eq_ok_iff.1 hfields) hb
    obtain ⟨_ | name, t⟩ := f
    · cases hf
    · rw [entry] at hf
      obtain ⟨k, -, hf⟩ := bind_eq_ok_iff.1 hf
      obtain ⟨b', hb', hf⟩ := bind_eq_ok_iff.1 hf
      cases hf
      exact ⟨t, hb'⟩
  | _ => cases h

/-- Members that have been read are read again as they are. -/
lemma members_ofJson {room : Nat} {ms : Members} (h : members room t = .ok ms) :
    members room (Tree.ofJson (.object ms)) = .ok ms := by
  obtain ⟨pairs, hpairs, rfl⟩ := map_eq_ok_iff.1 h
  have hvalues : ∀ m ∈ Members.ofPairs pairs, (Tree.ofJson m.2).toJson room = .ok m.2 := by
    intro m hm
    obtain ⟨t, ht⟩ := exists_of_entriesOf hpairs (Members.mem_of_mem_ofPairs hm)
    exact Tree.toJson_ofJson ht
  have hentries : entriesOf (Tree.toJson room) (Tree.ofJson (.object (Members.ofPairs pairs)))
      = .ok (Members.ofPairs pairs) := by
    rw [entriesOf_ofJson, mapM_eq_ok_iff, List.forall₂_same]
    intro m hm
    rw [hvalues m hm, map_ok]
  rw [members, hentries, map_ok, Members.ofPairs_eq_self (Members.nodup_ofPairs pairs)]

end Decoder

/-! ## Records -/

namespace Located

variable {β γ : Type}

lemma seq_eq_ok_iff {f : Located (β → γ)} {x : Located β} {c : γ} :
    (f <*> x) = .ok c ↔ ∃ g b, f = .ok g ∧ x = .ok b ∧ g b = c := by
  constructor
  · intro h
    cases f with
    | error e => cases x <;> cases h
    | ok g =>
      cases x with
      | error e => cases h
      | ok b => exact ⟨g, b, rfl, rfl, Except.ok.inj h⟩
  · rintro ⟨g, b, rfl, rfl, rfl⟩
    rfl

lemma map_eq_ok_iff {f : β → γ} {x : Located β} {c : γ} :
    (f <$> x) = .ok c ↔ ∃ b, x = .ok b ∧ f b = c := by
  constructor
  · intro h
    cases x with
    | error e => cases h
    | ok b => exact ⟨b, rfl, Except.ok.inj h⟩
  · rintro ⟨b, rfl, rfl⟩
    rfl

end Located

namespace Fields

variable {β : Type} {d : Decoder β} {ms : Members} {name : String} {j : Json} {b : β} {p : Problem}

/-- The fields of a record that has been written as an object. -/
def ofMembers (ms : Members) : Fields where
  known := ms.zipIdx.map fun m => (m.1.1, m.2, Tree.ofJson m.1.2)
  others := []
  flaw := none
  last := ms.length

lemma ofObject_fieldsOfJson {names : List String} {check : Tree → Except Problem Unit}
    (hms : (Members.names ms).Nodup) (hnames : Members.names ms ⊆ names) :
    ofObject names check (.ok ()) 0 [] (Tree.fieldsOfJson ms) = ofMembers ms := by
  have hfrom (ms : Members) (place : Nat) (seen : List String)
      (hms : (Members.names ms).Nodup) (hnames : Members.names ms ⊆ names)
      (hseen : ∀ k ∈ Members.names ms, k ∉ seen) :
      ofObject names check (.ok ()) place seen (Tree.fieldsOfJson ms)
        = ⟨(ms.zipIdx place).map fun m => (m.1.1, m.2, Tree.ofJson m.1.2), [], none,
            place + ms.length⟩ := by
    induction ms generalizing place seen with
    | nil => rfl
    | cons m ms ih =>
      obtain ⟨k, j⟩ := m
      have hk : k ∈ names := hnames (List.mem_cons_self ..)
      obtain ⟨hkms, hms⟩ := List.nodup_cons.1 hms
      obtain ⟨hkseen, hmsseen⟩ := List.forall_mem_cons.1 hseen
      have hnew : ∀ k' ∈ ms.map Prod.fst, k' ∉ k :: seen := fun k' hk' hmem =>
        (List.mem_cons.1 hmem).elim (fun heq => hkms (heq ▸ hk')) (hmsseen k' hk')
      have hrest := ih (place + 1) (k :: seen) hms
        (fun k hk => hnames (List.mem_cons_of_mem _ hk)) hnew
      simp only [Tree.fieldsOfJson, ofObject, Lexeme.ofValue, if_neg hkseen, if_pos hk, hrest]
      simp [Nat.add_right_comm, Nat.add_assoc]
  have h := hfrom ms 0 [] hms hnames fun _ _ => List.not_mem_nil
  rw [h, ofMembers, Nat.zero_add]

lemma lookup_ofMembers (ms : Members) (name : String) :
    ((ofMembers ms).known.lookup name).map Prod.snd = (ms.get? name).map Tree.ofJson := by
  have hfrom (ms : Members) (place : Nat) :
      (((ms.zipIdx place).map fun m => (m.1.1, m.2, Tree.ofJson m.1.2)).lookup name).map Prod.snd
        = (ms.get? name).map Tree.ofJson := by
    induction ms generalizing place with
    | nil => rfl
    | cons m ms ih =>
      obtain ⟨k, v⟩ := m
      rw [List.zipIdx_cons, List.map_cons, List.lookup_cons, Members.get?]
      obtain rfl | hk := eq_or_ne k name
      · rw [if_pos rfl, beq_self_eq_true]
        rfl
      · rw [if_neg hk, beq_false_of_ne hk.symm]
        exact ih (place + 1)
  exact hfrom ms 0

lemma exists_lookup (h : ms.get? name = some j) :
    ∃ place, (ofMembers ms).known.lookup name = some (place, Tree.ofJson j) := by
  have hlookup := lookup_ofMembers ms name
  rw [h, Option.map_some, Option.map_eq_some_iff] at hlookup
  obtain ⟨⟨place, t⟩, hplace, rfl⟩ := hlookup
  exact ⟨place, hplace⟩

lemma required_ofMembers (h : ms.get? name = some j) (hd : d (Tree.ofJson j) = .ok b) :
    (ofMembers ms).required name d = .ok b := by
  obtain ⟨place, hplace⟩ := exists_lookup h
  rw [required, hplace]
  simp only [hd]
  rfl

lemma required_ofMembers_error (h : ms.get? name = some j) (hd : d (Tree.ofJson j) = .error p) :
    ∃ place, (ofMembers ms).required name d = .error (place, p) := by
  obtain ⟨place, hplace⟩ := exists_lookup h
  refine ⟨place, ?_⟩
  rw [required, hplace]
  simp only [hd]
  rfl

lemma optional_ofMembers {default : β} (h : ms.get? name = some j)
    (hd : d (Tree.ofJson j) = .ok b) : (ofMembers ms).optional name default d = .ok b := by
  obtain ⟨place, hplace⟩ := exists_lookup h
  rw [optional, hplace]
  simp only [hd]
  rfl

lemma optional_ofMembers_error {default : β} (h : ms.get? name = some j)
    (hd : d (Tree.ofJson j) = .error p) :
    ∃ place, (ofMembers ms).optional name default d = .error (place, p) := by
  obtain ⟨place, hplace⟩ := exists_lookup h
  refine ⟨place, ?_⟩
  rw [optional, hplace]
  simp only [hd]
  rfl

lemma optional_of_missing {default : β} (h : ms.get? name = none) :
    (ofMembers ms).optional name default d = .ok default := by
  have hlookup := lookup_ofMembers ms name
  rw [h, Option.map_none, Option.map_eq_none_iff] at hlookup
  rw [optional, hlookup]

lemma exists_of_required {f : Fields} (h : f.required name d = .ok b) : ∃ t, d t = .ok b := by
  unfold required at h
  split at h
  · exact ⟨_, mapError_eq_ok_iff.1 h⟩
  · cases h

lemma exists_of_optional {f : Fields} {default : β} (h : f.optional name default d = .ok b) :
    b = default ∨ ∃ t, d t = .ok b := by
  unfold optional at h
  split at h
  · exact .inr ⟨_, mapError_eq_ok_iff.1 h⟩
  · cases h
    exact .inl rfl

end Fields

namespace Decoder

variable {β : Type} {names : List String} {build : Fields → Located β} {ms : Members} {b : β}
  {p : Problem}

lemma record_ofJson (hms : (Members.names ms).Nodup) (hnames : Members.names ms ⊆ names)
    (h : build (Fields.ofMembers ms) = .ok b) :
    record names build (Tree.ofJson (.object ms)) = .ok b := by
  rw [Tree.ofJson, record, Fields.ofObject_fieldsOfJson hms hnames]
  simp only [h]
  rfl

lemma record_ofJson_error {place : Nat} (hms : (Members.names ms).Nodup)
    (hnames : Members.names ms ⊆ names) (h : build (Fields.ofMembers ms) = .error (place, p)) :
    record names build (Tree.ofJson (.object ms)) = .error p := by
  rw [Tree.ofJson, record, Fields.ofObject_fieldsOfJson hms hnames]
  simp only [h]
  rfl

lemma exists_of_record {t : Tree} (h : record names build t = .ok b) : ∃ f, build f = .ok b := by
  have hfinish {f : Fields} {r : Located β} (h : f.finish r = .ok b) : r = .ok b := by
    unfold Fields.finish at h
    split at h <;> cases h
    rfl
  cases t with
  | object fields ending => exact ⟨_, hfinish h⟩
  | array items ending => exact ⟨_, hfinish h⟩
  | _ => cases h

end Decoder

end ConvFlow.Json
