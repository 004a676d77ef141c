/-
# Reading what has been written

A path that leads to a file, or to the place of a new one, leads to a key of the store
(`FileSystem.LeadsTo`); different paths can lead to the same key.  What stands under a key decides
what reading and writing do, so writing is an insertion under one key.

The insertion does not move anything else.  The directories on the way to the file have been there
before, because the path has been followed through them (`Standing`), and no other directory comes
into being.  Therefore all paths lead to the same keys as before (`SameDirectories.leadsTo_iff`),
and every other file keeps its text.  `Written` says this in terms of paths, and the main statement,
`written_of_writeText`, that it holds of every successful write.
-/
import Mathlib.Data.String.Basic
import ConvFlow.Proofs.Graph.Dataflow
import ConvFlow.Proofs.Outcome
import ConvFlow.Storage

namespace ConvFlow

open Outcome

/-! ## Steps of a path -/

namespace Path

open String (ofList utf8Len) in
/-- Splitting at slashes, in the midst of it: `l` is done with, and `m` is the piece so far. -/
lemma splitOnAux_slash (l m r : List Char) (done : List String) :
    String.splitOnAux (ofList (l ++ m ++ r)) "/" ⟨utf8Len l⟩ ⟨utf8Len l + utf8Len m⟩ 0 done =
      done.reverse ++ (List.splitOnPPrepend (· == '/') r m.reverse).map ofList := by
  -- By induction on what is still to be read, `r`: its first character ends the piece or joins it.
  induction r generalizing l m done with
  | nil =>
    have hpiece : String.Pos.Raw.extract (ofList (l ++ m)) ⟨utf8Len l⟩
        ⟨utf8Len l + utf8Len m⟩ = ofList m := by
      simpa using String.extract_of_valid l m []
    unfold String.splitOnAux
    rw [List.append_nil, if_pos (by simp [String.atEnd_iff, -String.ofList_append]), hpiece]
    simp
  | cons c r ih =>
    have hopen : ¬String.Pos.Raw.atEnd (ofList (l ++ m ++ c :: r)) ⟨utf8Len l + utf8Len m⟩ := by
      have hpos := Char.utf8Size_pos c
      simp only [String.atEnd_iff, String.rawEndPos_ofList, String.utf8Len_append,
        String.utf8Len_cons, String.Pos.Raw.mk_le_mk]
      omega
    have hchar : String.Pos.Raw.get (ofList (l ++ m ++ c :: r)) ⟨utf8Len l + utf8Len m⟩ = c := by
      have hget := String.get_of_valid (l ++ m) (c :: r)
      rwa [String.utf8Len_append, List.headD_cons] at hget
    have hnext : String.Pos.Raw.next (ofList (l ++ m ++ c :: r)) ⟨utf8Len l + utf8Len m⟩ =
        ⟨utf8Len l + utf8Len m + c.utf8Size⟩ := by
      have hstep := String.next_of_valid (l ++ m) c r
      rwa [String.utf8Len_append] at hstep
    have hpiece : String.Pos.Raw.extract (ofList (l ++ m ++ c :: r)) ⟨utf8Len l⟩
        ⟨utf8Len l + utf8Len m⟩ = ofList m := String.extract_of_valid l m (c :: r)
    have hslash : String.Pos.Raw.get "/" 0 = '/' := rfl
    have hlast : String.Pos.Raw.atEnd "/" (String.Pos.Raw.next "/" 0) = true := rfl
    unfold String.splitOnAux
    rw [if_neg hopen, hchar, hslash, List.splitOnPPrepend_cons_eq_if]
    by_cases hc : c = '/'
    · subst hc
      have hback : String.Pos.Raw.unoffsetBy ⟨utf8Len l + utf8Len m + Char.utf8Size '/'⟩
          (String.Pos.Raw.next "/" 0) = ⟨utf8Len l + utf8Len m⟩ := rfl
      have hrest := ih (l ++ m ++ ['/']) [] (ofList m :: done)
      simp only [hnext, hlast, hback, hpiece]
      simpa [-String.ofList_append, Nat.add_assoc] using hrest
    · have hback : String.Pos.Raw.unoffsetBy ⟨utf8Len l + utf8Len m⟩ 0 =
          ⟨utf8Len l + utf8Len m⟩ := rfl
      have hrest := ih l (m ++ [c]) done
      simp only [hback, hnext]
      simpa [-String.ofList_append, Nat.add_assoc, hc] using hrest

/-- A step of a path is not empty and has no slash. -/
structure IsStep (s : String) : Prop where
  ne_empty : s ≠ ""
  noSlash : '/' ∉ s.toList

/-- Pieces between separators hold no separator. -/
lemma notMem_splitOnPPrepend {p : Char → Bool} {r acc piece : List Char}
    (hacc : ∀ c ∈ acc, p c = false) (h : piece ∈ List.splitOnPPrepend p r acc) :
    ∀ c ∈ piece, p c = false := by
  induction r generalizing acc with
  | nil =>
    obtain rfl : piece = acc.reverse := by simpa using h
    simpa using hacc
  | cons c r ih =>
    rw [List.splitOnPPrepend_cons_eq_if] at h
    split at h
    · rcases List.mem_cons.1 h with rfl | h
      · simpa using hacc
      · exact ih (by simp) h
    · rename_i hc
      exact ih (List.forall_mem_cons.2 ⟨Bool.eq_false_of_not_eq_true hc, hacc⟩) h

/-- The steps of a path are its pieces between slashes, as far as they are not empty. -/
lemma steps_eq (path : String) : steps path =
    ((path.toList.splitOn '/').map String.ofList).filter (· != "") := by
  have hsplit := splitOnAux_slash [] [] path.toList []
  rw [steps, List.splitOn, List.splitOnP]
  congr 1
  simpa [String.splitOn] using hsplit

lemma isStep_of_mem_steps {path s : String} (h : s ∈ steps path) : IsStep s := by
  rw [steps_eq] at h
  obtain ⟨hs, hne⟩ := List.mem_filter.1 h
  obtain ⟨piece, hpiece, rfl⟩ := List.mem_map.1 hs
  refine ⟨by simpa using hne, ?_⟩
  intro hmem
  rw [String.toList_ofList] at hmem
  have hfalse := notMem_splitOnPPrepend (by simp) hpiece _ hmem
  simp at hfalse

lemma IsStep.steps_eq {s : String} (h : IsStep s) : steps s = [s] := by
  have hpieces : s.toList.splitOn '/' = [s.toList] := List.splitOn_eq_singleton h.noSlash
  rw [Path.steps_eq, hpieces]
  simp [h.ne_empty]

/-- The beginning of a row of characters, up to a separator, either ends before the last separator
of the row, or there. -/
lemma prefix_snoc_cases {c : Char} {x l m : List Char} (h : x ++ [c] <+: l ++ c :: m)
    (hm : c ∉ m) : x = l ∨ x ++ [c] <+: l := by
  obtain ⟨t, ht⟩ := h
  rw [List.append_assoc, List.singleton_append] at ht
  rcases List.append_eq_append_iff.1 ht with ⟨u, hl, hu⟩ | ⟨u, hx, hu⟩
  · cases u with
    | nil => exact Or.inl (by simpa using hl.symm)
    | cons d u =>
      obtain ⟨rfl, -⟩ := List.cons.inj hu
      exact Or.inr ⟨u, by simp [hl]⟩
  · cases u with
    | nil => exact Or.inl (by simpa using hx)
    | cons d u =>
      obtain ⟨rfl, hrest⟩ := List.cons.inj hu
      exact absurd (by simp [hrest]) hm

lemma ofReversed_singleton (s : String) : ofReversed [s] = s := by
  simp [ofReversed]

lemma ofReversed_cons (s t : String) (place : List String) :
    ofReversed (s :: t :: place) = ofReversed (t :: place) ++ "/" ++ s := by
  rw [ofReversed, List.reverse_cons,
    String.intercalate_append_of_ne_nil (by simp) (List.cons_ne_nil _ _),
    String.intercalate_singleton]
  rfl

end Path

/-! ## Keys -/

namespace FileSystem

variable {fs fs' : FileSystem} {path text key n : String} {place : List String} {d : Directory}

/-- What is stored under a key. -/
def entryUnder? (fs : FileSystem) (key : String) : Option Entry :=
  if fs.hasBelow key then some .directory else fs[key]?

lemma entryAt?_eq (fs : FileSystem) (place : List String) :
    fs.entryAt? place = fs.entryUnder? (Path.ofReversed place) := rfl

/-- The path leads to the file under the key, or to the place of a file that is to be stored
there. -/
def LeadsTo (fs : FileSystem) (path key : String) : Prop :=
  ∃ parent name place, fs.locate path = .ok (.name parent name) ∧
    FileSystem.place parent name = .ok place ∧ path.endsWith "/" = false ∧
      Path.ofReversed place = key

/-- A name has a place only in a directory of the store. -/
lemma exists_above_of_place {name : String} (h : FileSystem.place d name = .ok place) :
    ∃ above, d = .inside above ∧ name :: above = place := by
  unfold FileSystem.place at h
  split at h
  · simp at h
  · cases d with
    | outside => simp at h
    | inside above => exact ⟨above, rfl, Except.ok.inj h⟩

/-- The paths lead to the same file. -/
def SameFile (fs : FileSystem) (path path' : String) : Prop :=
  ∃ key, fs.LeadsTo path key ∧ fs.LeadsTo path' key

lemma LeadsTo.unique {key' : String} (h : fs.LeadsTo path key) (h' : fs.LeadsTo path key') :
    key = key' := by
  obtain ⟨parent, name, place, hlocate, hplace, -, rfl⟩ := h
  obtain ⟨parent', name', place', hlocate', hplace', -, rfl⟩ := h'
  obtain ⟨rfl, rfl⟩ := Target.name.inj (Except.ok.inj (hlocate.symm.trans hlocate'))
  rw [Except.ok.inj (hplace.symm.trans hplace')]

lemma readText_eq_ok_iff : fs.readText path = .ok text ↔
    ∃ key, fs.LeadsTo path key ∧ fs.entryUnder? key = some (.file text) := by
  unfold readText
  rw [bind_eq_ok_iff]
  constructor
  · rintro ⟨target, hlocate, hread⟩
    cases target with
    | directory => simp at hread
    | name parent name =>
      obtain ⟨place, hplace, hentry⟩ := bind_eq_ok_iff.1 hread
      split at hentry
      · rename_i stored hstored
        split at hentry
        · simp at hentry
        · rename_i hslash
          obtain rfl : stored = text := by simpa using hentry
          exact ⟨_, ⟨parent, name, place, hlocate, hplace, by simpa using hslash, rfl⟩, hstored⟩
      · simp at hentry
      · simp at hentry
  · rintro ⟨_, ⟨parent, name, place, hlocate, hplace, hslash, rfl⟩, hstored⟩
    refine ⟨_, hlocate, ?_⟩
    simp only [bind_eq_ok_iff]
    refine ⟨place, hplace, ?_⟩
    rw [entryAt?_eq, hstored]
    simp [hslash]

lemma writeText_eq_ok_iff : fs.writeText path text = .ok fs' ↔
    ∃ key, fs.LeadsTo path key ∧ fs.entryUnder? key ≠ some .directory ∧
      fs.insert key (.file text) = fs' := by
  unfold writeText
  rw [bind_eq_ok_iff]
  constructor
  · rintro ⟨target, hlocate, hwrite⟩
    cases target with
    | directory => simp at hwrite
    | name parent name =>
      dsimp only at hwrite
      split at hwrite
      · simp at hwrite
      · rename_i hslash
        obtain ⟨place, hplace, hinsert⟩ := bind_eq_ok_iff.1 hwrite
        split at hinsert
        · simp at hinsert
        · rename_i hfree
          refine ⟨_, ⟨parent, name, place, hlocate, hplace, by simpa using hslash, rfl⟩, hfree, ?_⟩
          exact Except.ok.inj hinsert
  · rintro ⟨_, ⟨parent, name, place, hlocate, hplace, hslash, rfl⟩, hfree, rfl⟩
    refine ⟨_, hlocate, ?_⟩
    simp only [hslash, Bool.false_eq_true, if_false, pure_eq_ok]
    refine bind_eq_ok_iff.2 ⟨place, hplace, ?_⟩
    split
    · rename_i hdirectory
      exact absurd hdirectory hfree
    · rfl

/-! ## Directories on the way -/

/-- The steps lead from the store's own directory, last one first, through directories. -/
inductive Standing (fs : FileSystem) : List String → Prop
  | own : Standing fs []
  | inside {s : String} {place : List String} (step : Path.IsStep s)
      (directory : fs.entryAt? (s :: place) = some .directory) (above : Standing fs place) :
      Standing fs (s :: place)

/-- The directory stands in the store, or around it. -/
def Directory.StandsIn (fs : FileSystem) : Directory → Prop
  | .inside place => fs.Standing place
  | .outside => True

lemma Directory.StandsIn.up (h : d.StandsIn fs) : d.up.StandsIn fs := by
  cases d with
  | outside => trivial
  | inside place =>
    cases place with
    | nil => trivial
    | cons s place =>
      cases h with
      | inside _ _ above => exact above

lemma descend_eq_ok_iff {name : String} {d' : Directory} : fs.descend d name = .ok d' ↔
    ∃ place, FileSystem.place d name = .ok place ∧ fs.entryAt? place = some .directory ∧
      Directory.inside place = d' := by
  unfold descend
  rw [bind_eq_ok_iff]
  refine exists_congr fun place => and_congr_right fun _ => ?_
  cases fs.entryAt? place with
  | none => simp
  | some entry => cases entry <;> simp

/-- Every directory that a path is followed to stands. -/
lemma standsIn_of_follow {parent : Directory} {name : String} {steps : List String}
    (hsteps : ∀ s ∈ steps, Path.IsStep s) (hd : d.StandsIn fs)
    (h : fs.follow d steps = .ok (.name parent name)) :
    parent.StandsIn fs ∧ Path.IsStep name := by
  -- The cases are those of `follow`: no step, a step to the same place, one back, the last step,
  -- and a step into a directory.
  fun_induction follow fs d steps with
  | case1 d => simp at h
  | case2 d rest ih => exact ih (fun s hs => hsteps s (List.mem_cons_of_mem _ hs)) hd h
  | case3 d rest ih => exact ih (fun s hs => hsteps s (List.mem_cons_of_mem _ hs)) hd.up h
  | case4 d s =>
    obtain ⟨rfl, rfl⟩ := Target.name.inj (Except.ok.inj h)
    exact ⟨hd, hsteps _ (List.mem_singleton_self _)⟩
  | case5 d s rest _ _ _ ih =>
    obtain ⟨d', hd', hrest⟩ := bind_eq_ok_iff.1 h
    refine ih d' (fun s hs => hsteps s (List.mem_cons_of_mem _ hs)) ?_ hrest
    obtain ⟨place, hplace, hdirectory, rfl⟩ := descend_eq_ok_iff.1 hd'
    obtain ⟨above, rfl, rfl⟩ := exists_above_of_place hplace
    exact Standing.inside (hsteps s List.mem_cons_self) hdirectory hd

/-- What stands above a key, through standing directories, are these directories. -/
lemma Standing.directory_of_isPrefixOf {name : String} (hplace : fs.Standing place)
    (hname : Path.IsStep name)
    (h : (n ++ "/").isPrefixOf (Path.ofReversed (name :: place)) = true) :
    fs.entryUnder? n = some .directory := by
  have hslash : ("/" : String).toList = ['/'] := rfl
  -- The key ends with the name, which has no slash: what ends with a slash ends in front of it.
  induction hplace generalizing name with
  | own =>
    rw [Path.ofReversed_singleton, String.isPrefixOf, String.startsWith_string_iff,
      String.toList_append, hslash] at h
    exact absurd (h.subset (by simp)) hname.noSlash
  | @inside s place hstep hdirectory _ ih =>
    rw [Path.ofReversed_cons, String.isPrefixOf, String.startsWith_string_iff,
      String.toList_append, String.toList_append, String.toList_append, hslash,
      List.append_assoc] at h
    rcases Path.prefix_snoc_cases h hname.noSlash with hsame | habove
    · rw [String.toList_inj.1 hsame]
      exact hdirectory
    · refine ih hstep ?_
      rwa [String.isPrefixOf, String.startsWith_string_iff, String.toList_append, hslash]

/-- A path that can be located is followed from the store's own directory, or from outside. -/
lemma locate_eq_ok_iff {target : Target} : fs.locate path = .ok target ↔
    (path.contains '\x00' = false ∧ path ≠ "" ∧ path.utf8ByteSize ≤ Path.lengthLimit) ∧
      fs.follow (if path.startsWith "/" then .outside else .inside []) (Path.steps path) =
        .ok target := by
  unfold locate
  constructor
  · intro h
    split at h
    · simp at h
    · rename_i hnul
      split at h
      · simp at h
      · rename_i hempty
        split at h
        · simp at h
        · rename_i hlength
          exact ⟨⟨Bool.eq_false_of_not_eq_true hnul, hempty, Nat.le_of_not_lt hlength⟩, h⟩
  · rintro ⟨⟨hnul, hempty, hlength⟩, h⟩
    rwa [if_neg (Bool.not_eq_true _ ▸ hnul), if_neg hempty, if_neg (Nat.not_lt_of_le hlength)]

/-- A name by itself leads to the file of this name in the store's own directory. -/
lemma leadsTo_name {name : String} (hname : Path.IsStep name) (hself : name ≠ ".")
    (hup : name ≠ "..") (hnul : name.contains '\x00' = false) (hslash : name.endsWith "/" = false)
    (hlength : name.utf8ByteSize ≤ Path.stepLimit) : fs.LeadsTo name name := by
  have hstart : ¬name.startsWith "/" = true := by
    rw [String.startsWith_string_iff]
    intro hbegins
    exact hname.noSlash (hbegins.subset (by simp))
  have hlimit : name.utf8ByteSize ≤ Path.lengthLimit := by
    rw [Path.stepLimit] at hlength
    rw [Path.lengthLimit]
    omega
  refine ⟨.inside [], name, [name], ?_, ?_, hslash, Path.ofReversed_singleton name⟩
  · refine locate_eq_ok_iff.2 ⟨⟨hnul, hname.ne_empty, hlimit⟩, ?_⟩
    rw [if_neg hstart, hname.steps_eq, follow.eq_4 fs _ name hself hup]
  · rw [FileSystem.place, if_neg (Nat.not_lt_of_le hlength)]

/-- What stands above the key that a path leads to are directories. -/
lemma LeadsTo.directory_above (h : fs.LeadsTo path key) (hn : (n ++ "/").isPrefixOf key = true) :
    fs.entryUnder? n = some .directory := by
  obtain ⟨parent, name, place, hlocate, hplace, -, rfl⟩ := h
  obtain ⟨above, rfl, rfl⟩ := exists_above_of_place hplace
  have hstart : (if path.startsWith "/" then Directory.outside else .inside []).StandsIn fs := by
    split
    · trivial
    · exact Standing.own
  obtain ⟨hstands, hname⟩ := standsIn_of_follow (fun s => Path.isStep_of_mem_steps) hstart
    (locate_eq_ok_iff.1 hlocate).2
  exact hstands.directory_of_isPrefixOf hname hn

/-! ## The store after an insertion -/

lemma hasBelow_insert (fs : FileSystem) (key n : String) (entry : Entry) :
    hasBelow (fs.insert key entry) n = true ↔
      (n ++ "/").isPrefixOf key = true ∨ fs.hasBelow n = true := by
  simp only [hasBelow, List.any_eq_true, Std.ExtTreeMap.mem_keys, Std.ExtTreeMap.mem_insert,
    Std.compare_eq_iff_eq]
  constructor
  · rintro ⟨k, rfl | hk, hbelow⟩
    · exact Or.inl hbelow
    · exact Or.inr ⟨k, hk, hbelow⟩
  · rintro (hbelow | ⟨k, hk, hbelow⟩)
    · exact ⟨key, Or.inl rfl, hbelow⟩
    · exact ⟨k, Or.inr hk, hbelow⟩

/-- Nothing is stored below itself. -/
lemma not_isPrefixOf_self (key : String) : ¬(key ++ "/").isPrefixOf key = true := by
  rw [String.isPrefixOf, String.startsWith_string_iff, String.toList_append]
  intro h
  have hlength := h.length_le
  rw [List.length_append] at hlength
  have hslash : ("/" : String).toList.length = 1 := rfl
  omega

/-- Inserting a file under a key that a path leads to changes what stands under this key, and
nothing else. -/
lemma entryUnder?_insert (hkey : fs.LeadsTo path key)
    (hfree : fs.entryUnder? key ≠ some .directory) (text n : String) :
    entryUnder? (fs.insert key (.file text)) n =
      if n = key then some (.file text) else fs.entryUnder? n := by
  have hinsert := hasBelow_insert fs key n (.file text)
  -- A name that is not the key can be one above it; then a directory has stood there before.
  split
  · rename_i hn
    subst hn
    have hnot : ¬fs.hasBelow n = true := fun hbelow => hfree (if_pos hbelow)
    have hnot' : ¬hasBelow (fs.insert n (.file text)) n = true := fun hbelow =>
      (hinsert.1 hbelow).elim (not_isPrefixOf_self n) hnot
    rw [entryUnder?, if_neg hnot', NameMap.getElem?_insert_same]
  · rename_i hn
    by_cases habove : (n ++ "/").isPrefixOf key = true
    · rw [hkey.directory_above habove, entryUnder?, if_pos (hinsert.2 (Or.inl habove))]
    · rw [entryUnder?, entryUnder?, NameMap.getElem?_insert_of_ne (Ne.symm hn),
        if_congr (hinsert.trans (or_iff_right habove)) rfl rfl]

/-- The stores have the same directories. -/
def SameDirectories (fs fs' : FileSystem) : Prop :=
  ∀ n, fs.entryUnder? n = some .directory ↔ fs'.entryUnder? n = some .directory

lemma sameDirectories_insert (hkey : fs.LeadsTo path key)
    (hfree : fs.entryUnder? key ≠ some .directory) (text : String) :
    fs.SameDirectories (fs.insert key (.file text)) := by
  intro n
  rw [entryUnder?_insert hkey hfree]
  split
  · rename_i hn
    subst hn
    exact iff_of_false hfree (by simp)
  · exact Iff.rfl

namespace SameDirectories

lemma symm (h : fs.SameDirectories fs') : fs'.SameDirectories fs := fun n => (h n).symm

lemma follow_eq_ok {steps : List String} {target : Target} (h : fs.SameDirectories fs')
    (hfollow : fs.follow d steps = .ok target) : fs'.follow d steps = .ok target := by
  fun_induction follow fs d steps with
  | case1 d => exact hfollow
  | case2 d rest ih => exact ih hfollow
  | case3 d rest ih => exact ih hfollow
  | case4 d s hself hup => rwa [follow.eq_4 fs' d s hself hup]
  | case5 d s rest hself hup hlast ih =>
    obtain ⟨d', hd', hrest⟩ := bind_eq_ok_iff.1 hfollow
    obtain ⟨place, hplace, hdirectory, rfl⟩ := descend_eq_ok_iff.1 hd'
    rw [follow.eq_5 fs' d s rest hself hup hlast, bind_eq_ok_iff]
    exact ⟨_, descend_eq_ok_iff.2 ⟨place, hplace, (h _).1 hdirectory, rfl⟩, ih _ hrest⟩

lemma leadsTo (h : fs.SameDirectories fs') (hpath : fs.LeadsTo path key) :
    fs'.LeadsTo path key := by
  obtain ⟨parent, name, place, hlocate, hrest⟩ := hpath
  obtain ⟨hchecks, hfollow⟩ := locate_eq_ok_iff.1 hlocate
  exact ⟨parent, name, place, locate_eq_ok_iff.2 ⟨hchecks, h.follow_eq_ok hfollow⟩, hrest⟩

lemma leadsTo_iff (h : fs.SameDirectories fs') :
    fs.LeadsTo path key ↔ fs'.LeadsTo path key :=
  ⟨h.leadsTo, h.symm.leadsTo⟩

end SameDirectories

/-- The text has been written to the path.  It is stored under the key that the path leads to, and
nothing else has been stored or has gone.  So it is read wherever a path leads to the same file, and
every other file has the text that it had; no path leads elsewhere. -/
structure Written (fs : FileSystem) (path text : String) (fs' : FileSystem) : Prop where
  stored : ∃ key, fs.LeadsTo path key ∧ fs' = fs.insert key (.file text)
  written : ∀ path', fs.SameFile path path' → fs'.readText path' = .ok text
  others : ∀ path' text', ¬fs.SameFile path path' →
    (fs'.readText path' = .ok text' ↔ fs.readText path' = .ok text')
  places : ∀ path' key, fs'.LeadsTo path' key ↔ fs.LeadsTo path' key

/-- A text that is written successfully is the text of the file that the path leads to, and nothing
else has changed. -/
theorem written_of_writeText (h : fs.writeText path text = .ok fs') : fs.Written path text fs' := by
  obtain ⟨key, hkey, hfree, rfl⟩ := writeText_eq_ok_iff.1 h
  have hplaces : ∀ path' key', LeadsTo (fs.insert key (.file text)) path' key' ↔
      fs.LeadsTo path' key' := fun path' key' =>
    (sameDirectories_insert hkey hfree text).leadsTo_iff.symm
  refine ⟨⟨key, hkey, rfl⟩, ?_, ?_, hplaces⟩
  · rintro path' ⟨key', hpath, hpath'⟩
    obtain rfl := hkey.unique hpath
    refine readText_eq_ok_iff.2 ⟨key, (hplaces _ _).2 hpath', ?_⟩
    rw [entryUnder?_insert hkey hfree, if_pos rfl]
  · intro path' text' hother
    rw [readText_eq_ok_iff, readText_eq_ok_iff]
    refine exists_congr fun key' => ?_
    rw [hplaces]
    refine and_congr_right fun hpath' => ?_
    have hne : key' ≠ key := by
      rintro rfl
      exact hother ⟨key', hkey, hpath'⟩
    rw [entryUnder?_insert hkey hfree, if_neg hne]

/-! ## Programs in the store -/

lemma run_bind {α β : Type} (x : StateM FileSystem α) (f : α → StateM FileSystem β)
    (fs : FileSystem) : (x >>= f).run fs = (f (x.run fs).1).run (x.run fs).2 := rfl

lemma run_get (fs : FileSystem) : (get : StateM FileSystem FileSystem).run fs = (fs, fs) := rfl

lemma run_read (fs : FileSystem) (path : String) :
    (Storage.read path : StateM FileSystem _).run fs = (fs.readText path, fs) := rfl

lemma run_write (fs : FileSystem) (path text : String) :
    (Storage.write path text : StateM FileSystem _).run fs =
      match fs.writeText path text with
      | .error cause => (.error cause, fs)
      | .ok fs' => (.ok (), fs') := by
  rw [Storage.write, instStorageStateM, run_bind, run_get]
  cases fs.writeText path text with
  | error cause => rfl
  | ok fs' => rfl

end FileSystem

end ConvFlow
