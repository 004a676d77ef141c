/-
# Patching a configuration in a file

`Rules.patchFile` reads a text, patches the configuration in it and writes the result.  The three
can fail, each in its own way, and until the writing nothing has been stored.  A configuration that
is patched only in part, because one of its layers cannot be set up, is a value that is given up
with the failure.

The main statement, `patchFile_all_or_nothing`, follows the run through its three steps.  The files
that are read and written may be the same.
-/
import ConvFlow.Proofs.Folding.Patch
import ConvFlow.Proofs.Json.ReadBack
import ConvFlow.Proofs.Storage

namespace ConvFlow.Folding

open Json Outcome

namespace Rules

variable {r : Rules} {path text : String} {fault : FileFault} {patched : String}
  {summary : Summary}

/-- A text is patched if it is a configuration that can be patched. -/
lemma patchText_eq_ok_iff : r.patchText path text = .ok (patched, summary) ↔
    ∃ config config', Decoder.json.ofText text = .ok (.object config) ∧
      r.patch config = (config', .ok summary) ∧
      Json.pretty (.object config') ++ "\n" = patched := by
  unfold patchText
  rw [bind_eq_ok_iff]
  constructor
  · rintro ⟨value, hvalue, hpatch⟩
    rw [mapError_eq_ok_iff] at hvalue
    cases value with
    | object config =>
      obtain ⟨_, hsummary, hresult⟩ := bind_eq_ok_iff.1 hpatch
      obtain ⟨rfl, rfl⟩ := Prod.mk.inj (Except.ok.inj hresult)
      rw [mapError_eq_ok_iff] at hsummary
      exact ⟨config, (r.patch config).1, hvalue, Prod.ext rfl hsummary, rfl⟩
    | _ => simp at hpatch
  · rintro ⟨config, config', hvalue, hpatch, rfl⟩
    refine ⟨_, mapError_eq_ok_iff.2 hvalue, ?_⟩
    simp only [hpatch, mapError_ok, ok_bind, pure_eq_ok]

/-- The text of a configuration that is read back as it is. -/
lemma patchText_pretty {config : Members}
    (h : ReadsBack Decoder.json (.object config) (.ok (.object config))) (r : Rules)
    (path : String) : r.patchText path (Json.pretty (.object config)) =
      ((r.patch config).2.mapError FileFault.layer).map fun summary =>
        (Json.pretty (.object (r.patch config).1) ++ "\n", summary) := by
  rw [patchText, h.pretty, mapError_ok, ok_bind]
  dsimp only
  cases (r.patch config).2 with
  | error e => rfl
  | ok summary => rfl

/-! ## The steps of a run -/

variable {fs fs' : FileSystem} {input output : String} {cause : FileError}

/-- A run reads, patches and writes, and stops where one of these fails. -/
lemma run_patchFile (r : Rules) (input output : String) (fs : FileSystem) :
    (r.patchFile input output : StateM FileSystem _).run fs =
      match fs.readText input with
      | .error cause => (.error (.read input cause), fs)
      | .ok text =>
        match r.patchText input text with
        | .error fault => (.error fault, fs)
        | .ok (patched, summary) =>
          match fs.writeText output patched with
          | .error cause => (.error (.write output cause), fs)
          | .ok fs' => (.ok summary, fs') := by
  rw [patchFile, FileSystem.run_bind, FileSystem.run_read]
  cases fs.readText input with
  | error cause => rfl
  | ok text =>
    dsimp only
    cases r.patchText input text with
    | error fault => rfl
    | ok result =>
      dsimp only
      rw [FileSystem.run_bind, FileSystem.run_write]
      cases fs.writeText output result.1 with
      | error cause => rfl
      | ok fs' => rfl

/-- A run fails and leaves the store as it was, or all of its steps succeed. -/
lemma patchFile_cases (r : Rules) (input output : String) (fs : FileSystem) :
    (∃ fault, (r.patchFile input output : StateM FileSystem _).run fs = (.error fault, fs)) ∨
      ∃ text patched summary fs', fs.readText input = .ok text ∧
        r.patchText input text = .ok (patched, summary) ∧
        fs.writeText output patched = .ok fs' ∧
        (r.patchFile input output : StateM FileSystem _).run fs = (.ok summary, fs') := by
  rw [run_patchFile]
  cases hread : fs.readText input with
  | error cause => exact Or.inl ⟨.read input cause, rfl⟩
  | ok text =>
    dsimp only
    cases hpatch : r.patchText input text with
    | error fault => exact Or.inl ⟨fault, rfl⟩
    | ok result =>
      dsimp only
      cases hwrite : fs.writeText output result.1 with
      | error cause => exact Or.inl ⟨.write output cause, rfl⟩
      | ok fs' => exact Or.inr ⟨text, result.1, result.2, fs', rfl, hpatch, hwrite, rfl⟩

/-- **Patching a file is all or nothing.**  A run that fails before it writes leaves the store as it
was, also if layers in front of the one that is at fault have been patched.  A run that succeeds
writes the text of the patched configuration to the path for the output, which may be the path of
the input, and changes nothing else. -/
theorem patchFile_all_or_nothing (r : Rules) (input output : String) (fs fs' : FileSystem)
    (outcome : Except FileFault Summary)
    (hrun : (r.patchFile input output : StateM FileSystem _).run fs = (outcome, fs')) :
    (∀ fault, outcome = .error fault → (∀ cause, fault ≠ .write output cause) → fs' = fs) ∧
    ∀ summary, outcome = .ok summary → ∃ text config config', fs.readText input = .ok text ∧
      Decoder.json.ofText text = .ok (.object config) ∧ r.patch config = (config', .ok summary) ∧
      fs.Written output (Json.pretty (.object config') ++ "\n") fs' := by
  obtain ⟨fault, hfail⟩ | ⟨text, patched, summary, fs'', hread, hpatch, hwrite, hdone⟩ :=
    patchFile_cases r input output fs
  · rw [hfail] at hrun
    obtain ⟨rfl, rfl⟩ := Prod.mk.inj hrun
    constructor
    · intro fault' _ _
      rfl
    · intro summary houtcome
      exact nomatch houtcome
  · rw [hdone] at hrun
    obtain ⟨rfl, rfl⟩ := Prod.mk.inj hrun
    constructor
    · intro fault houtcome
      exact nomatch houtcome
    · intro summary' houtcome
      obtain rfl := Except.ok.inj houtcome
      obtain ⟨config, config', hconfig, hpatched, rfl⟩ := patchText_eq_ok_iff.1 hpatch
      exact ⟨text, config, config', hread, hconfig, hpatched,
        FileSystem.written_of_writeText hwrite⟩

/-- A store with a configuration in its only file. -/
def drawer (config : Members) : FileSystem :=
  Std.ExtTreeMap.insert ∅ "folding.json" (.file (Json.pretty (.object config)))

lemma leadsTo_foldingFile (fs : FileSystem) : fs.LeadsTo "folding.json" "folding.json" := by
  refine FileSystem.leadsTo_name ⟨by decide, by decide⟩ (by decide) (by decide) ?_ ?_ (by decide)
  · rw [String.contains_char_eq]
    decide
  · decide +kernel

lemma drawer_entryUnder? (config : Members) : (drawer config).entryUnder? "folding.json" =
    some (.file (Json.pretty (.object config))) := by
  have hempty : FileSystem.entryUnder? ∅ "folding.json" = none := by
    simp [FileSystem.entryUnder?, FileSystem.hasBelow]
  rw [drawer, FileSystem.entryUnder?_insert (leadsTo_foldingFile ∅) (by simp [hempty]), if_pos rfl]

lemma readText_drawer (config : Members) :
    (drawer config).readText "folding.json" = .ok (Json.pretty (.object config)) :=
  FileSystem.readText_eq_ok_iff.2 ⟨_, leadsTo_foldingFile _, drawer_entryUnder? config⟩

lemma readsBack_unfinished :
    ReadsBack Decoder.json (.object unfinished) (.ok (.object unfinished)) := by
  refine readsBack_naturals rfl ?_
  intro n hn
  obtain rfl | rfl : n = .integer 4 ∨ n = .integer 1 := by
    simpa [unfinished, Json.numbers, memberNumbers, Json.ofNat] using hn
  · exact ⟨4, by decide, rfl⟩
  · exact ⟨1, by decide, rfl⟩

lemma readsBack_finished : ReadsBack Decoder.json (.object (unfinished.take 2))
    (.ok (.object (unfinished.take 2))) := by
  refine readsBack_naturals rfl ?_
  intro n hn
  obtain rfl : n = .integer 4 := by
    simpa [unfinished, Json.numbers, memberNumbers, Json.ofNat] using hn
  exact ⟨4, by decide, rfl⟩

/-- In memory, the standard rules patch the second member of the unfinished configuration before
they stop at the third one; its file is left as it is.  What is finished of it replaces its file. -/
theorem drawer_patched :
    let run config :=
      (standard.patchFile "folding.json" "folding.json" : StateM FileSystem _).run (drawer config)
    ((standard.patch unfinished).1.get? "MVAU_hls_7" = some (.object [
        ("ram_style", .string "block"), ("PE", Json.ofNat 4), ("resType", .string "dsp")]) ∧
      (run unfinished).1 = .error (.layer (.invalidIndex "VVAU_rtl")) ∧
      (run unfinished).2 = drawer unfinished) ∧
    ∃ config', (run (unfinished.take 2)).1 = .ok ⟨["MVAU_hls_7"], ["Defaults"]⟩ ∧
      standard.patch (unfinished.take 2) = (config', .ok ⟨["MVAU_hls_7"], ["Defaults"]⟩) ∧
      (drawer (unfinished.take 2)).Written "folding.json" (Json.pretty (.object config') ++ "\n")
        (run (unfinished.take 2)).2 := by
  intro run
  constructor
  · have hfault : (run unfinished).1 = .error (.layer (.invalidIndex "VVAU_rtl")) := by
      dsimp only [run]
      rw [run_patchFile, readText_drawer]
      dsimp only
      rw [patchText_pretty readsBack_unfinished]
      rfl
    exact ⟨rfl, hfault, (patchFile_all_or_nothing standard _ _ (drawer unfinished) _ _ rfl).1 _
      hfault fun _ => nofun⟩
  · have hpatched : (standard.patch (unfinished.take 2)).2 =
        .ok ⟨["MVAU_hls_7"], ["Defaults"]⟩ := rfl
    have hfree : (drawer (unfinished.take 2)).entryUnder? "folding.json" ≠ some .directory := by
      simp [drawer_entryUnder?]
    have hdone : (run (unfinished.take 2)).1 = .ok ⟨["MVAU_hls_7"], ["Defaults"]⟩ := by
      dsimp only [run]
      rw [run_patchFile, readText_drawer]
      dsimp only
      rw [patchText_pretty readsBack_finished, hpatched, mapError_ok, map_ok]
      dsimp only
      rw [FileSystem.writeText_eq_ok_iff.2 ⟨_, leadsTo_foldingFile _, hfree, rfl⟩]
    obtain ⟨text, config, config', hread, hconfig, hpatch, hwritten⟩ :=
      (patchFile_all_or_nothing standard _ _ (drawer (unfinished.take 2)) _ _ rfl).2 _ hdone
    obtain rfl := Except.ok.inj ((readText_drawer _).symm.trans hread)
    obtain rfl := Json.object.inj (Except.ok.inj (readsBack_finished.pretty.symm.trans hconfig))
    exact ⟨config', hdone, hpatch, hwritten⟩

end Rules

end ConvFlow.Folding
