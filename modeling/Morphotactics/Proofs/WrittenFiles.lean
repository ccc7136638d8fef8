import Morphotactics.Proofs.Alternatives
import Morphotactics.Proofs.DiskWriting
import Morphotactics.Proofs.Sessions
import Morphotactics.Proofs.SourceLines

/-!
# What a build leaves on the disk

A build compiles all its networks first and writes them one after the other, the root
source last.  The paths are those that the configurations name, so a build that has
finished is a run of writes (`run_done_iff`), and whether a network can still be read
depends on what else was written to the target of its path.

Nothing keeps two networks, or a network and the root source, from one target.  So
`networks_kept_iff` says when all networks are kept: if no path of a network leads to
where the root source is, and paths that lead to one place are for networks with one
source.
-/

namespace Morphotactics

/-- The source of a network starts with the name of its root, so it is no root source. -/
theorem Network.WellFormed.source_ne_rootSource {g : Network} (hg : g.WellFormed) (a : Alphabet)
    (roots : List String) : g.source ≠ a.rootSource roots := by
  intro h
  obtain ⟨es, rest, hparts⟩ := hg.exists_parts_eq_cons
  have hnetwork : g.source.toList.head? = some 'L' := by
    have hlines : Network.partLines (g.root, es) =
        ("LEXICON " ++ g.root.text) :: (es.toList.map Entry.line ++ [""]) := rfl
    rw [Network.source, hparts, List.flatMap_cons, hlines, List.cons_append, toList_ofLines_cons,
      String.toList_append, List.append_assoc]
    rfl
  have hroot : (a.rootSource roots).toList.head? = some 'M' := by
    rw [Alphabet.rootSource, Alphabet.lines, List.cons_append, List.cons_append, List.cons_append,
      toList_ofLines_cons]
    rfl
  rw [h, hroot] at hnetwork
  exact absurd hnetwork (by decide)

namespace CommandLine.Build

/-- The file for a network: its path and its content. -/
def Output.file (x : Output) : String × Bytes := (x.path, Bytes.ofText x.network.source)

/-- The file for the root source of a session. -/
def Options.rootFile (o : Options) (s : Session) : String × Bytes :=
  (o.rootPath, Bytes.ofText (s.alphabet.rootSource s.roots))

/-- The files that a session is written to, in order. -/
def Options.files (o : Options) (s : Session) : List (String × Bytes) :=
  s.outputs.map Output.file ++ [o.rootFile s]

variable {o : Options} {disk disk' : Disk}

/-- Writing the outputs is a run of writes. -/
theorem writeOutputs_done_iff (a : Alphabet) (xs : List Output) :
    ((writeOutputs a disk xs).2.2 = none ∧ (writeOutputs a disk xs).2.1 = disk') ↔
      disk.writeFiles (xs.map Output.file) = .ok disk' := by
  induction xs generalizing disk with
  | nil => exact ⟨fun h => congrArg _ h.2, fun h => ⟨rfl, Except.ok.inj h⟩⟩
  | cons x xs ih =>
      rw [List.map_cons, Disk.writeFiles_cons]
      unfold writeOutputs writeText
      cases hwrite : disk.write x.path (Bytes.ofText x.network.source) with
      | error e =>
          have hfile : disk.write x.file.1 x.file.2 = .error e := hwrite
          rw [hfile]
          exact ⟨nofun, nofun⟩
      | ok d =>
          have hfile : disk.write x.file.1 x.file.2 = .ok d := hwrite
          rw [hfile]
          exact ih.trans ⟨fun h => ⟨d, rfl, h⟩, fun ⟨_, heq, h⟩ => Except.ok.inj heq ▸ h⟩

/-- Writing a session is a run of writes. -/
theorem writeAll_done_iff {s : Session} :
    ((writeAll o disk s).ending = .done ∧ (writeAll o disk s).disk = disk') ↔
      disk.writeFiles (o.files s) = .ok disk' := by
  have houtputs : ∀ d, disk.writeFiles (s.outputs.map Output.file) = .ok d ↔
      (writeOutputs s.alphabet disk s.outputs).2.2 = none ∧
        (writeOutputs s.alphabet disk s.outputs).2.1 = d :=
    fun d => (writeOutputs_done_iff s.alphabet s.outputs).symm
  simp only [Options.files, Disk.writeFiles_concat, houtputs]
  unfold writeAll
  generalize writeOutputs s.alphabet disk s.outputs = q
  obtain ⟨ns, d, _ | e⟩ := q
  · have hlast : (∃ d₁, ((none : Option Failure) = none ∧ d = d₁) ∧
        d₁.write (o.rootFile s).1 (o.rootFile s).2 = .ok disk') ↔
          d.write o.rootPath (Bytes.ofText (s.alphabet.rootSource s.roots)) = .ok disk' :=
      ⟨fun ⟨_, ⟨_, heq⟩, h⟩ => heq ▸ h, fun h => ⟨d, ⟨rfl, rfl⟩, h⟩⟩
    refine Iff.trans ?_ hlast.symm
    dsimp only [writeText]
    cases d.write o.rootPath (Bytes.ofText (s.alphabet.rootSource s.roots)) with
    | error e => exact ⟨nofun, nofun⟩
    | ok d₁ => exact ⟨fun h => congrArg _ h.2, fun h => ⟨rfl, Except.ok.inj h⟩⟩
  · exact ⟨nofun, nofun⟩

/-- **Finished builds.**  A build finishes if its output directory can be made, all its
networks can be compiled, and all its files can be written. -/
theorem run_done_iff :
    ((run o disk).ending = .done ∧ (run o disk).disk = disk') ↔
      ∃ made s, disk.createDirectories o.outputDir = .ok made ∧
        addConfigs o made .initial o.configs = (s, .ok ()) ∧
        made.writeFiles (o.files s) = .ok disk' := by
  unfold run
  cases disk.createDirectories o.outputDir with
  | error e => exact ⟨nofun, nofun⟩
  | ok made =>
      dsimp only
      generalize hconfigs : addConfigs o made .initial o.configs = q
      obtain ⟨s, e | _⟩ := q
      · refine ⟨nofun, fun ⟨made', s', hmade, hs', _⟩ => ?_⟩
        obtain rfl := Except.ok.inj hmade
        rw [hconfigs] at hs'
        cases hs'
      · rw [writeAll_done_iff]
        refine ⟨fun h => ⟨made, s, rfl, hconfigs, h⟩, fun ⟨made', s', hmade, hs', h⟩ => ?_⟩
        obtain rfl := Except.ok.inj hmade
        rw [hconfigs] at hs'
        obtain rfl := congrArg Prod.fst hs'
        exact h

/-- All files of a session are read back exactly if no network shares its target with the
root source and those that share one share their sources. -/
theorem files_read_iff {made : Disk} {s : Session} (hwell : ∀ x ∈ s.outputs, x.network.WellFormed)
    (h : made.writeFiles (o.files s) = .ok disk') :
    (∀ x ∈ s.outputs, disk'.read x.path = .ok (Bytes.ofText x.network.source)) ↔
      (∀ x ∈ s.outputs, made.target? x.path ≠ made.target? o.rootPath) ∧
        ∀ x ∈ s.outputs, ∀ y ∈ s.outputs, made.target? x.path = made.target? y.path →
          x.network.source = y.network.source := by
  have hroot : disk'.read (o.rootFile s).1 = .ok (o.rootFile s).2 := Disk.read_last h
  have hall := Disk.forall_read_iff h
  constructor
  · intro hread
    have hsame := hall.mp fun f hf => by
      obtain hf | hf := List.mem_append.mp hf
      · obtain ⟨x, hx, rfl⟩ := List.mem_map.mp hf
        exact hread x hx
      · rw [List.mem_singleton.mp hf]
        exact hroot
    have hmem : ∀ x ∈ s.outputs, x.file ∈ o.files s :=
      fun x hx => List.mem_append_left _ (List.mem_map_of_mem hx)
    constructor
    · intro x hx htarget
      have hbytes := hsame _ (hmem x hx) (o.rootFile s)
        (List.mem_append_right _ List.mem_cons_self) htarget
      exact (hwell x hx).source_ne_rootSource _ _ (Bytes.ofText_inj.mp hbytes)
    · intro x hx y hy htarget
      exact Bytes.ofText_inj.mp (hsame _ (hmem x hx) _ (hmem y hy) htarget)
  · intro ⟨hapart, hsame⟩
    have hread : ∀ f ∈ o.files s, disk'.read f.1 = .ok f.2 := by
      refine hall.mpr fun f hf g hg htarget => ?_
      obtain hf | hf := List.mem_append.mp hf
      · obtain ⟨y, hy, rfl⟩ := List.mem_map.mp hf
        obtain hg | hg := List.mem_append.mp hg
        · obtain ⟨z, hz, rfl⟩ := List.mem_map.mp hg
          have hsource := hsame y hy z hz htarget
          rw [Output.file, Output.file, hsource]
        · rw [List.mem_singleton.mp hg] at htarget
          exact (hapart y hy htarget).elim
      · rw [List.mem_singleton.mp hf] at htarget ⊢
        obtain hg | hg := List.mem_append.mp hg
        · obtain ⟨z, hz, rfl⟩ := List.mem_map.mp hg
          exact (hapart z hz htarget.symm).elim
        · rw [List.mem_singleton.mp hg]
    exact fun x hx => hread x.file (List.mem_append_left _ (List.mem_map_of_mem hx))

end CommandLine.Build

open CommandLine CommandLine.Build

/-- **When all networks are kept.**  A build finishes exactly if its output directory can be
made, all networks that its configurations ask for can be compiled, and all paths that they
name can be written to.  Then the root source is where it belongs and lists the roots of the
networks in order.  Each network is found under its path exactly if its source is what is
written last to the target of the path.  So all networks are found exactly if none has the
target of the root source, and networks with one target have one source. -/
theorem networks_kept_iff (o : Options) (disk : Disk) :
    ((run o disk).ending = .done ↔
      ∃ made s, disk.createDirectories o.outputDir = .ok made ∧
        addConfigs o made .initial o.configs = (s, .ok ()) ∧
        ∀ f ∈ o.files s, (made.target? f.1).isSome) ∧
    ∀ made s, disk.createDirectories o.outputDir = .ok made →
      addConfigs o made .initial o.configs = (s, .ok ()) → (run o disk).ending = .done →
        s.outputs.map some = (o.configs.flatMap (o.tasks made)).map (Task.output? o) ∧
        s.roots = s.outputs.map (·.network.rootName) ∧
        (run o disk).disk.read o.rootPath =
          .ok (Bytes.ofText (s.alphabet.rootSource s.roots)) ∧
        (∀ x ∈ s.outputs, ∀ way, made.target? x.path = some way →
          ((run o disk).disk.read x.path = .ok (Bytes.ofText x.network.source) ↔
            made.lastWritten way (o.files s) = some (Bytes.ofText x.network.source))) ∧
        ((∀ x ∈ s.outputs, (run o disk).disk.read x.path =
            .ok (Bytes.ofText x.network.source)) ↔
          (∀ x ∈ s.outputs, made.target? x.path ≠ made.target? o.rootPath) ∧
            ∀ x ∈ s.outputs, ∀ y ∈ s.outputs, made.target? x.path = made.target? y.path →
              x.network.source = y.network.source) := by
  constructor
  · constructor
    · intro hdone
      obtain ⟨made, s, hmade, hs, hwrite⟩ := run_done_iff.mp ⟨hdone, rfl⟩
      exact ⟨made, s, hmade, hs, Disk.writeFiles_ok_iff.mp ⟨_, hwrite⟩⟩
    · intro ⟨made, s, hmade, hs, htargets⟩
      obtain ⟨disk', hwrite⟩ := Disk.writeFiles_ok_iff.mpr htargets
      exact (run_done_iff.mpr ⟨made, s, hmade, hs, hwrite⟩).1
  · intro made s hmade hs hdone
    obtain ⟨made', s', hmade', hs', hwrite⟩ := run_done_iff.mp ⟨hdone, rfl⟩
    obtain rfl := Except.ok.inj (hmade.symm.trans hmade')
    obtain rfl := congrArg Prod.fst (hs.symm.trans hs')
    obtain ⟨-, -, houtputs, hroots⟩ := tasks_of_addConfigs hs
    have hwell : ∀ x ∈ s.outputs, x.network.WellFormed := by
      intro x hx
      have hmade : some x ∈ (o.configs.flatMap (o.tasks made)).map (Task.output? o) :=
        houtputs ▸ List.mem_map_of_mem hx
      obtain ⟨t, -, ht⟩ := List.mem_map.mp hmade
      exact (Task.shape_output ht).1
    have hroot : (run o disk).disk.read (o.rootFile s).1 = .ok (o.rootFile s).2 :=
      Disk.read_last hwrite
    refine ⟨houtputs, hroots, hroot, fun x hx way hway => ?_, files_read_iff hwell hwrite⟩
    have hfile : x.file ∈ o.files s := List.mem_append_left _ (List.mem_map_of_mem hx)
    obtain ⟨content, hlast, hread⟩ := Disk.read_of_writeFiles hwrite hfile hway
    have hpath : (run o disk).disk.read x.path = .ok content := hread
    rw [hpath, hlast, Except.ok.injEq, Option.some.injEq]

/-- The verbs of a configuration with one file for regular and irregular forms: the build
finishes and lists both roots, and no file has the source for the first one. -/
theorem regular_network_is_lost :
    let config := "\x7b\"root_lexicon\":\"VerbRoot\",\"morph_features\":[\"Order\"]," ++
      "\"regular_lexc_file\":\"verbs.lexc\",\"irregular_lexc_file\":\"verbs.lexc\"\x7d"
    let disk : Disk := ⟨[], [(["verbs.json"], Bytes.ofText config)], []⟩
    let o : Options := ⟨["verbs.json"], "", "out", [], true, false⟩
    ∃ made s, disk.createDirectories o.outputDir = .ok made ∧
      addConfigs o made .initial o.configs = (s, .ok ()) ∧ (run o disk).ending = .done ∧
      s.roots = ["VerbRoot", "VerbRootIrregular"] ∧
      ∃ x ∈ s.outputs, x.network.rootName = "VerbRoot" ∧
        ∀ f ∈ (run o disk).disk.files, f.2 ≠ Bytes.ofText x.network.source := by
  intro config disk o
  let made : Disk := ⟨[], disk.files, [(1, ["out"])]⟩
  let s := (addConfigs o made .initial o.configs).1
  have hmade : disk.createDirectories o.outputDir = .ok made := by decide +kernel
  have hrun : (addConfigs o made .initial o.configs).2 = .ok () ∧ (run o disk).ending = .done ∧
      s.roots = ["VerbRoot", "VerbRootIrregular"] ∧
      ∃ x ∈ s.outputs, x.network.rootName = "VerbRoot" ∧
        ∀ f ∈ (run o disk).disk.files, f.2 ≠ Bytes.ofText x.network.source := by
    decide +kernel
  exact ⟨made, s, hmade, Prod.ext rfl hrun.1, hrun.2⟩

/-- The verbs of a configuration with two files are kept. -/
theorem networks_kept_apart :
    let config := "\x7b\"root_lexicon\":\"VerbRoot\",\"morph_features\":[\"Order\"]," ++
      "\"regular_lexc_file\":\"verbs.lexc\",\"irregular_lexc_file\":\"irregular.lexc\"\x7d"
    let disk : Disk := ⟨[], [(["verbs.json"], Bytes.ofText config)], []⟩
    let o : Options := ⟨["verbs.json"], "", "out", [], true, false⟩
    ∃ made s, disk.createDirectories o.outputDir = .ok made ∧
      addConfigs o made .initial o.configs = (s, .ok ()) ∧ (run o disk).ending = .done ∧
      s.roots = ["VerbRoot", "VerbRootIrregular"] ∧
      ∀ x ∈ s.outputs, (run o disk).disk.read x.path =
        .ok (Bytes.ofText x.network.source) := by
  intro config disk o
  let made : Disk := ⟨[], disk.files, [(1, ["out"])]⟩
  let s := (addConfigs o made .initial o.configs).1
  have hmade : disk.createDirectories o.outputDir = .ok made := by decide +kernel
  have hrun : (addConfigs o made .initial o.configs).2 = .ok () ∧ (run o disk).ending = .done ∧
      s.roots = ["VerbRoot", "VerbRootIrregular"] ∧
      (∀ x ∈ s.outputs, made.target? x.path ≠ made.target? o.rootPath) ∧
        ∀ x ∈ s.outputs, ∀ y ∈ s.outputs, made.target? x.path = made.target? y.path →
          x.network.source = y.network.source := by
    decide +kernel
  have hs : addConfigs o made .initial o.configs = (s, .ok ()) := Prod.ext rfl hrun.1
  obtain ⟨-, -, -, -, hkept⟩ := (networks_kept_iff o disk).2 made s hmade hs hrun.2.1
  exact ⟨made, s, hmade, hs, hrun.2.1, hrun.2.2.1, hkept.mpr hrun.2.2.2⟩

end Morphotactics
