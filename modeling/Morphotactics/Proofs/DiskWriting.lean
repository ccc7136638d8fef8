import Morphotactics.Disk

/-!
# Writing to disks

A path that a file can be written to has a target: the way at whose end the file comes to
lie.  Writing changes what is at that end and no directory, so all other paths keep their
targets (`target?_put`), whatever is written in between.  So after a run of writes each
path is read at the target that it had before the run, and what is found there is the last
content that was written to that target (`fileAt_of_writeFiles`).
-/

namespace Morphotactics

/-! ## Bytes of texts -/

/-- The bytes of an array from a position on, behind those that were gone through before. -/
theorem toList_loop (bs : ByteArray) (i : Nat) (r : List UInt8) :
    ByteArray.toList.loop bs i r = r.reverse ++ bs.data.toList.drop i := by
  fun_induction ByteArray.toList.loop bs i r with
  | case1 i r h ih =>
      have hlt : i < bs.data.toList.length := by simpa using h
      have hhead : bs.get! i = bs.data.toList[i] := by
        simp only [ByteArray.get!, Array.getElem_toList, getElem!_pos bs.data i (by simpa using h)]
      rw [ih, List.drop_eq_getElem_cons hlt, List.reverse_cons, List.append_assoc, hhead,
        List.singleton_append]
  | case2 i r h =>
      have hle : bs.data.toList.length ≤ i := by simpa using h
      rw [List.drop_eq_nil_of_le hle, List.append_nil]

/-- Texts are told apart by their bytes. -/
theorem Bytes.ofText_inj {s t : String} : Bytes.ofText s = Bytes.ofText t ↔ s = t := by
  refine ⟨fun h => ?_, congrArg _⟩
  have hdata : s.toByteArray.data.toList = t.toByteArray.data.toList := by
    simpa only [Bytes.ofText, String.toUTF8, ByteArray.toList, toList_loop, List.reverse_nil,
      List.nil_append, List.drop_zero] using h
  exact String.toByteArray_inj.mp (ByteArray.ext (Array.toList_inj.mp hdata))

namespace Disk

variable {d d' : Disk}

/-! ## Places -/

/-- The way to a place. -/
def Place.way : Place → List String
  | .file way _ => way
  | .directory way => way
  | .vacant way => way

/-- Whether steps can be taken from a place. -/
def Place.isDirectory : Place → Bool
  | .directory _ => true
  | _ => false

/-- Two disks have the same directories, and the same one of them is the present one. -/
structure SameDirectories (d d' : Disk) : Prop where
  here : d'.here = d.here
  look : ∀ way, (d'.look way).isDirectory = (d.look way).isDirectory

/-- A disk has the same directories as itself. -/
theorem SameDirectories.refl (d : Disk) : d.SameDirectories d := ⟨rfl, fun _ => rfl⟩

/-- Which of two disks comes first does not matter. -/
theorem SameDirectories.symm (h : d.SameDirectories d') : d'.SameDirectories d :=
  ⟨h.here.symm, fun way => (h.look way).symm⟩

/-- Disks that have the same directories as a third one have the same. -/
theorem SameDirectories.trans {d'' : Disk} (h : d.SameDirectories d')
    (h' : d'.SameDirectories d'') : d.SameDirectories d'' :=
  ⟨h'.here.trans h.here, fun way => (h'.look way).trans (h.look way)⟩

/-- Two places that differ in content at most. -/
def Place.Alike (p p' : Place) : Prop := p'.way = p.way ∧ p'.isDirectory = p.isDirectory

/-- What is seen at the end of a way is a place on that way. -/
theorem way_look (d : Disk) (way : List String) : (d.look way).way = way := by
  unfold look
  split
  · rfl
  · split <;> rfl

/-- **What a step does.**  It is taken from a directory, and either leads to a directory
whatever else the disk holds, or to what is seen at the end of the way that it makes longer. -/
theorem step_cases {p q : Place} {s : String} (h : d.step p s = .ok q) :
    p = .directory p.way ∧ ((q.isDirectory ∧ ∀ d' : Disk, d'.step p s = .ok q) ∨
      (q = d.look (p.way ++ [s]) ∧ ∀ d' : Disk, d'.step p s = .ok (d'.look (p.way ++ [s])))) := by
  cases p with
  | file way content => cases h
  | vacant way => cases h
  | directory way =>
      refine ⟨rfl, ?_⟩
      simp only [step] at h ⊢
      by_cases hstay : s = "" ∨ s = "."
      · simp only [if_pos hstay] at h ⊢
        exact .inl ⟨Except.ok.inj h ▸ rfl, fun _ => h⟩
      · by_cases hup : s = ".."
        · simp only [if_neg hstay, if_pos hup] at h ⊢
          exact .inl ⟨Except.ok.inj h ▸ rfl, fun _ => h⟩
        · by_cases hlong : s.utf8ByteSize > 255
          · simp only [if_neg hstay, if_neg hup, if_pos hlong] at h
            cases h
          · simp only [if_neg hstay, if_neg hup, if_neg hlong] at h ⊢
            exact .inr ⟨(Except.ok.inj h).symm, fun _ => rfl⟩

/-- **A step on two disks.**  Disks with the same directories take alike places to alike
places. -/
theorem step_alike (h : d.SameDirectories d') {p p' q : Place} {s : String} (hp : p.Alike p')
    (hq : d.step p s = .ok q) : ∃ q', d'.step p' s = .ok q' ∧ q.Alike q' := by
  obtain ⟨hdirectory, hcases⟩ := step_cases hq
  have hp' : p' = p := by
    obtain ⟨hway, hkind⟩ := hp
    rw [hdirectory] at hkind ⊢
    cases p' with
    | file way content => cases hkind
    | vacant way => cases hkind
    | directory way => exact congrArg _ hway
  rw [hp']
  obtain ⟨-, hstep⟩ | ⟨rfl, hstep⟩ := hcases
  · exact ⟨q, hstep d', rfl, rfl⟩
  · exact ⟨_, hstep d', by rw [way_look, way_look], h.look _⟩

/-- The same steps lead to places that differ in content at most. -/
theorem followSteps_alike (h : d.SameDirectories d') {steps : List String} {p p' q : Place}
    (hp : p.Alike p') (hq : steps.foldlM d.step p = .ok q) :
    ∃ q', steps.foldlM d'.step p' = .ok q' ∧ q.Alike q' := by
  induction steps generalizing p p' with
  | nil =>
      obtain rfl := Except.ok.inj hq
      exact ⟨p', rfl, hp⟩
  | cons s steps ih =>
      rw [List.foldlM_cons] at hq
      cases hstep : d.step p s with
      | error e =>
          rw [hstep] at hq
          cases hq
      | ok r =>
          rw [hstep] at hq
          obtain ⟨r', hr', halike⟩ := step_alike h hp hstep
          obtain ⟨q', hq', hlast⟩ := ih halike hq
          refine ⟨q', ?_, hlast⟩
          rw [List.foldlM_cons, hr']
          exact hq'

/-- Following a path leads to a directory, or to what is seen at the end of the way. -/
theorem eq_look_of_followSteps {steps : List String} {p q : Place}
    (hp : p.isDirectory = false → p = d.look p.way) (hq : steps.foldlM d.step p = .ok q) :
    q.isDirectory = false → q = d.look q.way := by
  induction steps generalizing p with
  | nil =>
      obtain rfl := Except.ok.inj hq
      exact hp
  | cons s steps ih =>
      rw [List.foldlM_cons] at hq
      cases hstep : d.step p s with
      | error e =>
          rw [hstep] at hq
          cases hq
      | ok r =>
          rw [hstep] at hq
          refine ih (fun hfile => ?_) hq
          obtain ⟨-, ⟨hdirectory, -⟩ | ⟨rfl, -⟩⟩ := step_cases hstep
          · rw [hdirectory] at hfile
            cases hfile
          · rw [way_look]

/-! ## Targets of paths -/

/-- The way to the file that is written at a path, if one can be written there. -/
def target? (d : Disk) (path : String) : Option (List String) :=
  if Path.withoutLastSlashes path = path then
    match d.follow path with
    | .ok (.file way _) | .ok (.vacant way) => some way
    | _ => none
  else none

/-- A path has a target when it ends in no slash and leads to a file or to a vacant place. -/
theorem target?_eq_some_iff {path : String} {way : List String} :
    d.target? path = some way ↔ Path.withoutLastSlashes path = path ∧
      ∃ p, d.follow path = .ok p ∧ p.isDirectory = false ∧ p.way = way := by
  unfold target?
  split
  case isTrue hpath =>
      rw [and_iff_right hpath]
      cases d.follow path with
      | error e => simp
      | ok p => cases p <;> simp [Place.isDirectory, Place.way]
  case isFalse hpath => simp [hpath]

/-- Writing is putting at the target. -/
theorem write_eq_ok_iff {path : String} {content : Bytes} :
    d.write path content = .ok d' ↔
      ∃ way, d.target? path = some way ∧ d' = d.put way content := by
  simp only [write, target?]
  split
  · cases d.follow path with
    | error e => simp
    | ok p => cases p <;> simp [eq_comm]
  · cases d.followSteps path _ <;> simp

/-- A target depends on the directories only. -/
theorem target?_of_sameDirectories (h : d.SameDirectories d') {path : String}
    {way : List String} (hway : d.target? path = some way) : d'.target? path = some way := by
  obtain ⟨hpath, p, hfollow, hfile, hend⟩ := target?_eq_some_iff.mp hway
  refine target?_eq_some_iff.mpr ⟨hpath, ?_⟩
  have hstart : d'.startOf path = d.startOf path := by rw [startOf, startOf, h.here]
  unfold follow followSteps at hfollow ⊢
  cases herror : pathError? path with
  | some e =>
      rw [herror] at hfollow
      cases hfollow
  | none =>
      rw [herror] at hfollow
      obtain ⟨p', hp', hway', hdirectory'⟩ := followSteps_alike h ⟨rfl, rfl⟩ hfollow
      rw [hstart]
      exact ⟨p', hp', hdirectory'.trans hfile, hway'.trans hend⟩

/-- Disks with the same directories have the same targets. -/
theorem target?_eq_of_sameDirectories (h : d.SameDirectories d') (path : String) :
    d'.target? path = d.target? path := by
  cases hway : d.target? path with
  | some way => exact target?_of_sameDirectories h hway
  | none =>
      cases hway' : d'.target? path with
      | none => rfl
      | some way =>
          have hback := target?_of_sameDirectories h.symm hway'
          rw [hway] at hback
          cases hback

/-- What is seen at the end of a way that is a target. -/
theorem follow_eq_look {path : String} {way : List String} (h : d.target? path = some way) :
    d.follow path = .ok (d.look way) ∧ (d.look way).isDirectory = false := by
  obtain ⟨-, p, hfollow, hfile, rfl⟩ := target?_eq_some_iff.mp h
  have hlook : p = d.look p.way := by
    have hsteps := hfollow
    unfold follow followSteps at hsteps
    cases herror : pathError? path with
    | some e =>
        rw [herror] at hsteps
        cases hsteps
    | none =>
        rw [herror] at hsteps
        exact eq_look_of_followSteps (fun hstart => by cases hstart) hsteps hfile
  rw [← hlook]
  exact ⟨hfollow, hfile⟩

/-- A file that is there is read at the target of its path. -/
theorem read_eq_ok {path : String} {way : List String} {content : Bytes}
    (h : d.target? path = some way) (hfile : d.fileAt way = some content) :
    d.read path = .ok content := by
  rw [read, (follow_eq_look h).1, look, hfile]

/-! ## One write -/

/-- Looking up after the content at one way was replaced. -/
theorem lookup_map_replace (files : List (List String × Bytes)) (way w : List String)
    (content : Bytes) :
    (files.map fun f => if f.1 = way then (way, content) else f).lookup w =
      if w = way then (files.lookup w).map fun _ => content else files.lookup w := by
  induction files with
  | nil => simp
  | cons f files ih =>
      rw [List.map_cons, List.lookup_cons, List.lookup_cons, ih]
      by_cases hw : w = way
      · subst hw
        by_cases hf : f.1 = w
        · simp [hf]
        · have hne : (w == f.1) = false := by simpa using Ne.symm hf
          simp [hf, hne]
      · have hne : (w == way) = false := by simpa using hw
        by_cases hf : f.1 = way
        · simp [hf, hw, hne]
        · simp [hf, hw]

/-- **What a write changes.**  The end of the way has the content, and all others have what
they had. -/
theorem fileAt_put (d : Disk) (way w : List String) (content : Bytes) :
    (d.put way content).fileAt w = if w = way then some content else d.fileAt w := by
  unfold put
  split
  case isTrue hthere =>
      rw [fileAt, lookup_map_replace]
      split
      case isTrue hw =>
          rw [hw]
          obtain ⟨b, hb⟩ := Option.isSome_iff_exists.mp hthere
          rw [fileAt] at hb
          rw [hb]
          rfl
      case isFalse hw => rfl
  case isFalse hnew =>
      have hnone : d.files.lookup way = none := Option.not_isSome_iff_eq_none.mp hnew
      rw [fileAt, List.lookup_append]
      split
      case isTrue hw =>
          rw [hw, hnone]
          simp
      case isFalse hw =>
          have hne : (w == way) = false := by simpa using hw
          rw [List.lookup_cons, hne]
          simp [fileAt]

/-- A file that is put where no directory is leaves the directories as they are. -/
theorem sameDirectories_put {way : List String} (h : (d.look way).isDirectory = false)
    (content : Bytes) : d.SameDirectories (d.put way content) := by
  have hdirectory : ∀ w, (d.put way content).hasDirectory w = d.hasDirectory w := by
    intro w
    unfold put
    split <;> rfl
  refine ⟨by unfold put; split <;> rfl, fun w => ?_⟩
  by_cases hw : w = way
  · rw [hw, h]
    unfold look
    rw [fileAt_put, if_pos rfl]
    rfl
  · unfold look
    rw [fileAt_put, if_neg hw, hdirectory]

/-- **A write.**  It keeps the directories, and changes what is at the target of its path. -/
theorem write_spec {path : String} {content : Bytes} (h : d.write path content = .ok d') :
    d.SameDirectories d' ∧ ∃ way, d.target? path = some way ∧
      ∀ w, d'.fileAt w = if w = way then some content else d.fileAt w := by
  obtain ⟨way, htarget, rfl⟩ := write_eq_ok_iff.mp h
  exact ⟨sameDirectories_put (follow_eq_look htarget).2 content, way, htarget,
    fun w => fileAt_put d way w content⟩

/-! ## Runs of writes -/

/-- The disk after files were written one after the other. -/
def writeFiles (d : Disk) (files : List (String × Bytes)) : Except DiskError Disk :=
  files.foldlM (fun d f => d.write f.1 f.2) d

/-- Files are written by writing the first one and then the others. -/
theorem writeFiles_cons {f : String × Bytes} {files : List (String × Bytes)} :
    d.writeFiles (f :: files) = .ok d' ↔
      ∃ d₁, d.write f.1 f.2 = .ok d₁ ∧ d₁.writeFiles files = .ok d' := by
  rw [writeFiles, List.foldlM_cons]
  cases d.write f.1 f.2 with
  | error e => exact ⟨nofun, nofun⟩
  | ok d₁ => exact ⟨fun h => ⟨d₁, rfl, h⟩, fun ⟨_, heq, h⟩ => Except.ok.inj heq ▸ h⟩

/-- Files are written by writing all but the last one, and then that. -/
theorem writeFiles_concat {files : List (String × Bytes)} {f : String × Bytes} :
    d.writeFiles (files ++ [f]) = .ok d' ↔
      ∃ d₁, d.writeFiles files = .ok d₁ ∧ d₁.write f.1 f.2 = .ok d' := by
  induction files generalizing d with
  | nil =>
      rw [List.nil_append, writeFiles_cons]
      exact ⟨fun ⟨d₁, hwrite, hnone⟩ => ⟨d, rfl, Except.ok.inj hnone ▸ hwrite⟩,
        fun ⟨d₁, hnone, hwrite⟩ => ⟨d', Except.ok.inj hnone ▸ hwrite, rfl⟩⟩
  | cons g files ih =>
      rw [List.cons_append, writeFiles_cons]
      constructor
      · intro ⟨d₁, hwrite, hrest⟩
        obtain ⟨d₂, hfiles, hlast⟩ := ih.mp hrest
        exact ⟨d₂, writeFiles_cons.mpr ⟨d₁, hwrite, hfiles⟩, hlast⟩
      · intro ⟨d₂, hall, hlast⟩
        obtain ⟨d₁, hwrite, hfiles⟩ := writeFiles_cons.mp hall
        exact ⟨d₁, hwrite, ih.mpr ⟨d₂, hfiles, hlast⟩⟩

/-- **A run of writes** leaves the directories as they are. -/
theorem sameDirectories_of_writeFiles {files : List (String × Bytes)}
    (h : d.writeFiles files = .ok d') : d.SameDirectories d' := by
  induction files generalizing d with
  | nil =>
      obtain rfl := Except.ok.inj h
      exact .refl d
  | cons f files ih =>
      obtain ⟨d₁, hwrite, hrest⟩ := writeFiles_cons.mp h
      exact (write_spec hwrite).1.trans (ih hrest)

/-- A run of writes succeeds if all its paths have targets before the run. -/
theorem writeFiles_ok_iff {files : List (String × Bytes)} :
    (∃ d', d.writeFiles files = .ok d') ↔ ∀ f ∈ files, (d.target? f.1).isSome := by
  induction files generalizing d with
  | nil => exact iff_of_true ⟨d, rfl⟩ nofun
  | cons f files ih =>
      rw [List.forall_mem_cons]
      constructor
      · rintro ⟨d', h⟩
        obtain ⟨d₁, hwrite, hrest⟩ := writeFiles_cons.mp h
        obtain ⟨hsame, way, htarget, -⟩ := write_spec hwrite
        refine ⟨by rw [htarget]; rfl, fun g hg => ?_⟩
        rw [← target?_eq_of_sameDirectories hsame]
        exact ih.mp ⟨d', hrest⟩ g hg
      · rintro ⟨hf, hfiles⟩
        obtain ⟨way, htarget⟩ := Option.isSome_iff_exists.mp hf
        have hwrite : d.write f.1 f.2 = .ok (d.put way f.2) :=
          write_eq_ok_iff.mpr ⟨way, htarget, rfl⟩
        have hsame := (write_spec hwrite).1
        obtain ⟨d', hrest⟩ := ih.mpr fun g hg => by
          rw [target?_eq_of_sameDirectories hsame]
          exact hfiles g hg
        exact ⟨d', writeFiles_cons.mpr ⟨_, hwrite, hrest⟩⟩

/-- The content that a run of writes puts at the end of a way last, if it writes there. -/
def lastWritten (d : Disk) (way : List String) (files : List (String × Bytes)) : Option Bytes :=
  (files.reverse.find? fun f => d.target? f.1 = some way).map Prod.snd

/-- What was written last at the end of a way comes from the later files, or else from the
first one. -/
theorem lastWritten_cons (way : List String) (f : String × Bytes)
    (files : List (String × Bytes)) :
    d.lastWritten way (f :: files) = (d.lastWritten way files).or
      (if d.target? f.1 = some way then some f.2 else none) := by
  rw [lastWritten, lastWritten, List.reverse_cons, List.find?_append, Option.map_or]
  by_cases htarget : d.target? f.1 = some way <;> simp [htarget]

/-- What was written last at the end of a way is the content of one of the files. -/
theorem exists_of_lastWritten {way : List String} {files : List (String × Bytes)}
    {content : Bytes} (h : d.lastWritten way files = some content) :
    ∃ f ∈ files, d.target? f.1 = some way ∧ f.2 = content := by
  obtain ⟨f, hfind, rfl⟩ := Option.map_eq_some_iff.mp h
  have htarget := List.find?_some hfind
  exact ⟨f, List.mem_reverse.mp (List.mem_of_find?_eq_some hfind), of_decide_eq_true htarget, rfl⟩

/-- **What a run of writes leaves** at the end of a way: what it wrote there last, and what was
there before if it wrote nothing there. -/
theorem fileAt_of_writeFiles {files : List (String × Bytes)} (h : d.writeFiles files = .ok d')
    (way : List String) : d'.fileAt way = (d.lastWritten way files).or (d.fileAt way) := by
  induction files generalizing d with
  | nil =>
      obtain rfl := Except.ok.inj h
      rfl
  | cons f files ih =>
      obtain ⟨d₁, hwrite, hrest⟩ := writeFiles_cons.mp h
      obtain ⟨hsame, w, htarget, hfile⟩ := write_spec hwrite
      have hlast : d₁.lastWritten way files = d.lastWritten way files := by
        rw [lastWritten, lastWritten]
        simp only [target?_eq_of_sameDirectories hsame]
      rw [ih hrest, lastWritten_cons, hlast, hfile way, htarget, Option.or_assoc]
      by_cases hw : way = w
      · rw [if_pos hw, if_pos (congrArg some hw.symm), Option.some_or]
      · rw [if_neg hw, if_neg fun hsome => hw (Option.some.inj hsome).symm, Option.none_or]

/-- Each path of a run of writes leads to what was written last to its target. -/
theorem read_of_writeFiles {files : List (String × Bytes)} (h : d.writeFiles files = .ok d')
    {f : String × Bytes} (hf : f ∈ files) {way : List String} (hway : d.target? f.1 = some way) :
    ∃ content, d.lastWritten way files = some content ∧ d'.read f.1 = .ok content := by
  have hsome : ∃ content, d.lastWritten way files = some content := by
    cases hlast : d.lastWritten way files with
    | some content => exact ⟨content, rfl⟩
    | none =>
        have hnone := List.find?_eq_none.mp (Option.map_eq_none_iff.mp hlast) f
          (List.mem_reverse.mpr hf)
        exact absurd (decide_eq_true hway) hnone
  obtain ⟨content, hlast⟩ := hsome
  have hfile : d'.fileAt way = some content := by
    rw [fileAt_of_writeFiles h way, hlast, Option.some_or]
  exact ⟨content, hlast, read_eq_ok
    ((target?_eq_of_sameDirectories (sameDirectories_of_writeFiles h) _).trans hway) hfile⟩

/-- The last file of a run of writes is read back. -/
theorem read_last {files : List (String × Bytes)} {f : String × Bytes}
    (h : d.writeFiles (files ++ [f]) = .ok d') : d'.read f.1 = .ok f.2 := by
  have hf : f ∈ files ++ [f] := List.mem_append_right _ List.mem_cons_self
  obtain ⟨way, hway⟩ := Option.isSome_iff_exists.mp (writeFiles_ok_iff.mp ⟨d', h⟩ f hf)
  obtain ⟨content, hlast, hread⟩ := read_of_writeFiles h hf hway
  have hcontent : d.lastWritten way (files ++ [f]) = some f.2 := by
    simp [lastWritten, hway]
  rw [hcontent] at hlast
  rw [hread, Option.some.inj hlast]

/-- **Nothing is overwritten** by a run of writes if and only if it writes no two different
contents to one target: then all its files are read back. -/
theorem forall_read_iff {files : List (String × Bytes)} (h : d.writeFiles files = .ok d') :
    (∀ f ∈ files, d'.read f.1 = .ok f.2) ↔
      ∀ f ∈ files, ∀ g ∈ files, d.target? f.1 = d.target? g.1 → f.2 = g.2 := by
  have htargets := writeFiles_ok_iff.mp ⟨d', h⟩
  constructor
  · intro hread f hf g hg heq
    obtain ⟨way, hway⟩ := Option.isSome_iff_exists.mp (htargets f hf)
    obtain ⟨content, hlast, hcontent⟩ := read_of_writeFiles h hf hway
    obtain ⟨content', hlast', hcontent'⟩ := read_of_writeFiles h hg (heq ▸ hway)
    rw [hread f hf] at hcontent
    rw [hread g hg] at hcontent'
    rw [Except.ok.inj hcontent, Except.ok.inj hcontent', Option.some.inj (hlast.symm.trans hlast')]
  · intro honly f hf
    obtain ⟨way, hway⟩ := Option.isSome_iff_exists.mp (htargets f hf)
    obtain ⟨content, hlast, hread⟩ := read_of_writeFiles h hf hway
    obtain ⟨g, hg, hgway, rfl⟩ := exists_of_lastWritten hlast
    rw [hread, honly f hf g hg (hway.trans hgway.symm)]

end Disk

end Morphotactics
