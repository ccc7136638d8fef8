import Morphotactics.CommandLine.Build
import Morphotactics.Proofs.Independence

/-!
# Builds as lists of tasks

A build goes through configurations.  Each of them asks for one or two networks, and
for a file for each: these are its tasks.  The session is handed from one to the next,
but all that a task takes from it is the alphabet, and networks do not depend on that.
So what a task makes, and whether it can be done, is told by the task alone, and what
a session comes to is the list of what its tasks make (`does_addConfigs`).

It follows that configurations do not disturb each other (`configurations_independent`):
in whatever order a build takes them, it makes the same networks and ends with the same
alphabet.
-/

namespace Morphotactics

/-- The network that a compilation makes, if it can be done. -/
def Job.network? (j : Job) : Option Network :=
  (j.compile SortedSet.empty).outcome.toOption.map Compiled.network

/-- A job has a network when its compilation succeeds, whatever alphabet it starts from. -/
theorem Job.network?_eq_some {j : Job} {g : Network} (h : j.network? = some g) :
    ∃ compiled, (j.compile SortedSet.empty).outcome = .ok compiled ∧ compiled.network = g := by
  obtain ⟨compiled, hcompiled, rfl⟩ := Option.map_eq_some_iff.mp h
  cases hout : (j.compile SortedSet.empty).outcome with
  | error e =>
      rw [hout] at hcompiled
      cases hcompiled
  | ok compiled' =>
      rw [hout] at hcompiled
      exact ⟨compiled', rfl, congrArg _ (Option.some.inj hcompiled)⟩

/-- A compilation makes its network on every alphabet. -/
theorem Job.network?_eq (j : Job) (a : Alphabet) :
    j.network? = (j.compile a).outcome.toOption.map Compiled.network := by
  have houtcome : (j.compile a).outcome = (j.compile SortedSet.empty).outcome :=
    (compile_agrees j.sources j.config j.mode SortedSet.empty a).1
  rw [network?, houtcome]

/-- A network that was compiled is well-formed and has the root that its configuration
names. -/
theorem shape_compile {s : Sources} {c : Config} {m : Mode} {a : Alphabet} {compiled : Compiled}
    (h : (compile s c m a).outcome = .ok compiled) :
    compiled.network.WellFormed ∧ compiled.network.rootName = c.rootFor m := by
  obtain ⟨es, hnetwork, -⟩ := network_compile h
  rw [hnetwork, Network.rootName_insertAll]
  exact ⟨(Network.wellFormed_ofForms _ _).insertAll es,
    Sublexicon.root.inj (Network.root_ofForms _ _)⟩

namespace CommandLine.Build

/-- A network that a build is asked for, and the file for it. -/
structure Task where
  job : Job
  file : String

/-- The root that a task is known by in the root source. -/
def Task.root (t : Task) : String := t.job.config.rootFor t.job.mode

variable (o : Options) (disk : Disk)

/-- What a task makes, if it can be done. -/
def Task.output? (t : Task) : Option Output :=
  t.job.network?.map fun g => ⟨Path.join o.outputDir t.file, g⟩

/-- The task of a configuration for one kind of forms, if there is a file for it. -/
def Options.modeTasks (c : Config) (m : Mode) : List Task :=
  (c.fileFor m).toList.map fun file => ⟨⟨o.sources disk, c, m⟩, file⟩

/-- The tasks of a configuration. -/
def Options.configTasks (c : Config) : List Task :=
  o.modeTasks disk c .regular ++ o.modeTasks disk c .irregular

/-- The tasks of the configuration at a path. -/
def Options.tasks (path : String) : List Task :=
  match Config.load disk path with
  | .ok c => o.configTasks disk c
  | .error _ => []

/-- The configuration at a path is there, and its tasks can be done. -/
def Options.Feasible (path : String) : Prop :=
  ∃ c, Config.load disk path = .ok c ∧ ∀ t ∈ o.configTasks disk c, (t.output? o).isSome

/-- A later session in which tasks were done: it has what they make, the roots that they
are known by, and their symbols. -/
structure Session.Makes (s : Session) (ts : List Task) (s' : Session) : Prop where
  outputs : s'.outputs = s.outputs ++ ts.filterMap (Task.output? o)
  roots : s'.roots = s.roots ++ ts.map Task.root
  alphabet : s'.alphabet = s.alphabet.afterJobs (ts.map Task.job)

variable {o disk}

/-- Notices alone make nothing. -/
theorem Session.Makes.refl (s : Session) (ns : List Notice) :
    s.Makes o [] { s with notices := ns } :=
  ⟨(List.append_nil _).symm, (List.append_nil _).symm, rfl⟩

/-- What one stretch of a session makes comes before what the next one makes. -/
theorem Session.Makes.trans {s s' s'' : Session} {ts us : List Task} (h : s.Makes o ts s')
    (h' : s'.Makes o us s'') : s.Makes o (ts ++ us) s'' where
  outputs := by rw [h'.outputs, h.outputs, List.filterMap_append, List.append_assoc]
  roots := by rw [h'.roots, h.roots, List.map_append, List.append_assoc]
  alphabet := by
    rw [h'.alphabet, h.alphabet, List.map_append, Alphabet.afterJobs, Alphabet.afterJobs,
      Alphabet.afterJobs, List.foldl_append]

/-! ## Stages of a build -/

/-- A stage of a build does tasks: whether it succeeds does not depend on the session, and
if it does then its tasks are done. -/
structure Does (o : Options) (feasible : Prop) (ts : List Task)
    (stage : Session → Session × Except Failure Unit) : Prop where
  ok_iff : ∀ s, (stage s).2 = .ok () ↔ feasible
  makes : ∀ s, (stage s).2 = .ok () → s.Makes o ts (stage s).1

/-- One stage and then another, unless the first one fails. -/
def thenStage (stage stage' : Session → Session × Except Failure Unit) (s : Session) :
    Session × Except Failure Unit :=
  match stage s with
  | (s, .ok ()) => stage' s
  | (s, .error e) => (s, .error e)

/-- Two stages one after the other do the tasks of both. -/
theorem Does.thenStage {P Q : Prop} {ts us : List Task}
    {stage stage' : Session → Session × Except Failure Unit} (h : Does o P ts stage)
    (h' : Does o Q us stage') : Does o (P ∧ Q) (ts ++ us) (thenStage stage stage') where
  ok_iff := by
    intro s
    have hfirst := h.ok_iff s
    unfold Build.thenStage
    generalize stage s = q at hfirst ⊢
    rcases q with ⟨s', e | _⟩
    · have hnot : ¬ P := fun hp => nomatch hfirst.mpr hp
      exact ⟨nofun, fun hboth => absurd hboth.1 hnot⟩
    · have hp : P := hfirst.mp rfl
      rw [and_iff_right hp]
      exact h'.ok_iff s'
  makes := by
    intro s
    have hfirst := h.makes s
    unfold Build.thenStage
    generalize stage s = q at hfirst ⊢
    rcases q with ⟨s', e | _⟩
    · exact nofun
    · exact fun hok => (hfirst rfl).trans (h'.makes s' hok)

variable (o disk) in
/-- **A task.**  A network is compiled if there is a file for it. -/
theorem does_addNetwork (path : String) (c : Config) (m : Mode) :
    Does o (∀ t ∈ o.modeTasks disk c m, (t.output? o).isSome) (o.modeTasks disk c m)
      (fun s => addNetwork o disk path c s m) := by
  cases hfile : c.fileFor m with
  | none =>
      have hnone : o.modeTasks disk c m = [] := by rw [Options.modeTasks, hfile]; rfl
      have hstage : ∀ s, addNetwork o disk path c s m = (s, .ok ()) := by
        intro s
        rw [addNetwork, hfile]
      rw [hnone]
      refine ⟨fun s => ?_, fun s _ => ?_⟩
      · rw [hstage]
        exact iff_of_true rfl fun t ht => absurd ht List.not_mem_nil
      · rw [hstage]
        exact .refl s s.notices
  | some file =>
      let t : Task := ⟨⟨o.sources disk, c, m⟩, file⟩
      have hone : o.modeTasks disk c m = [t] := by rw [Options.modeTasks, hfile]; rfl
      have hstage : ∀ s, ((addNetwork o disk path c s m).2 = .ok () ↔ (t.output? o).isSome) ∧
          ((addNetwork o disk path c s m).2 = .ok () →
            s.Makes o [t] (addNetwork o disk path c s m).1) := by
        intro s
        have hnetwork : t.job.network? =
            (compile (o.sources disk) c m s.alphabet).outcome.toOption.map Compiled.network :=
          t.job.network?_eq s.alphabet
        unfold addNetwork
        rw [hfile]
        dsimp only
        cases hout : (compile (o.sources disk) c m s.alphabet).outcome with
        | error e =>
            rw [hout] at hnetwork
            have hnone : t.output? o = none := by rw [Task.output?, hnetwork]; rfl
            rw [hnone]
            exact ⟨⟨nofun, nofun⟩, nofun⟩
        | ok compiled =>
            rw [hout] at hnetwork
            have hsome : t.output? o = some ⟨Path.join o.outputDir file, compiled.network⟩ := by
              rw [Task.output?, hnetwork]
              rfl
            refine ⟨by rw [hsome]; exact iff_of_true rfl rfl, fun _ => ⟨?_, rfl, rfl⟩⟩
            rw [List.filterMap_cons, hsome]
            rfl
      rw [hone]
      refine ⟨fun s => ?_, fun s => (hstage s).2⟩
      rw [List.forall_mem_singleton]
      exact (hstage s).1

variable (o disk) in
/-- **A configuration.**  Its tasks are done one after the other if it can be loaded. -/
theorem does_addConfig (path : String) :
    Does o (o.Feasible disk path) (o.tasks disk path)
      (fun s => addConfig o disk s path) := by
  cases hload : Config.load disk path with
  | error e =>
      have hnot : ¬ o.Feasible disk path := by
        rintro ⟨c, hc, -⟩
        rw [hload] at hc
        cases hc
      have hstage : ∀ s, (addConfig o disk s path).2 ≠ .ok () := by
        intro s
        rw [addConfig, hload]
        exact nofun
      exact ⟨fun s => iff_of_false (hstage s) hnot, fun s hok => absurd hok (hstage s)⟩
  | ok c =>
      have htasks : o.tasks disk path = o.configTasks disk c := by rw [Options.tasks, hload]
      have hfeasible : o.Feasible disk path ↔
          (∀ t ∈ o.modeTasks disk c .regular, (t.output? o).isSome) ∧
            ∀ t ∈ o.modeTasks disk c .irregular, (t.output? o).isSome := by
        rw [← List.forall_mem_append]
        refine ⟨fun ⟨c', hc', h⟩ => ?_, fun h => ⟨c, hload, h⟩⟩
        obtain rfl := Except.ok.inj (hload.symm.trans hc')
        exact h
      have hboth := (does_addNetwork o disk path c .regular).thenStage
        (does_addNetwork o disk path c .irregular)
      have hstage : ∀ s, addConfig o disk s path =
          thenStage (fun s => addNetwork o disk path c s .regular)
            (fun s => addNetwork o disk path c s .irregular)
            { s with notices := s.notices ++ [.openingConfig path] } := by
        intro s
        rw [addConfig, hload]
        rfl
      rw [htasks, hfeasible]
      refine ⟨fun s => ?_, fun s hok => ?_⟩
      · rw [hstage]
        exact hboth.ok_iff _
      · rw [hstage] at hok ⊢
        exact (Session.Makes.refl s _).trans (hboth.makes _ hok)

variable (o disk) in
/-- **A build.**  Its configurations are taken one after the other. -/
theorem does_addConfigs (paths : List String) :
    Does o (∀ path ∈ paths, o.Feasible disk path) (paths.flatMap (o.tasks disk))
      (fun s => addConfigs o disk s paths) := by
  induction paths with
  | nil => exact ⟨fun s => iff_of_true rfl nofun, fun s _ => .refl s s.notices⟩
  | cons path paths ih =>
      have hboth := (does_addConfig o disk path).thenStage ih
      have hstage : (fun s => addConfigs o disk s (path :: paths)) =
          thenStage (fun s => addConfig o disk s path) fun s => addConfigs o disk s paths := rfl
      rw [hstage, List.forall_mem_cons, List.flatMap_cons]
      exact hboth

/-! ## What sessions come to -/

/-- What a task makes is well-formed and has the root that the task is known by. -/
theorem Task.shape_output {t : Task} {x : Output} (h : t.output? o = some x) :
    x.network.WellFormed ∧ x.network.rootName = t.root := by
  obtain ⟨g, hg, rfl⟩ := Option.map_eq_some_iff.mp h
  obtain ⟨compiled, hcompiled, rfl⟩ := Job.network?_eq_some hg
  exact shape_compile hcompiled

/-- Tasks that can all be done make one output each, under the roots that they are known
by. -/
theorem outputs_in_step {ts : List Task} (h : ∀ t ∈ ts, (t.output? o).isSome) :
    (ts.filterMap (Task.output? o)).map some = ts.map (Task.output? o) ∧
      (ts.filterMap (Task.output? o)).map (·.network.rootName) = ts.map Task.root := by
  induction ts with
  | nil => exact ⟨rfl, rfl⟩
  | cons t ts ih =>
      obtain ⟨x, hx⟩ := Option.isSome_iff_exists.mp (h t List.mem_cons_self)
      obtain ⟨houtputs, hroots⟩ := ih fun u hu => h u (List.mem_cons_of_mem _ hu)
      rw [List.filterMap_cons_some hx, List.map_cons, List.map_cons, List.map_cons, List.map_cons,
        houtputs, hroots, hx, (Task.shape_output hx).2]
      exact ⟨rfl, rfl⟩

/-- The tasks of feasible configurations can all be done. -/
theorem isSome_output_of_feasible {paths : List String}
    (h : ∀ path ∈ paths, o.Feasible disk path) :
    ∀ t ∈ paths.flatMap (o.tasks disk), (t.output? o).isSome := by
  intro t ht
  obtain ⟨path, hpath, ht⟩ := List.mem_flatMap.mp ht
  obtain ⟨c, hload, hc⟩ := h path hpath
  rw [Options.tasks, hload] at ht
  exact hc t ht

/-- **What a build compiles.**  After a build has compiled its configurations, they are
all feasible, and the session has one output for each task, in order, under the root that
the task is known by. -/
theorem tasks_of_addConfigs {paths : List String} {s : Session}
    (h : addConfigs o disk .initial paths = (s, .ok ())) :
    (∀ path ∈ paths, o.Feasible disk path) ∧
      Session.initial.Makes o (paths.flatMap (o.tasks disk)) s ∧
      s.outputs.map some = (paths.flatMap (o.tasks disk)).map (Task.output? o) ∧
      s.roots = s.outputs.map (·.network.rootName) := by
  have hdoes := does_addConfigs o disk paths
  have hok : (addConfigs o disk .initial paths).2 = .ok () := congrArg Prod.snd h
  have hfeasible := (hdoes.ok_iff _).mp hok
  have hmakes := hdoes.makes _ hok
  rw [h] at hmakes
  obtain ⟨houtputs, hroots⟩ := outputs_in_step (isSome_output_of_feasible hfeasible)
  have hmade : s.outputs = (paths.flatMap (o.tasks disk)).filterMap (Task.output? o) :=
    hmakes.outputs
  have hnamed : s.roots = (paths.flatMap (o.tasks disk)).map Task.root := hmakes.roots
  refine ⟨hfeasible, hmakes, ?_, ?_⟩
  · rw [hmade, houtputs]
  · rw [hnamed, hmade, hroots]

/-- A build that compiles its configurations in one order does so in every other one, with
the same outputs and the same alphabet. -/
theorem exists_addConfigs_of_perm {paths paths' : List String} {s : Session}
    (hperm : paths.Perm paths') (h : addConfigs o disk .initial paths = (s, .ok ())) :
    ∃ s', addConfigs o disk .initial paths' = (s', .ok ()) ∧ s'.outputs.Perm s.outputs ∧
      s'.alphabet = s.alphabet := by
  obtain ⟨hfeasible, hmakes, -, -⟩ := tasks_of_addConfigs h
  have hdoes := does_addConfigs o disk paths'
  have hok : (addConfigs o disk .initial paths').2 = .ok () :=
    (hdoes.ok_iff _).mpr fun path hpath => hfeasible path (hperm.mem_iff.mpr hpath)
  have hmakes' := hdoes.makes _ hok
  have htasks : (paths'.flatMap (o.tasks disk)).Perm (paths.flatMap (o.tasks disk)) :=
    hperm.symm.flatMap_right _
  refine ⟨_, Prod.ext rfl hok, ?_, ?_⟩
  · rw [hmakes'.outputs, hmakes.outputs]
    exact (htasks.filterMap _).append_left _
  · rw [hmakes'.alphabet, hmakes.alphabet]
    exact Alphabet.afterJobs_perm (htasks.map _) _

end CommandLine.Build

/-- **Configurations do not disturb each other.**  What a compilation comes to does not
depend on the alphabet that it is given: it succeeds or fails alike, gives the same
network and counts, tells the same, and adds the same symbols.  So where a build
compiles all its configurations, it does so in every order of them, and gives the same
networks for the same files, and the same alphabet with the same declaration.  The roots
that it lists are those of the networks, in their order. -/
theorem configurations_independent :
    (∀ (s : Sources) (c : Config) (m : Mode),
      (∀ a a' : Alphabet, (compile s c m a').outcome = (compile s c m a).outcome ∧
        (compile s c m a').notices = (compile s c m a).notices) ∧
      ∃ own : Alphabet, ∀ a : Alphabet, (compile s c m a).alphabet = a.union own) ∧
    ∀ (o : CommandLine.Build.Options) (disk : Disk) (paths paths' : List String)
      (s : CommandLine.Build.Session), paths.Perm paths' →
        CommandLine.Build.addConfigs o disk .initial paths = (s, .ok ()) →
          ∃ s', CommandLine.Build.addConfigs o disk .initial paths' = (s', .ok ()) ∧
            s'.outputs.Perm s.outputs ∧ s'.alphabet = s.alphabet ∧
            s'.alphabet.declaration = s.alphabet.declaration ∧
            s.roots = s.outputs.map (·.network.rootName) ∧
            s'.roots = s'.outputs.map (·.network.rootName) := by
  constructor
  · intro s c m
    exact ⟨fun a a' => compile_agrees s c m a a', _, fun a => alphabet_compile_eq_union s c m a⟩
  · intro o disk paths paths' s hperm h
    obtain ⟨s', h', houtputs, halphabet⟩ := CommandLine.Build.exists_addConfigs_of_perm hperm h
    obtain ⟨-, -, -, hroots⟩ := CommandLine.Build.tasks_of_addConfigs h
    obtain ⟨-, -, -, hroots'⟩ := CommandLine.Build.tasks_of_addConfigs h'
    exact ⟨s', h', houtputs, halphabet, by rw [halphabet], hroots, hroots'⟩

/-- Verbs are built before nouns and after them. -/
theorem configurations_independent_of_order :
    let verbs := "\x7b\"root_lexicon\":\"VerbRoot\",\"morph_features\":[\"Order\"]," ++
      "\"regular_csv_files\":[\"VTA\"],\"regular_lexc_file\":\"verbs.lexc\"\x7d"
    let nouns := "\x7b\"root_lexicon\":\"NounRoot\",\"morph_features\":[\"Number\"]," ++
      "\"regular_lexc_file\":\"nouns.lexc\"\x7d"
    let vta := "Paradigm,Class,Lemma,Stem,Order,Form1Surface,Form1Split\n" ++
      "VTA,VTA_C,waabam,waabam,Ind,niwaabamaa,ni<<waabam>>aa\n"
    let disk : Disk := ⟨[], [(["verbs.json"], Bytes.ofText verbs),
      (["nouns.json"], Bytes.ofText nouns), (["VTA.csv"], Bytes.ofText vta)], []⟩
    let o : CommandLine.Build.Options := ⟨[], "", "", [], true, false⟩
    ∃ s s',
      CommandLine.Build.addConfigs o disk .initial ["verbs.json", "nouns.json"] = (s, .ok ()) ∧
      CommandLine.Build.addConfigs o disk .initial ["nouns.json", "verbs.json"] = (s', .ok ()) ∧
      s.roots = ["VerbRoot", "NounRoot"] ∧ s'.outputs.Perm s.outputs ∧
      s'.alphabet = s.alphabet := by
  intro verbs nouns vta disk o
  have hrun :
      (CommandLine.Build.addConfigs o disk .initial ["verbs.json", "nouns.json"]).2 = .ok () ∧
      (CommandLine.Build.addConfigs o disk .initial ["verbs.json", "nouns.json"]).1.roots =
        ["VerbRoot", "NounRoot"] := by
    decide +kernel
  generalize hs : CommandLine.Build.addConfigs o disk .initial ["verbs.json", "nouns.json"] = q
    at hrun
  obtain ⟨s, r⟩ := q
  obtain ⟨hok, hroots⟩ := hrun
  dsimp only at hok hroots
  subst hok
  have hperm : ["verbs.json", "nouns.json"].Perm ["nouns.json", "verbs.json"] :=
    .swap "nouns.json" "verbs.json" []
  obtain ⟨s', hs', houtputs, halphabet, -, -⟩ :=
    configurations_independent.2 o disk _ _ s hperm hs
  exact ⟨s, s', rfl, hs', hroots, houtputs, halphabet⟩

end Morphotactics
