import Morphotactics.Proofs.Compiling
import Morphotactics.Proofs.Filing

/-!
# Declared before use

Compilations share one alphabet, which is written once, after all of them.  Each
adds what its configuration declares and what its forms use, and nothing is ever
taken out.  So at the end of a run the alphabet has every symbol that an entry of
any of the networks was given: the flags, each with the one that sets or checks
the same value, the boundaries, and the tags.

`Entry.CoveredBy` says for each kind of sublexicon which symbols these are.
-/

namespace Morphotactics

/-! ## Runs on one alphabet -/

/-- What one compilation declares, and the forms that it lays out. -/
structure Batch where
  declared : List String
  forms : List (Layout × Inflection)

/-- The symbols that a batch adds. -/
def Batch.symbols (b : Batch) : List String :=
  b.declared.map escape ++ [Boundary.opening.symbol, Boundary.closing.symbol] ++
    b.forms.flatMap fun f => f.1.symbols f.2

namespace Alphabet

/-- The alphabet after a batch. -/
def addBatch (a : Alphabet) (b : Batch) : Alphabet := (a.declare b.declared).addForms b.forms

/-- The alphabet after batches, one after the other. -/
def addBatches (a : Alphabet) (bs : List Batch) : Alphabet := bs.foldl addBatch a

/-- A declaration adds the escaped symbols and the two boundaries. -/
theorem mem_declare {a : Alphabet} {declared : List String} {x : String} :
    x ∈ a.declare declared ↔ x ∈ a ∨ x ∈ declared.map escape ∨
      x ∈ [Boundary.opening.symbol, Boundary.closing.symbol] := by
  rw [declare, SortedSet.mem_insertAll, SortedSet.mem_insertAll, or_assoc]

/-- **A batch's step.**  Its symbols come in, and none goes. -/
theorem mem_addBatch {a : Alphabet} {b : Batch} {x : String} :
    x ∈ a.addBatch b ↔ x ∈ a ∨ x ∈ b.symbols := by
  rw [addBatch, mem_addForms, mem_declare, Batch.symbols, List.mem_append, List.mem_append,
    List.mem_flatMap, or_assoc]

/-- **A run of batches.** -/
theorem mem_addBatches {a : Alphabet} {bs : List Batch} {x : String} :
    x ∈ a.addBatches bs ↔ x ∈ a ∨ ∃ b ∈ bs, x ∈ b.symbols :=
  foldl_iff_of_step_iff addBatch (x ∈ ·) fun _ _ => mem_addBatch

/-- What chooses a paradigm and what checks it. -/
def HasParadigm (a : Alphabet) (p : String) : Prop :=
  (Flag.setParadigm p).symbol ∈ a ∧ (Flag.requireParadigm p).symbol ∈ a

/-- What sets the identity of a prefix and what checks it. -/
def HasPrefix (a : Alphabet) (pre : String) : Prop :=
  (Flag.setPrefix pre).symbol ∈ a ∧ (Flag.requirePrefix pre).symbol ∈ a

end Alphabet

/-- An alphabet that has the symbols which an entry was given, by the sublexicon
of the entry: for a flag also the one that sets or checks the same value. -/
def Entry.CoveredBy (a : Alphabet) (e : Entry) : Prop :=
  match e.source with
  | .root _ => ∃ p, e.upper = (Flag.setParadigm p).symbol ∧ e.lower = e.upper ∧ a.HasParadigm p
  | .gate _ =>
    ∃ p, e.upper = (Flag.requireParadigm p).symbol ∧ e.lower = e.upper ∧ a.HasParadigm p
  | .prefixes _ =>
    ∃ pre, e.upper = (Flag.setPrefix pre).symbol ∧ e.lower = e.upper ++ pre ∧ a.HasPrefix pre
  | .prefixCheck _ _ =>
    ∃ pre, e.upper = (Flag.requirePrefix pre).symbol ∧ e.lower = e.upper ∧ a.HasPrefix pre
  | .orderCheck k =>
    e.upper = (Flag.unifyOrder k.order).symbol ∧ e.lower = e.upper ∧ e.upper ∈ a
  | .prefixBoundary _ => e.lower = Boundary.opening.symbol ∧ e.lower ∈ a
  | .stemBoundary _ _ => e.lower = Boundary.closing.symbol ∧ e.lower ∈ a
  | .endings _ => ∃ tags, e.upper = String.join tags ∧ ∀ t ∈ tags, t ∈ a
  | .irregular _ =>
    ∃ headword tags, e.upper = headword ++ String.join tags ∧ ∀ t ∈ tags, t ∈ a
  | .stems _ | .external _ | .terminal => True

/-! ## Symbols of a form -/

namespace Layout

variable {a : Alphabet} {l : Layout} {rootName : String} {r : Inflection} {v : Variant}
  {n : Sublexicon} {e : Entry}

/-- The flags that a form is laid out with are among its symbols. -/
theorem symbol_mem_symbols {flag : Flag} (h : flag ∈ l.ownFlags r) :
    flag.symbol ∈ l.symbols r := by
  rw [symbols_eq]
  exact List.mem_append_right _ (List.mem_map_of_mem h)

/-- The tags of a form are among its symbols. -/
theorem tag_mem_symbols {t : String} (h : t ∈ r.tags) : t ∈ l.symbols r := by
  rw [symbols_eq]
  exact List.mem_append_left _ h

/-- An alphabet with the symbols of a form has the flags of its paradigm. -/
theorem hasParadigm_of_symbols (h : ∀ x ∈ l.symbols r, x ∈ a) : a.HasParadigm r.paradigm :=
  ⟨h _ (symbol_mem_symbols (List.mem_append_left _ (by simp))),
    h _ (symbol_mem_symbols (List.mem_append_left _ (by simp)))⟩

/-- **Use of symbols.**  What a variant files is covered by an alphabet that has
the symbols of the form and the boundaries. -/
theorem Files.coveredBy (hsymbols : ∀ x ∈ l.symbols r, x ∈ a)
    (hboundary : ∀ b : Boundary, b.symbol ∈ a) (hv : v ∈ r.variants)
    (h : l.Files rootName r v n e) : e.CoveredBy a := by
  have hparadigm : a.HasParadigm r.paradigm := hasParadigm_of_symbols hsymbols
  have htags : ∀ t ∈ r.tags, t ∈ a := fun t ht => hsymbols t (tag_mem_symbols ht)
  have hvariant : ∀ flag ∈ l.variantFlags r v, flag.symbol ∈ a :=
    fun flag hflag => hsymbols _ (symbol_mem_symbols (mem_ownFlags_of_variant hv hflag))
  have hprefix : l.mode = .regular → a.HasPrefix v.parts.pre := by
    intro hmode
    exact ⟨hvariant _ (by simp [variantFlags, hmode]), hvariant _ (by simp [variantFlags, hmode])⟩
  cases n with
  | root name =>
      obtain ⟨-, rfl⟩ := h
      exact ⟨r.paradigm, rfl, rfl, hparadigm⟩
  | prefixes p =>
      obtain ⟨hmode, -, rfl⟩ := h
      exact ⟨v.parts.pre, rfl, rfl, hprefix hmode⟩
  | prefixBoundary p =>
      obtain ⟨-, -, rfl⟩ := h
      exact ⟨rfl, hboundary .opening⟩
  | gate pos =>
      obtain ⟨-, -, rfl⟩ := h
      exact ⟨r.paradigm, rfl, rfl, hparadigm⟩
  | stems p =>
      obtain ⟨-, -, rfl⟩ := h
      exact trivial
  | stemBoundary p c =>
      obtain ⟨-, -, -, rfl⟩ := h
      exact ⟨rfl, hboundary .closing⟩
  | prefixCheck p c =>
      obtain ⟨hmode, -, -, rfl⟩ := h
      exact ⟨v.parts.pre, rfl, rfl, hprefix hmode⟩
  | orderCheck k =>
      obtain ⟨hmode, rfl, rfl⟩ := h
      exact ⟨rfl, rfl, hvariant _ (by simp [variantFlags, hmode, endingKey])⟩
  | endings k =>
      obtain ⟨-, -, rfl⟩ := h
      exact ⟨r.tags, rfl, htags⟩
  | irregular p =>
      obtain ⟨-, -, rfl⟩ := h
      exact ⟨r.headword, r.tags, rfl, htags⟩
  | external name => exact h.elim
  | terminal => exact h.elim

end Layout

/-! ## Alphabets at the end of a run -/

/-- An alphabet that has all symbols of a batch has the boundaries. -/
theorem Batch.boundary_mem_symbols (b : Batch) (boundary : Boundary) :
    boundary.symbol ∈ b.symbols := by
  refine List.mem_append_left _ (List.mem_append_right _ ?_)
  cases boundary <;> simp

/-- The symbols of a form are among those of its batch. -/
theorem Batch.mem_symbols_of_form {b : Batch} {f : Layout × Inflection} (hf : f ∈ b.forms)
    {x : String} (hx : x ∈ f.1.symbols f.2) : x ∈ b.symbols :=
  List.mem_append_right _ (List.mem_flatMap.mpr ⟨f, hf, hx⟩)

/-- The network of a batch is covered by every alphabet that has the symbols of
the batch. -/
theorem Batch.coveredBy {b : Batch} {a : Alphabet} (h : ∀ x ∈ b.symbols, x ∈ a)
    {rootName : String} {e : Entry} (he : e ∈ (Network.ofForms rootName b.forms).entries) :
    e.CoveredBy a := by
  obtain ⟨f, hf, v, hv, hfiles⟩ := Network.mem_entries_iff_files.mp he
  exact hfiles.coveredBy (fun x hx => h x (mem_symbols_of_form hf hx))
    (fun boundary => h _ (b.boundary_mem_symbols boundary)) hv

/-- A compilation that is asked for. -/
structure Job where
  sources : Sources
  config : Config
  mode : Mode

/-- Compiles what is asked for. -/
def Job.compile (j : Job) (a : Alphabet) : Compilation :=
  Morphotactics.compile j.sources j.config j.mode a

/-- What a compilation declares and lays out. -/
def Job.batch (j : Job) : Batch := ⟨j.config.declared, j.sources.laidOut j.config j.mode⟩

/-- The alphabet after compilations that share it, one after the other. -/
def Alphabet.afterJobs (a : Alphabet) (js : List Job) : Alphabet :=
  js.foldl (fun a j => (j.compile a).alphabet) a

/-- A run of compilations is a run of batches. -/
theorem Alphabet.afterJobs_eq_addBatches (a : Alphabet) (js : List Job) :
    a.afterJobs js = a.addBatches (js.map Job.batch) := by
  rw [addBatches, List.foldl_map, afterJobs]
  have hstep : ∀ (a : Alphabet) (j : Job), (j.compile a).alphabet = a.addBatch j.batch :=
    fun a j => alphabet_compile j.sources j.config j.mode a
  simp only [hstep]

/-- What was compiled is covered by every alphabet that has the symbols of its
batch: words from a dictionary need none. -/
theorem Job.coveredBy {j : Job} {a final : Alphabet} {compiled : Compiled}
    (hcompiled : (j.compile a).outcome = .ok compiled) (h : ∀ x ∈ j.batch.symbols, x ∈ final)
    {e : Entry} (he : e ∈ compiled.network.entries) : e.CoveredBy final := by
  obtain ⟨es, hnetwork, htakes⟩ := network_compile hcompiled
  rw [hnetwork, Network.mem_entries_insertAll] at he
  rcases he with hform | hstem
  · exact Batch.coveredBy h hform
  · obtain ⟨p, c, hsource, -⟩ := htakes e hstem
    rw [Entry.CoveredBy, hsource]
    exact trivial

/-- **Declared before use.**  Batches are added to one alphabet.  At the end of
the run it has, for every chain that was laid out on the way, the flag that leads
into the chain and the one that checks it, all tags of the form, both boundaries,
and the symbols of every entry of the chain.  For a run of compilations it covers
every entry of every network that was compiled on the way. -/
theorem declared_before_use (a : Alphabet) :
    (∀ bs : List Batch, ∀ b ∈ bs, ∀ f ∈ b.forms, ∀ c ∈ f.1.chains f.2,
      let final := a.addBatches bs
      c.flag = Flag.setParadigm f.2.paradigm ∧ final.HasParadigm f.2.paradigm ∧
        (∀ t ∈ f.2.tags, t ∈ final) ∧ (∀ boundary : Boundary, boundary.symbol ∈ final) ∧
        ∀ e ∈ c.entries, e.CoveredBy final) ∧
      ∀ (before after : List Job) (j : Job) (compiled : Compiled),
        (j.compile (a.afterJobs before)).outcome = .ok compiled →
          ∀ e ∈ compiled.network.entries, e.CoveredBy (a.afterJobs (before ++ j :: after)) := by
  have hbatch : ∀ {bs : List Batch} {b : Batch}, b ∈ bs → ∀ x ∈ b.symbols, x ∈ a.addBatches bs :=
    fun hb x hx => Alphabet.mem_addBatches.mpr (Or.inr ⟨_, hb, hx⟩)
  constructor
  · intro bs b hb f hf c hc final
    have hsymbols : ∀ x ∈ f.1.symbols f.2, x ∈ final :=
      fun x hx => hbatch hb x (Batch.mem_symbols_of_form hf hx)
    have hboundary : ∀ boundary : Boundary, boundary.symbol ∈ final :=
      fun boundary => hbatch hb _ (b.boundary_mem_symbols boundary)
    obtain ⟨v, hv, rfl⟩ := List.mem_map.mp hc
    have hflag : (f.1.chain f.2 v).flag = Flag.setParadigm f.2.paradigm := by
      rw [Layout.chain]
      cases f.1.mode <;> rfl
    refine ⟨hflag, Layout.hasParadigm_of_symbols hsymbols,
      fun t ht => hsymbols t (Layout.tag_mem_symbols ht), hboundary, fun e he => ?_⟩
    -- under whatever root, the chain is filed as it is
    have hfiles : f.1.Files "" f.2 v e.source e :=
      Layout.files_of_mem_chainEntries (List.mem_cons_of_mem _ he)
    exact hfiles.coveredBy hsymbols hboundary hv
  · intro before after j compiled hcompiled e he
    rw [Alphabet.afterJobs_eq_addBatches]
    have hj : j.batch ∈ (before ++ j :: after).map Job.batch :=
      List.mem_map_of_mem (List.mem_append_right _ List.mem_cons_self)
    exact Job.coveredBy hcompiled (hbatch hj) he

/-- A verb is laid out by hand in one batch, and another one is compiled from a
table after a configuration without tables. -/
theorem declared_before_use_of_verbs :
    let l : Layout := ⟨.regular, some ⟨"Verb", none⟩, .standard⟩
    let v : Variant := ⟨"niaaba'waa", ⟨"ni", "aaba'w", "aa"⟩⟩
    let r : Inflection := ⟨"VTA", "VTA_C", "aaba'", "aaba'w", ["+VTA", "+Ind"], [v]⟩
    let bs : List Batch := [⟨["+Extra"], [(l, r)]⟩, ⟨[], []⟩]
    let table := "Paradigm,Class,Lemma,Stem,Order,Form1Surface,Form1Split\n" ++
      "VTA,VTA_C,waabam,waabam,Ind,niwaabamaa,ni<<waabam>>aa\n"
    let s : Sources := ⟨⟨[], [(["VTA.csv"], Bytes.ofText table)], []⟩, "", none⟩
    let c : Config := ⟨"VerbRoot", "", ["VTA"], [], ["Order"], "NONE", "MISSING", [], none, none,
      none, none, "verbs.lexc", none, 3, .standard⟩
    let bare : Job := ⟨s, { c with regularTables := [] }, .regular⟩
    let j : Job := ⟨s, c, .regular⟩
    let final := Alphabet.afterJobs SortedSet.empty [bare, j]
    (∀ e ∈ (l.chain r v).entries, e.CoveredBy (Alphabet.addBatches SortedSet.empty bs)) ∧
      ∃ compiled, (j.compile (Alphabet.afterJobs SortedSet.empty [bare])).outcome = .ok compiled ∧
        compiled.network.entryCount = 8 ∧ ∀ e ∈ compiled.network.entries, e.CoveredBy final := by
  intro l v r bs table s c bare j final
  constructor
  · have hchain := (declared_before_use SortedSet.empty).1 bs _ List.mem_cons_self (l, r)
      List.mem_cons_self (l.chain r v) List.mem_cons_self
    exact hchain.2.2.2.2
  · have hcount : (match (j.compile (Alphabet.afterJobs SortedSet.empty [bare])).outcome with
        | .ok compiled => compiled.network.entryCount
        | .error _ => 0) = 8 := by decide +kernel
    cases hout : (j.compile (Alphabet.afterJobs SortedSet.empty [bare])).outcome with
    | error e =>
        rw [hout] at hcount
        cases hcount
    | ok compiled =>
        rw [hout] at hcount
        have hcovered := (declared_before_use SortedSet.empty).2 [bare] [] j compiled hout
        exact ⟨compiled, rfl, hcount, hcovered⟩

end Morphotactics
