import Morphotactics.Builder

/-!
# What building leaves

Building a form gives chains, and leaves the alphabet with more symbols.  `Layout.run_build` is the
one equation that says both: the chains are those that the layout describes, whatever the alphabet
had before, and the alphabet has the symbols of the form besides.  All that is proved about
compilations goes by this equation.
-/

namespace Morphotactics

namespace Alphabet

/-- Adding flags and then others is adding all of them. -/
theorem addFlags_append (a : Alphabet) (fs gs : List Flag) :
    a.addFlags (fs ++ gs) = (a.addFlags fs).addFlags gs := by
  rw [addFlags, List.map_append]
  exact List.foldl_append

/-- The flags of a prefix are the two for its identity, and both are in the alphabet. -/
theorem run_prefixFlags (pre : String) (a : Alphabet) :
    (prefixFlags pre).run a =
      (⟨Flag.setPrefix pre, Flag.requirePrefix pre⟩,
        a.addFlags [Flag.setPrefix pre, Flag.requirePrefix pre]) :=
  rfl

/-- The flags of a paradigm are the two for its name, and both are in the alphabet. -/
theorem run_paradigmFlags (p : String) (a : Alphabet) :
    (paradigmFlags p).run a =
      (⟨Flag.setParadigm p, Flag.requireParadigm p⟩,
        a.addFlags [Flag.setParadigm p, Flag.requireParadigm p]) :=
  rfl

/-- The flag of a clause order is the one that unifies with it, and it is in the alphabet. -/
theorem run_orderFlag (orderTags : OrderTags) (tags : List String) (a : Alphabet) :
    (orderFlag orderTags tags).run a =
      ((orderTags.orderOf tags, Flag.unifyOrder (orderTags.orderOf tags)),
        a.addFlags [Flag.unifyOrder (orderTags.orderOf tags)]) :=
  rfl

/-- **A run over a list.**  Where each step adds flags that do not depend on the alphabet, and gives
what does not depend on it, so does the run. -/
theorem run_mapM {α β : Type} {step : α → StateM Alphabet β} {result : α → β}
    {flags : α → List Flag}
    (hstep : ∀ x a, (step x).run a = (result x, a.addFlags (flags x))) (xs : List α)
    (a : Alphabet) :
    (xs.mapM step).run a = (xs.map result, a.addFlags (xs.flatMap flags)) := by
  induction xs generalizing a with
  | nil => rfl
  | cons x xs ih =>
      rw [List.mapM_cons, StateT.run_bind, hstep, List.flatMap_cons, addFlags_append]
      exact congrArg (fun p : Id (List β × Alphabet) => (result x :: p.1, p.2))
        (ih (a.addFlags (flags x)))

end Alphabet

namespace Layout

variable (l : Layout) (r : Inflection)

/-- The entries of a variant are those of its chain, and its flags are in the alphabet. -/
theorem run_variantEntries (v : Variant) (a : Alphabet) :
    (l.variantEntries r v (Flag.requireParadigm r.paradigm)).run a =
      (((l.chain r v).first, (l.chain r v).rest), a.addFlags (l.variantFlags r v)) := by
  obtain ⟨mode, slot, orderTags⟩ := l
  cases mode with
  | irregular => rfl
  | regular =>
      rw [variantEntries, regularEntries, StateT.run_bind, Alphabet.run_prefixFlags]
      -- in `Id` what is bound is handed on
      change StateT.run (_ >>= _) _ = _
      rw [StateT.run_bind, Alphabet.run_orderFlag]
      rcases slot with _ | ⟨pos, _ | name⟩ <;> rfl

/-- What is built for a variant is its chain, and its flags are in the alphabet. -/
theorem run_variantChain (v : Variant) (a : Alphabet) :
    (l.variantChain r ⟨Flag.setParadigm r.paradigm, Flag.requireParadigm r.paradigm⟩ v).run a =
      (l.chain r v, a.addFlags (l.variantFlags r v)) := by
  have hflag : (l.chain r v).flag = Flag.setParadigm r.paradigm := by
    unfold chain
    split <;> rfl
  rw [variantChain, StateT.run_bind, run_variantEntries, ← hflag]
  rfl

/-- **Building a form.**  The chains are those of its layout, and do not depend on the alphabet; the
alphabet then has the symbols of the form. -/
theorem run_build (a : Alphabet) : (l.build r).run a = (l.chains r, a.addForm l r) := by
  have hsymbols : a.addForm l r = Alphabet.addFlags
      (Alphabet.addFlags (a.insertAll r.tags)
        [Flag.setParadigm r.paradigm, Flag.requireParadigm r.paradigm])
      (r.variants.flatMap (l.variantFlags r)) := by
    rw [Alphabet.addForm, symbols, SortedSet.insertAll, List.foldl_append, List.foldl_append]
    rfl
  rw [build, StateT.run_bind, hsymbols]
  change StateT.run (_ >>= _) _ = _
  rw [StateT.run_bind, Alphabet.run_paradigmFlags]
  exact Alphabet.run_mapM (l.run_variantChain r) r.variants _

end Layout

end Morphotactics
