import QueryExpr.Proofs.Grading

/-!
# QueryExpr.Proofs.Muting

The two ways of looking at a value, and what evaluation yields with scoring on.

* `Expr.rank?_muted`   — to leave out scores takes the scores off a value, and nothing else.
* `Expr.rank?_hidden`  — where no source is, it makes no difference.
* `Expr.rank?_of_eval` — what evaluation by a steady host yields is the value with its scores.
-/

namespace QueryExpr

section
variable {checks : Checks} {L : Library} {D : Declarations} {S : Scorers}
  {R : Connective → Expr → Expr → Prop} {m : Bool}
  {k : Connective} {p : Place} {c : Context} {e : Expr}

/-! ## Leaving out scores -/

/-- What decides a connective once decides it for good. -/
theorem tally?_absorbing {es : List Expr} {a : Truth} (ha : a.value = k.absorbing)
    {o : Option Truth} (ho : tally? L m k es a c = some o) :
    (k.outcome o).value = k.absorbing := by
  induction es generalizing a with
  | nil =>
    rw [tally?, Option.some.injEq] at ho
    rw [← ho]
    exact ha
  | cons e es ih =>
    rw [tally?_cons] at ho
    obtain ⟨b, _, ho⟩ := Option.bind_eq_some_iff.mp ho
    cases hadd : k.add? a b with
    | none => rw [hadd] at ho; cases ho; rfl
    | some a' =>
      rw [hadd] at ho
      refine ih ?_ ho
      rw [Connective.add?_value hadd, ha, ite_self]

/-- Without scores, operands decide the same. -/
theorem tally?_muted {es : List Expr}
    (h : ∀ e ∈ es, ∀ v, e.rank? L false c = some v → e.rank? L true c = some v.bare) {a : Truth}
    (ha : a.value = !k.absorbing) {o : Option Truth} (ho : tally? L false k es a c = some o) :
    tally? L true k es k.start c =
      some (if (k.outcome o).value = k.absorbing then none else some k.start) := by
  have hne : ¬ (!k.absorbing) = k.absorbing := by cases k <;> decide
  induction es generalizing a with
  | nil =>
    rw [tally?, Option.some.injEq] at ho
    rw [tally?, ← ho, Connective.outcome, Option.getD_some, ha, if_neg hne]
  | cons e es ih =>
    obtain ⟨he, hes⟩ := List.forall_mem_cons.mp h
    rw [tally?_cons] at ho
    obtain ⟨b, hb, ho⟩ := Option.bind_eq_some_iff.mp ho
    obtain ⟨v, hv, hb⟩ := Option.bind_eq_some_iff.mp hb
    rw [tally?_cons, Expr.grade?, he v hv, Option.bind_some, Value.grade?_bare, hb, Option.map_some,
      Option.bind_some, Connective.add?_plain k.start_proper.1]
    by_cases hk : b.value = k.absorbing
    · have habs : (k.outcome o).value = k.absorbing := by
        cases hadd : k.add? a b with
        | none => rw [hadd] at ho; cases ho; rfl
        | some a' =>
          rw [hadd] at ho
          exact tally?_absorbing (by rw [Connective.add?_value hadd, if_pos hk]) ho
      rw [if_pos hk, if_pos habs]
      rfl
    · obtain ⟨a', hadd⟩ := Connective.add?_undecided (a := a) hk
      rw [hadd] at ho
      rw [if_neg hk]
      exact ih hes (by rw [Connective.add?_value hadd, if_neg hk, ha]) ho

theorem caseRank?_muted {i : Option Item} {o o' : Option Value} {cs : List (Expr × Expr)}
    (ho : ∀ v, o = some v → o' = some v.bare)
    (h : ∀ p ∈ cs, ∀ v, p.2.rank? L false c = some v → p.2.rank? L true c = some v.bare)
    {v : Value} (hv : caseRank? L false i o cs c = some v) :
    caseRank? L true i o' cs c = some v.bare := by
  induction cs with
  | nil => exact ho v hv
  | cons p cs ih =>
    obtain ⟨hp, h⟩ := List.forall_mem_cons.mp h
    rw [caseRank?] at hv ⊢
    obtain ⟨j, hj, hv⟩ := Option.bind_eq_some_iff.mp hv
    rw [hj, Option.bind_some]
    split at hv
    · rename_i hm; rw [if_pos hm]; exact hp v hv
    · rename_i hm; rw [if_neg hm]; exact ih h hv

theorem typeCaseRank?_muted {v : Value} {cs : List (CaseHead × Expr)}
    (h : ∀ p ∈ cs, ∀ w, p.2.rank? L false (p.1.bind v c) = some w →
      p.2.rank? L true (p.1.bind v c) = some w.bare)
    {w : Value} (hw : typeCaseRank? L false v cs c = some w) :
    typeCaseRank? L true v cs c = some w.bare := by
  induction cs with
  | nil => cases hw
  | cons p cs ih =>
    obtain ⟨hp, h⟩ := List.forall_mem_cons.mp h
    rw [typeCaseRank?] at hw ⊢
    split at hw
    · rename_i hm; rw [if_pos hm]; exact hp w hw
    · rename_i hm; rw [if_neg hm]; exact ih h hw

/-- To leave out scores takes the scores off the value, and nothing else. -/
theorem Expr.rank?_muted {v : Value} (hv : e.rank? L false c = some v) :
    e.rank? L true c = some v.bare := by
  induction e generalizing c v with
  | connective k es span ih =>
    rw [rank?_connective] at hv ⊢
    obtain ⟨o, ho, rfl⟩ := Option.map_eq_some_iff.mp hv
    rw [tally?_muted (fun e he v hv => ih e he hv) rfl ho, Option.map_some, Value.bare_ofTruth]
    have hout (x : Bool) :
        k.outcome (if x = k.absorbing then none else some k.start) = .plain x := by
      cases k <;> cases x <;> rfl
    rw [hout]
    rfl
  | switch e cs d span _ ihcs ihd =>
    rw [Expr.rank?] at hv ⊢
    obtain ⟨w, hw, hv⟩ := Option.bind_eq_some_iff.mp hv
    obtain ⟨i, hi, hv⟩ := Option.bind_eq_some_iff.mp hv
    rw [hw, Option.bind_some, hi, Option.bind_some]
    exact caseRank?_muted (fun v hv => ihd hv) (fun p hp v hv => (ihcs p hp).2 hv) hv
  | typeswitch e cs span _ ihcs =>
    rw [Expr.rank?] at hv ⊢
    obtain ⟨w, hw, hv⟩ := Option.bind_eq_some_iff.mp hv
    rw [hw, Option.bind_some]
    exact typeCaseRank?_muted (fun p hp w hw => ihcs p hp hw) hv
  | cast e t span _ =>
    rw [Expr.rank?] at hv ⊢
    obtain ⟨w, -, hv'⟩ := Option.bind_eq_some_iff.mp hv
    rw [hv, (Value.cast_unscored (toOption_eq_some_iff.mp hv')).bare]
  | call fn e span ih =>
    cases fn with
    | boolean =>
      rw [rank?_boolean] at hv ⊢
      obtain ⟨b, hb, rfl⟩ := Option.map_eq_some_iff.mp hv
      obtain ⟨w, hw, hb⟩ := Option.bind_eq_some_iff.mp hb
      rw [Expr.grade?, ih hw, Option.bind_some, Value.grade?_bare, hb]
      rfl
    | not =>
      obtain ⟨b, rfl⟩ := Answers.rank?_ofBool hv trivial
      exact Answers.rank?_mute hv trivial true
  | compare | range | position =>
    obtain ⟨b, rfl⟩ := Answers.rank?_ofBool hv trivial
    exact Answers.rank?_mute hv trivial true
  | literal w => cases hv; rfl
  | var x span =>
    rw [Expr.rank?] at hv ⊢
    obtain ⟨w, hw, rfl⟩ := Option.map_eq_some_iff.mp hv
    rw [hw]
    rfl
  | external fn es tail span _ =>
    rw [Expr.rank?] at hv ⊢
    obtain ⟨w, hw, rfl⟩ := Option.map_eq_some_iff.mp hv
    rw [hw]
    rfl
  | failing t type span => cases hv

/-! ## Hidden expressions -/

theorem tally?_congr {m' : Bool} {es : List Expr}
    (h : ∀ e ∈ es, e.rank? L m c = e.rank? L m' c) (a : Truth) :
    tally? L m k es a c = tally? L m' k es a c := by
  induction es generalizing a with
  | nil => rw [tally?, tally?]
  | cons e es ih =>
    obtain ⟨he, h⟩ := List.forall_mem_cons.mp h
    rw [tally?, tally?, he]
    congr 1
    funext b
    cases k.add? a b with
    | none => rfl
    | some a' => exact ih h a'

theorem caseRank?_congr {m' : Bool} {i : Option Item} {o o' : Option Value}
    {cs : List (Expr × Expr)} (ho : o = o')
    (h : ∀ p ∈ cs, p.2.rank? L m c = p.2.rank? L m' c) :
    caseRank? L m i o cs c = caseRank? L m' i o' cs c := by
  induction cs with
  | nil => exact ho
  | cons p cs ih =>
    obtain ⟨hp, h⟩ := List.forall_mem_cons.mp h
    rw [caseRank?, caseRank?, hp, ih h]

theorem typeCaseRank?_congr {m' : Bool} {v : Value} {cs : List (CaseHead × Expr)}
    (h : ∀ p ∈ cs, p.1.admits v = true →
      p.2.rank? L m (p.1.bind v c) = p.2.rank? L m' (p.1.bind v c)) :
    typeCaseRank? L m v cs c = typeCaseRank? L m' v cs c := by
  induction cs with
  | nil => rfl
  | cons p cs ih =>
    obtain ⟨hp, h⟩ := List.forall_mem_cons.mp h
    rw [typeCaseRank?, typeCaseRank?, ih h]
    split
    · rename_i hadm; exact hp hadm
    · rfl

/-- Where no source is, scores make no difference. -/
theorem Expr.rank?_hidden (he : e.Over (.graded checks L D S)) (hr : e.Ranked R S .hidden)
    (hc : c.Graded S D) : e.rank? L true c = e.rank? L false c := by
  induction e generalizing c with
  | connective k es span ih =>
    have hes := (Expr.every_connective.mp he).2
    rw [rank?_connective, rank?_connective,
      tally?_congr fun e hm => ih e hm (hes e hm) (hr.part hm) hc]
  | switch e cs d span _ ihcs ihd =>
    obtain ⟨-, -, hcs, hd⟩ := Expr.every_switch.mp he
    rw [Expr.rank?, Expr.rank?]
    congr 1
    funext v
    congr 1
    funext i
    refine caseRank?_congr (ihd hd (hr.part (List.mem_cons_self ..)) hc) fun q hq => ?_
    have hmem : q.2 ∈ (Expr.switch e cs d span).scoreParts :=
      List.mem_cons_of_mem _ (List.mem_map.mpr ⟨q, hq, rfl⟩)
    exact (ihcs q hq).2 (hcs q hq).2 (hr.part hmem) hc
  | typeswitch e cs span _ ihcs =>
    obtain ⟨-, -, hcs⟩ := Expr.every_typeswitch.mp he
    rw [Expr.rank?, Expr.rank?]
    cases hv : e.rank? L false c with
    | none => rfl
    | some v =>
      refine typeCaseRank?_congr fun q hq hadm => ?_
      have hmem : q.2 ∈ (Expr.typeswitch e cs span).scoreParts := List.mem_map.mpr ⟨q, hq, rfl⟩
      exact ihcs q hq (hcs q hq) (hr.part hmem) (hc.bindCase he hr hv hq hadm)
  | call fn e span ih =>
    cases fn with
    | boolean =>
      rw [rank?_boolean, rank?_boolean, Expr.grade?, Expr.grade?,
        ih (Expr.every_call.mp he).2 (hr.part (List.mem_singleton_self e)) hc]
    | not => rw [rank?_not, rank?_not]
  | literal v =>
    have hv : v.Plain := Expr.every_literal.mp he
    rw [Expr.rank?, Expr.rank?, hv.unscored.kept, hv.unscored.kept]
  | var x span =>
    rw [Expr.rank?, Expr.rank?]
    cases hw : c.lookup x.id with
    | none => rfl
    | some w =>
      have hx : ¬ S.var x.id := by cases hr with | var hx => exact hx rfl
      have hwu := hc.unscored _ _ hw hx
      rw [Option.map_some, Option.map_some, hwu.kept, hwu.kept]
  | external fn es tail span _ =>
    rw [Expr.rank?, Expr.rank?]
    cases hw : (argRanks? L es c).bind (L fn.name) with
    | none => rfl
    | some w =>
      obtain ⟨vs, -, hvs⟩ := Option.bind_eq_some_iff.mp hw
      have hf : ¬ S.fn fn.name := by cases hr with | external hf _ => exact hf rfl
      have hwu := ((Expr.every_external.mp he).1.2 vs w hvs).2.2 hf
      rw [Option.map_some, Option.map_some, hwu.kept, hwu.kept]
  | _ => rw [Expr.rank?, Expr.rank?]

/-! ## Evaluation -/

section
variable {σ : Type} {h : Host σ}

/-- A truth that is asked for is the grade of the value. -/
theorem Expr.grade?_of_ebv {e : Expr}
    (he : ∀ s s' v, e.eval h c s = (.ok v, s') → e.rank? L m c = some v) {s s' : σ} {b : Truth}
    (hb : e.ebv h c s = (.ok b, s')) : e.grade? L m c = some b := by
  obtain ⟨v, hv, hb⟩ := ebv_eq_ok.mp hb
  rw [Expr.grade?, he s s' v hv, Option.bind_some, ← v.ebv_grade e.span, hb]
  rfl

theorem evalAll_ranks (hc : c.scoring = true) {es : List Expr}
    (hes : ∀ e ∈ es, ∀ s s' v, e.eval h c s = (.ok v, s') → e.rank? L false c = some v)
    (hproper : ∀ e ∈ es, ∀ b, e.grade? L false c = some b → b.Proper) {score : Score}
    (hs : score.Proper) {s s' : σ} {v : Value} (hv : evalAll h es c score s = (.ok v, s')) :
    (tally? L false .conjunction es ⟨true, score⟩ c).map
      (fun o => .ofTruth (Connective.outcome .conjunction o)) = some v := by
  induction es generalizing score s with
  | nil =>
    cases hv
    cases hz : score.isZero with
    | true => rw [hs.eq_zero hz]; rfl
    | false => rfl
  | cons e es ih =>
    obtain ⟨he, hes⟩ := List.forall_mem_cons.mp hes
    obtain ⟨hpe, hproper⟩ := List.forall_mem_cons.mp hproper
    rw [evalAll_steps] at hv
    obtain ⟨_, s₁, -, hv⟩ := onward_eq_ok.mp hv
    obtain ⟨b, s₂, hb, hv⟩ := onward_eq_ok.mp hv
    have hg := Expr.grade?_of_ebv he hb
    rw [tally?_cons, hg, Option.bind_some]
    split at hv
    · rename_i hbv
      simp only [Connective.add?, hbv, if_true]
      exact ih hes hproper (hs.both (hpe b hg).1) hv
    · rename_i hbv
      cases hv
      simp only [Connective.add?, hbv]
      rfl

theorem evalAny_ranks (hc : c.scoring = true) {es : List Expr}
    (hes : ∀ e ∈ es, ∀ s s' v, e.eval h c s = (.ok v, s') → e.rank? L false c = some v)
    {score : Option Score} {s s' : σ} {v : Value} (hv : evalAny h es c score s = (.ok v, s')) :
    (tally? L false .disjunction es (score.elim (.plain false) .scored) c).map
      (fun o => .ofTruth (Connective.outcome .disjunction o)) = some v := by
  induction es generalizing score s with
  | nil =>
    cases hv
    cases score <;> rfl
  | cons e es ih =>
    obtain ⟨he, hes⟩ := List.forall_mem_cons.mp hes
    rw [evalAny_steps] at hv
    obtain ⟨_, s₁, -, hv⟩ := onward_eq_ok.mp hv
    obtain ⟨b, s₂, hb, hv⟩ := onward_eq_ok.mp hv
    rw [tally?_cons, Expr.grade?_of_ebv he hb, Option.bind_some]
    split at hv
    · rename_i hbv
      simp only [hc, Bool.not_true, Bool.or_false] at hv
      split at hv
      · rename_i hz
        cases hv
        simp only [Connective.add?, hbv, hz, if_true]
        rfl
      · rename_i hz
        simp only [Connective.add?, hbv, hz, if_true]
        have hscore : (score.elim (Truth.plain false) Truth.scored).score = score.getD .zero := by
          cases score <;> rfl
        rw [hscore]
        exact ih hes hv
    · rename_i hbv
      simp only [Connective.add?, hbv]
      exact ih hes hv

theorem evalArgs_ranks {es : List Expr}
    (hes : ∀ e ∈ es, ∀ s s' v, e.eval h c s = (.ok v, s') → e.rank? L false c = some v)
    {s s' : σ} {vs : List Value} (hvs : evalArgs h es c s = (.ok vs, s')) :
    argRanks? L es c = some vs := by
  induction es generalizing s s' vs with
  | nil => cases hvs; rfl
  | cons e es ih =>
    obtain ⟨he, hes⟩ := List.forall_mem_cons.mp hes
    rw [evalArgs_steps] at hvs
    obtain ⟨_, s₁, -, hvs⟩ := onward_eq_ok.mp hvs
    obtain ⟨w, s₂, hw, hvs⟩ := onward_eq_ok.mp hvs
    obtain ⟨ws, s₃, hws, hvs⟩ := onward_eq_ok.mp hvs
    cases hvs
    rw [argRanks?, he _ _ _ hw, Option.bind_some, ih hes hws, Option.map_some]

theorem evalSwitch_ranks {i : Option Item} {span : Span} {d : Expr} {cs : List (Expr × Expr)}
    (hcs : ∀ p ∈ cs, (∀ s s' v, p.1.eval h c s = (.ok v, s') → p.1.rank? L true c = some v.bare) ∧
      ∀ s s' v, p.2.eval h c s = (.ok v, s') → p.2.rank? L false c = some v)
    (hd : ∀ s s' v, d.eval h c s = (.ok v, s') → d.rank? L false c = some v)
    {s s₀ s' : σ} {o : Option Value} {v : Value} (ho : evalSwitch h i span cs c s = (.ok o, s₀))
    (hv : o.elim (d.eval h c s₀) (fun u => (.ok u, s₀)) = (.ok v, s')) :
    caseRank? L false (i.map Item.bare) (d.rank? L false c) cs c = some v := by
  induction cs generalizing s with
  | nil => cases ho; exact hd _ _ _ hv
  | cons p cs ih =>
    obtain ⟨hp, hcs⟩ := List.forall_mem_cons.mp hcs
    rw [evalSwitch_steps] at ho
    obtain ⟨_, s₁, -, ho⟩ := onward_eq_ok.mp ho
    obtain ⟨w, s₂, hw, ho⟩ := onward_eq_ok.mp ho
    obtain ⟨j, hj, ho⟩ := onward_test_eq_ok.mp ho
    have hj : w.item? = some j := toOption_eq_some (w.single_toOption span) hj
    rw [caseRank?, hp.1 _ _ _ hw, Option.bind_some, Value.item?_bare, hj, Option.map_some,
      Option.bind_some, matchesCase_bare]
    by_cases hm : matchesCase i j = true
    · rw [if_pos hm] at ho ⊢
      obtain ⟨u, s₃, hu, ho⟩ := onward_eq_ok.mp ho
      cases ho
      cases hv
      exact hp.2 _ _ _ hu
    · rw [if_neg hm] at ho ⊢
      exact ih hcs ho

theorem evalTypeswitch_ranks {u : Value} {span : Span} {cs : List (CaseHead × Expr)}
    (hcs : ∀ p ∈ cs, p.1.admits u = true → ∀ s s' v,
      p.2.eval h (p.1.bind u c) s = (.ok v, s') → p.2.rank? L false (p.1.bind u c) = some v)
    {s s' : σ} {v : Value} (hv : evalTypeswitch h u span cs c s = (.ok v, s')) :
    typeCaseRank? L false u cs c = some v := by
  induction cs generalizing s with
  | nil => cases hv
  | cons p cs ih =>
    obtain ⟨hp, hcs⟩ := List.forall_mem_cons.mp hcs
    rw [evalTypeswitch_steps] at hv
    obtain ⟨_, s₁, -, hv⟩ := onward_eq_ok.mp hv
    rw [typeCaseRank?]
    by_cases hadm : p.1.admits u = true
    · rw [if_pos hadm] at hv ⊢
      exact hp hadm _ _ _ hv
    · rw [if_neg hadm] at hv ⊢
      exact ih hcs hv

/-- What evaluation by a steady host yields with scoring on is the value with its scores. -/
theorem Expr.rank?_of_eval (hh : h.Steady L) (he : e.Over (.graded checks L D S))
    (hr : e.Ranked R S p) (hc : c.Graded S D) (hs : c.scoring = true) {s s' : σ} {v : Value}
    (hv : e.eval h c s = (.ok v, s')) : e.rank? L false c = some v := by
  induction e generalizing p c s s' v with
  | connective k es span ih =>
    have hes := (Expr.every_connective.mp he).2
    have hvalue (e : Expr) (hm : e ∈ es) (s s' : σ) (v : Value)
        (hv : e.eval h c s = (.ok v, s')) : e.rank? L false c = some v :=
      ih e hm (hes e hm) (hr.part hm) hc hs hv
    rw [rank?_connective]
    cases k with
    | conjunction =>
      refine evalAll_ranks hs hvalue (fun e hm b hb => ?_) Score.proper_zero hv
      obtain ⟨w, hw, hb⟩ := Option.bind_eq_some_iff.mp hb
      exact (rank?_proper (hes e hm) hc.proper hw).grade? hb
    | disjunction => exact evalAny_ranks hs hvalue hv
  | switch e cs d span ihe ihcs ihd =>
    obtain ⟨-, he', hcs, hd⟩ := Expr.every_switch.mp he
    cases hr with
    | switch hre hrv hrr hrd =>
      obtain ⟨w, i, s₁, o, s₂, hw, hi, ho, hv⟩ := Expr.eval_eq_ok.mp hv
      have hi : w.item? = some i := toOption_eq_some (w.single_toOption span) hi
      rw [Expr.rank?, rank?_muted (ihe he' hre hc hs hw), Option.bind_some, Value.item?_bare, hi,
        Option.map_some, Option.bind_some]
      refine evalSwitch_ranks (fun q hq => ⟨fun s s' v hv => ?_, fun s s' v hv => ?_⟩)
        (fun s s' v hv => ihd hd hrd hc hs hv) ho hv
      · exact rank?_muted ((ihcs q hq).1 (hcs q hq).1 (hrv q hq) hc hs hv)
      · exact (ihcs q hq).2 (hcs q hq).2 (hrr q hq) hc hs hv
  | typeswitch e cs span ihe ihcs =>
    obtain ⟨-, he', hcs⟩ := Expr.every_typeswitch.mp he
    have hre : e.Ranked R S .exposed := by cases hr; assumption
    have hrr : ∀ q ∈ cs, q.2.Ranked R S p := fun q hq => hr.part (List.mem_map.mpr ⟨q, hq, rfl⟩)
    obtain ⟨w, s₁, hw, hv⟩ := Expr.eval_eq_ok.mp hv
    have hwr := ihe he' hre hc hs hw
    rw [Expr.rank?, hwr, Option.bind_some]
    refine evalTypeswitch_ranks (fun q hq hadm s s' v hv => ?_) hv
    have hscoring : (q.1.bind w c).scoring = true :=
      CaseHead.bind_cases (P := fun c => c.scoring = true) hs fun _ _ => hs
    exact ihcs q hq (hcs q hq) (hrr q hq) (hc.bindCase he hr hwr hq hadm) hscoring hv
  | cast e t span ih =>
    have hre : e.Ranked R S (p.cast t) := by cases hr; assumption
    obtain ⟨w, hw, hcast⟩ := Expr.eval_eq_ok.mp hv
    rw [Expr.rank?, rank?_muted (ih (Expr.every_cast.mp he).2 hre hc hs hw), Option.bind_some,
      Value.cast?_bare, ← Value.cast_toOption w t span, hcast]
    rfl
  | call fn e span ih =>
    have hre : ∃ q, e.Ranked R S q := by cases hr <;> exact ⟨_, ‹_›⟩
    obtain ⟨q, hre⟩ := hre
    obtain ⟨b, hb, rfl⟩ := eval_call_eq_ok.mp hv
    obtain ⟨w, hw, hb⟩ := ebv_eq_ok.mp hb
    have hwr := ih (Expr.every_call.mp he).2 hre hc hs hw
    have hg : w.grade? = some b := by rw [← w.ebv_grade e.span, hb]; rfl
    cases fn with
    | boolean => rw [rank?_boolean, Expr.grade?, hwr, Option.bind_some, hg, Option.map_some]
    | not =>
      rw [rank?_not, Expr.grade?, rank?_muted hwr, Option.bind_some, Value.grade?_bare, hg]
      rfl
  | compare op l r span ihl ihr =>
    obtain ⟨-, hl, hr'⟩ := Expr.every_compare.mp he
    cases hr with
    | compare hrl hrr =>
      obtain ⟨w, u, s₁, hw, hu, hb⟩ := Expr.eval_eq_ok.mp hv
      rw [Expr.rank?, rank?_muted (ihl hl hrl hc hs hw), Option.bind_some,
        rank?_muted (ihr hr' hrr hc hs hu), Option.bind_some, Value.compare?_bare,
        ← Value.compare_toOption op span, ← Except.toOption_map, hb]
      rfl
  | range b e span ih =>
    have hre : e.Ranked R S .free := by cases hr; assumption
    obtain ⟨w, hw, hb⟩ := Expr.eval_eq_ok.mp hv
    rw [Expr.rank?, rank?_muted (ih (Expr.every_range.mp he).2 hre hc hs hw), Option.bind_some,
      Bounds.test?_bare, ← Bounds.test_toOption b w span, ← Except.toOption_map, hb]
    rfl
  | position a b span =>
    obtain ⟨-, f, hf, rfl⟩ := Expr.eval_eq_ok.mp hv
    rw [Expr.rank?, hf, Option.map_some]
  | literal w => cases hv; rfl
  | var x span => rw [Expr.rank?, (Expr.eval_eq_ok.mp hv).2]; rfl
  | external fn es tail span ih =>
    have hes := (Expr.every_external.mp he).2
    have hre : ∀ e ∈ es, e.Ranked R S .exposed := by cases hr; assumption
    obtain ⟨vs, s₁, hvs, hi⟩ := Expr.eval_eq_ok.mp hv
    have hinv := hh.invoke fn vs ⟨tail, span⟩ s₁
    rw [hi] at hinv
    have hvalue (e : Expr) (hm : e ∈ es) (s s' : σ) (v : Value)
        (hv : e.eval h c s = (.ok v, s')) : e.rank? L false c = some v :=
      ih e hm (hes e hm) (hre e hm) hc hs hv
    rw [Expr.rank?, evalArgs_ranks hvalue hvs, Option.bind_some, ← hinv]
    rfl
  | failing t type span => cases hv

end

end

end QueryExpr
