import QueryExpr.Proofs.Fixed
import QueryExpr.Proofs.Runs

/-!
# QueryExpr.Proofs.Landing

All rounds of the optimiser of connectives: if the operands are evaluated without an error, the
optimiser does not fail, and what it leaves behind is evaluated to the truth and the state that they
come to.

* `Connective.Mixed`    — operands among which there is something else than negations. No round
  changes that, and so none of them factors out negations.
* `Connective.Lossless` — negations are factored out only where there are no scores to lose.
* `connectiveStep_run`  — a round keeps the run of the operands, or lands.
* `rounds_run`          — so, by induction, do all rounds.
-/

namespace QueryExpr

section
variable {σ : Type} {h : Host σ} {chance : String → Bool} {L : Library} {S : Score → Prop}
  {c : Context} {k : Connective} {span : Span}

/-! ## Mixed operands -/

/-- Operands that are not all negations, and of which a literal decides. -/
structure Connective.Mixed (k : Connective) (es : List Expr) : Prop where
  literal : ∀ v, Expr.literal v ∈ es → Expr.literal v = .ofBool k.absorbing
  mixed : ∃ e ∈ es, e.kind ≠ .negation

/-- Below a compiled operand, a literal decides. -/
theorem flattened_literal {e : Expr} (he : e.Settled) :
    ∀ v, Expr.literal v ∈ e.flattened k →
      Expr.literal v = .ofBool k.absorbing ∨ e = .literal v := by
  revert he
  refine flattened_induction (motive := fun e gs => e.Settled →
    ∀ v, Expr.literal v ∈ gs → Expr.literal v = .ofBool k.absorbing ∨ e = .literal v) ?_ ?_ ?_ e
  · intro arg s ih hs v hv
    obtain ⟨⟨hl, -, -⟩, harg⟩ := Expr.every_call.mp hs
    refine .inl ((ih harg v hv).resolve_right fun heq => ?_)
    rw [heq] at hl
    cases hl
  · intro es s ih hs v hv
    obtain ⟨hnormal, hes⟩ := Expr.every_connective.mp hs
    obtain ⟨d, hd, hv⟩ := List.mem_flatMap.mp hv
    rcases ih d hd (hes d hd) v hv with hb | rfl
    · exact .inl hb
    · obtain ⟨ds, fs, heq⟩ := List.append_of_mem hd
      exact .inl (hnormal.literal_last ds v fs heq).2.2
  · intro e _ _ _ v hv
    exact .inr (List.mem_singleton.mp hv).symm

/-- A compiled operand that is no negation has a part that is none. -/
theorem flattened_mixed {e : Expr} (he : e.Settled) (hk : e.kind ≠ .negation) :
    ∃ d ∈ e.flattened k, d.kind ≠ .negation := by
  revert he hk
  refine flattened_induction (motive := fun e gs => e.Settled → e.kind ≠ .negation →
    ∃ d ∈ gs, d.kind ≠ .negation) ?_ ?_ ?_ e
  · intro arg s ih hs _
    obtain ⟨⟨-, -, ht⟩, harg⟩ := Expr.every_call.mp hs
    refine ih harg fun hneg => ht ?_
    obtain ⟨a, span, rfl⟩ := Expr.kind_eq_negation.mp hneg
    rfl
  · intro es s ih hs _
    obtain ⟨hnormal, hes⟩ := Expr.every_connective.mp hs
    obtain ⟨d, hd, hk⟩ := hnormal.mixed
    obtain ⟨d', hd', hk'⟩ := ih d hd (hes d hd) hk
    exact ⟨d', List.mem_flatMap.mpr ⟨d, hd, hd'⟩, hk'⟩
  · intro e _ _ _ hk
    exact ⟨e, List.mem_singleton_self e, hk⟩

/-- Whatever is dropped as a repetition is equal to something that is left. -/
theorem dropDuplicates_covers (seen es : List Expr) :
    ∀ e ∈ es, ∃ d ∈ seen ++ (dropDuplicates k seen es).value, e = d ∨ e.same d = true := by
  induction es generalizing seen with
  | nil => simp
  | cons e es ih =>
    simp only [dropDuplicates]
    split
    · rename_i hdup
      simp only [Bool.and_eq_true, Bool.not_eq_true', List.any_eq_true] at hdup
      obtain ⟨-, d, hd, hsame⟩ := hdup
      exact List.forall_mem_cons.mpr ⟨⟨d, List.mem_append_left _ hd, .inr hsame⟩, ih seen⟩
    · refine List.forall_mem_cons.mpr ⟨⟨e, by simp, .inl rfl⟩, fun d hd => ?_⟩
      obtain ⟨d', hd', heq⟩ := ih (seen ++ [e]) d hd
      exact ⟨d', by simpa using hd', heq⟩

theorem merge?_kind {d e : Expr} {m : Noted Expr} (hm : d.merge? k e = some m) :
    m.value.kind ≠ .negation := by
  rcases merge?_cases hm with ⟨_, _, _, _, _, _, _, _, -, -, -, -, -, hm⟩ |
    ⟨_, _, _, _, _, _, -, -, -, -, -, -, hm⟩ | ⟨_, _, _, _, _, _, -, -, -, -, -, hm⟩
  · rw [hm]; split <;> simp [Expr.ofBool, Expr.kind]
  · rw [hm]; split <;> simp [Expr.ofBool, Expr.kind]
  · rw [hm]; simp [Expr.kind]

theorem merge?_literal {d e : Expr} {m : Noted Expr} (hm : d.merge? k e = some m) {v : Value}
    (hv : m.value = .literal v) : Expr.literal v = .ofBool k.absorbing := by
  rcases merge?_cases hm with ⟨_, _, _, _, _, _, _, _, rfl, -, -, -, -, hm⟩ |
    ⟨_, _, _, _, _, _, rfl, -, -, -, -, -, hm⟩ | ⟨_, _, _, _, _, _, rfl, -, -, -, -, hm⟩
  · rw [hm] at hv
    split at hv
    · exact hv.symm
    · cases hv
  · rw [hm] at hv
    split at hv
    · exact hv.symm
    · cases hv
  · rw [hm] at hv
    cases hv

/-- If every literal decides, so does every literal that is left of repetitions and neighbours. -/
theorem combined_literal {es : List Expr}
    (hes : ∀ v, Expr.literal v ∈ es → Expr.literal v = .ofBool k.absorbing) :
    ∀ v, Expr.literal v ∈ (mergeAdjacent k (dropDuplicates k [] es).value).value →
      Expr.literal v = .ofBool k.absorbing := by
  have hsub := dropDuplicates_sublist (c := k) [] es
  cases hu : (dropDuplicates k [] es).value with
  | nil => intro v hv; cases hv
  | cons u us =>
    rw [hu] at hsub
    have hlit : ∀ e ∈ u :: us, ∀ v, e = .literal v → Expr.literal v = .ofBool k.absorbing := by
      rintro e he v rfl
      exact hes v (hsub.subset he)
    obtain ⟨hlu, hlus⟩ := List.forall_mem_cons.mp hlit
    intro v hv
    exact mergeOnto_forall_mem (fun _ _ hmerge _ hv => merge?_literal hmerge hv) hlu hlus _ hv v rfl

theorem mergeOnto_mixed {d : Expr} {es : List Expr} (hm : ∃ e ∈ d :: es, e.kind ≠ .negation) :
    ∃ e ∈ (mergeOnto k d es).value, e.kind ≠ .negation := by
  induction es generalizing d with
  | nil => exact hm
  | cons e es ih =>
    simp only [mergeOnto]
    split
    · rename_i m hmerge
      exact ih ⟨m.value, List.mem_cons_self .., merge?_kind hmerge⟩
    · obtain ⟨d', hd', hk⟩ := hm
      rcases List.mem_cons.mp hd' with rfl | hd'
      · exact ⟨d', List.mem_cons_self .., hk⟩
      · obtain ⟨g, hg, hk⟩ := ih ⟨d', hd', hk⟩
        exact ⟨g, List.mem_cons_of_mem _ hg, hk⟩

namespace Connective.Mixed

theorem pieces {es : List Expr} (hm : k.Mixed es) (hes : ∀ e ∈ es, e.Settled) :
    k.Mixed (operandsOf (pieces k es)) := by
  rw [operandsOf_piecesList]
  constructor
  · intro v hv
    obtain ⟨e, he, hv⟩ := List.mem_flatMap.mp hv
    rcases flattened_literal (hes e he) v hv with hb | rfl
    · exact hb
    · exact hm.literal v he
  · obtain ⟨e, he, hk⟩ := hm.mixed
    obtain ⟨d, hd, hk⟩ := flattened_mixed (hes e he) hk
    exact ⟨d, List.mem_flatMap.mpr ⟨e, he, hd⟩, hk⟩

theorem selectOperands {ps : List Piece} (hm : k.Mixed (operandsOf ps)) {leading : Bool}
    {kept : List Expr} (hk : (selectOperands k span ps leading).value = .ok kept) :
    k.Mixed kept := by
  constructor
  · intro v hv
    obtain ⟨ds, fs, heq⟩ := List.append_of_mem hv
    exact (selectOperands_literal hk heq).2
  · have hs := selectOperands_selects k span ps leading
    obtain ⟨hlit, hmixed⟩ := hm
    generalize operandsOf ps = es, (QueryExpr.selectOperands k span ps leading).value = r
      at hs hk hlit hmixed
    induction hs generalizing kept with
    | nil => simp at hmixed
    | kept _ _ _ ih =>
      cases hk
      obtain ⟨d, hd, hdk⟩ := hmixed
      rcases List.mem_cons.mp hd with rfl | hd
      · exact ⟨d, List.mem_cons_self .., hdk⟩
      · obtain ⟨g, hg, hgk⟩ := ih rfl (fun v hv => hlit v (List.mem_cons_of_mem _ hv)) ⟨d, hd, hdk⟩
        exact ⟨g, List.mem_cons_of_mem _ hg, hgk⟩
    | failed => cases hk
    | parked => cases hk; exact ⟨_, List.mem_singleton_self _, by simp [Expr.kind]⟩
    | decided => cases hk; exact ⟨_, List.mem_singleton_self _, by simp [Expr.ofBool, Expr.kind]⟩
    | dropped _ hb hd =>
      -- The literals of a mixed row decide, so that none is dropped.
      cases hlit _ (List.mem_cons_self ..)
      cases hb
      exact absurd rfl hd

theorem combined {es : List Expr} (hm : k.Mixed es) :
    k.Mixed (mergeAdjacent k (dropDuplicates k [] es).value).value := by
  refine ⟨combined_literal hm.literal, ?_⟩
  obtain ⟨e, he, hk⟩ := hm.mixed
  obtain ⟨d, hd, hed⟩ := dropDuplicates_covers (k := k) [] es e he
  have hdk : d.kind ≠ .negation := by
    rcases hed with rfl | hsame
    · exact hk
    · rwa [← Expr.kind_of_same hsame]
  rw [List.nil_append] at hd
  cases hu : (dropDuplicates k [] es).value with
  | nil => rw [hu] at hd; cases hd
  | cons u us =>
    rw [hu] at hd
    exact mergeOnto_mixed ⟨d, hd, hdk⟩

end Connective.Mixed

/-! ## One round -/

/-- Negations of these operands are not factored out, or not at the cost of a score. -/
def Connective.Lossless (k : Connective) (S : Score → Prop) (es : List Expr) : Prop :=
  (∀ r, S r → r = .zero) ∨ k.Mixed es

/-- Evaluation of operands that are run to a stage yields a truth of the stage. -/
theorem Connective.eval_of_run (hS : Score.Closed S)
    (hh : h.Draws chance L) {es : List Expr} (hes : ∀ e ∈ es, e.YieldsScored h S c) {s s' : σ}
    {st : Stage} (hr : k.run h c es s = some (st, s')) (span : Span) :
    ∃ b, (Expr.connective k es span).eval h c s = (.ok (.ofTruth b), s') ∧
      k.stage c.scoring b = st := by
  have hends := eval_run (k := k) hS hh hes span s
  rw [hr] at hends
  generalize hx : (Expr.connective k es span).eval h c s = x at hends ⊢
  cases hends with
  | value b => exact ⟨b, rfl, rfl⟩

/-- Where a round leads that starts from operands that are run to a stage and a state. -/
def Round.Leads (h : Host σ) (chance : String → Bool) (S : Score → Prop) (c : Context)
    (k : Connective) (s : σ) (st : Stage) (s' : σ) : Round → Prop
  | .done e => ∃ b, e.Lands h chance S c s b s' ∧ k.stage c.scoring b = st
  | .again es => (∀ e ∈ es, e.Fair h chance S c) ∧ k.Lossless S es ∧
    k.run h c es s = some (st, s')
  | .negation es => (∀ e ∈ es, e.Fair h chance S c) ∧ (∀ r, S r → r = .zero) ∧
    k.opposite.run h c es s = some (st, s')

/-- What is left alone in the place of a connective lands where its run ends. -/
theorem optimizeBoolean_run (hS : Score.Closed S) {e : Expr} (hs : e.Settled)
    (hf : e.Fair h chance S c) {s s' : σ} {st : Stage} (hr : k.run h c [e] s = some (st, s'))
    (span : Span) :
    ∃ d, (optimizeBoolean e span).value = .ok d ∧
      ∃ b, d.Lands h chance S c s b s' ∧ k.stage c.scoring b = st := by
  obtain ⟨b, s₁, hb⟩ := Connective.ebv_of_run hr
  rw [Connective.run_single_of_ok hb] at hr
  obtain ⟨hst, rfl⟩ := Prod.mk.inj (Option.some.inj hr)
  obtain ⟨d, hd, hlands⟩ := optimizeBoolean_lands hS hs hf hb span
  exact ⟨d, hd, b, hlands, hst⟩

theorem combineOperands_run (hS : Score.Closed S)
    (hh : h.Draws chance L) {es : List Expr} (hsel : Selected k es) (hne : es ≠ [])
    (hf : ∀ e ∈ es, e.Fair h chance S c) (hloss : k.Lossless S es) {s s' : σ} {st : Stage}
    (hr : k.run h c es s = some (st, s')) :
    ∃ r, (combineOperands k es span).value = .ok r ∧ r.Leads h chance S c k s st s' := by
  have hloss' : k.Lossless S (mergeAdjacent k (dropDuplicates k [] es).value).value :=
    hloss.imp_right Connective.Mixed.combined
  have hwithin {r : Round} (hv : (combineOperands k es span).value = .ok r) :=
    combineOperands_within hsel hne hv
  obtain ⟨e, es, rfl⟩ := List.exists_cons_of_ne_nil hne
  have hdd : k.run h c (dropDuplicates k [] (e :: es)).value s = some (st, s') :=
    dropDuplicates_keeps hh (List.forall_mem_nil _) hf s _ hr
  rw [dropDuplicates_cons] at hdd hloss'
  have hsub := dropDuplicates_sublist (c := k) [] (e :: es)
  rw [dropDuplicates_cons] at hsub
  obtain ⟨hes, hess⟩ := List.forall_mem_cons.mp fun d hd => hsel.settled d (hsub.subset hd)
  obtain ⟨he, hes'⟩ := List.forall_mem_cons.mp fun d hd => hf d (hsub.subset hd)
  have hrun := mergeOnto_keeps (k := k) hS hh hes hess he hes' s _ hdd
  have hsettled := mergeOnto_settled (c := k) hes hess
  have hfair := mergeOnto_forall_mem (c := k) (fun hd he hm => merge?_fair hS hd he hm) he hes'
  rcases combineOperands_cases k (e :: es) span (dropDuplicates_cons e es) rfl with
    ⟨-, hv⟩ | ⟨d, hd, hv⟩ | ⟨args, hargs, hv⟩ | ⟨-, -, -, hv⟩
  · exact ⟨_, hv, hfair, hloss', hrun⟩
  · simp only [mergeAdjacent] at hd
    rw [hd] at hrun hsettled hfair
    obtain ⟨d', hd', hlands⟩ := optimizeBoolean_run hS (hsettled d (List.mem_singleton_self d))
      (hfair d (List.mem_singleton_self d)) hrun span
    rw [hv, hd']
    exact ⟨_, rfl, hlands⟩
  · rcases hloss' with hzero | hmixed
    · have hargsFair := negated?_forall_mem (fun _ _ he => he.argument) hargs hfair
      refine ⟨_, hv, hargsFair, hzero, ?_⟩
      rw [← run_negated hargs (.inr fun e he s b s' hb =>
        hzero _ (hS.answer ((hargsFair e he).yields hS) hb))]
      exact hrun
    · exact absurd (hargs.symm.trans (negated?_fixed hmixed.mixed)) (by simp)
  · obtain ⟨b, heval, hst⟩ := Connective.eval_of_run hS hh
      (fun e he => (hfair e he).yields hS) hrun span
    exact ⟨_, hv, b, ⟨hwithin hv, .connective hfair, heval⟩, hst⟩

theorem connectiveStep_run (hS : Score.Closed S)
    (hh : h.Draws chance L) {es : List Expr} (hes : ∀ e ∈ es, e.Settled)
    (hf : ∀ e ∈ es, e.Fair h chance S c) (hloss : k.Lossless S es) {s s' : σ} {st : Stage}
    (hr : k.run h c es s = some (st, s')) (span : Span) :
    ∃ r, (connectiveStep k es span).value = .ok r ∧ r.Leads h chance S c k s st s' := by
  rw [← pieces_run hS hh hf] at hr
  have hpieces : k.Lossless S (operandsOf (pieces k es)) :=
    hloss.imp_right fun hm => hm.pieces hes
  have hfair := pieces_fair (k := k) hf
  have hlit : ∀ v, Expr.literal v ∈ operandsOf (pieces k es) → v.Unscored := by
    intro v hv
    rcases hpieces with hzero | hmixed
    · have hscored := (hfair _ hv).yields hS s v s rfl
      intro i hi
      have hi := hscored i hi
      cases i with
      | bool b => exact hzero _ hi
      | _ => trivial
    · cases hmixed.literal v hv
      intro i hi
      cases List.mem_singleton.mp hi
      rfl
  obtain ⟨kept, hk, hr⟩ := selectOperands_run hlit true span hr
  have hsel := selectOperands_selected hes hk
  have hkept : ∀ e ∈ kept, e.Fair h chance S c :=
    selectOperands_mem (hS.fair_ofBool _) (fun cause t => .failing cause t) hfair hk
  have hloss' : k.Lossless S kept := hpieces.imp_right fun hm => hm.selectOperands hk
  simp only [connectiveStep]
  rw [Attempt.andThen_of_ok hk]
  split
  · cases hr
    refine ⟨_, rfl, .plain !k.absorbing, ⟨Expr.settled_ofBool _, hS.fair_ofBool _, rfl⟩, ?_⟩
    rw [Connective.stage_plain, if_neg (by simp)]
  · rename_i v
    obtain ⟨-, hv⟩ := hsel.literal_last [] v [] rfl
    cases hv
    rw [Connective.run_single_of_ok rfl] at hr
    obtain ⟨hst, rfl⟩ := Prod.mk.inj (Option.some.inj hr)
    exact ⟨_, rfl, .plain k.absorbing, ⟨Expr.settled_ofBool _, hS.fair_ofBool _, rfl⟩, hst⟩
  · rename_i hne _
    exact combineOperands_run hS hh hsel hne hkept hloss' hr

/-! ## All rounds -/

/-- All rounds over operands that are run to a stage and a state end in an expression that is
evaluated to a truth of the stage, and to the state. -/
theorem rounds_run (hS : Score.Closed S)
    (hh : h.Draws chance L) {fuel : Nat} {es : List Expr} (hfuel : sizeList es < fuel)
    (hes : ∀ e ∈ es, e.Settled) (hf : ∀ e ∈ es, e.Fair h chance S c) (hloss : k.Lossless S es)
    {s s' : σ} {st : Stage} (hr : k.run h c es s = some (st, s')) (span : Span) :
    ∃ d, (rounds fuel k es span).value = .ok d ∧
      ∃ b, d.Lands h chance S c s b s' ∧ k.stage c.scoring b = st := by
  induction fuel generalizing k es with
  | zero => omega
  | succ fuel ih =>
    obtain ⟨r, hstep, hleads⟩ := connectiveStep_run hS hh hes hf hloss hr span
    have hwithin : r.Within (sizeList es) := connectiveStep_within hes hstep
    simp only [rounds]
    rw [Attempt.andThen_of_ok hstep]
    cases r with
    | done e => exact ⟨e, rfl, hleads⟩
    | again fs =>
      obtain ⟨hfs, hloss, hr⟩ := hleads
      exact ih (Nat.lt_of_lt_of_le hwithin.2 (Nat.le_of_lt_succ hfuel)) hwithin.1 hfs hloss hr
    | negation fs =>
      obtain ⟨hfs, hzero, hr⟩ := hleads
      obtain ⟨d, hd, b, hland, hst⟩ :=
        ih (Nat.lt_of_lt_of_le hwithin.2 (Nat.le_of_lt_succ hfuel)) hwithin.1 hfs (.inl hzero) hr
      obtain ⟨d', hd', t, ht, hland'⟩ :=
        optimizeNot_lands hS hland.settled hland.fair (ebv_of_eval hland.eval) span
      have hscore {e : Expr} {a : Truth} (hl : e.Lands h chance S c s a s') : a.score = .zero :=
        hzero _ (Value.scoredIn_ofTruth.mp (hl.fair.yields hS _ _ _ hl.eval))
      refine ⟨d', ?_, t, hland', ?_⟩
      · simp only [Attempt.andThen_of_ok hd, Attempt.andThen_of_ok hd']
        rfl
      · have hplain : t = .plain !b.value := by
          have hz := hscore hland'
          cases t; cases ht; cases hz; rfl
        rw [← hst, hplain, Connective.stage_opposite c.scoring (.inr (hscore hland))]

end
end QueryExpr
