import QueryExpr.Proofs.Fixed
import QueryExpr.Proofs.Lookups

/-!
# QueryExpr.Proofs.Recompiled

Whether the root of a query, as an index leaves it, would be compiled to itself.

* `compile_accepted`   — without typeswitches, compilation makes all its checks on what is left.
* `markTail_settled`   — marking keeps all nodes at rest.
* `Connective.Uncombined` — what is left of operands does not combine, unless the operands did.
* `Expr.StaysUncombined` — so it is with what the analysis leaves, and no disjunction collapses
  where a conjunction would have to take in what is left of it.
* `recompiled_fixed`   — the root that it leaves compiles to itself.
-/

namespace QueryExpr

/-! ## Checks -/

/-- There is no typeswitch in an expression. -/
def Expr.Switchless (e : Expr) : Prop := e.Every fun n => ∀ d cs span, n ≠ .typeswitch d cs span

section
variable {checks : Checks} {c : Connective} {span : Span}

/-- External functions accept all arguments. -/
def Checks.Accepting (checks : Checks) : Prop := ∀ fn es span, checks fn es span = .ok ()

theorem accepted_literal (v : Value) : (Expr.literal v).Accepted checks :=
  Expr.every_literal.mpr trivial

theorem optimizeBoolean_accepted {e d : Expr} (he : e.Accepted checks)
    (h : (optimizeBoolean e span).value = .ok d) : d.Accepted checks := by
  have hcore := Expr.Every.part he (asCondition_occursIn e)
  rcases optimizeBoolean_eq_ok h with ⟨v, b, -, -, rfl⟩ | ⟨rfl, -⟩ | ⟨rfl, -⟩
  · exact accepted_literal _
  · exact hcore
  · exact Expr.every_call.mpr ⟨trivial, hcore⟩

theorem optimizeNot_accepted {e d : Expr} (he : e.Accepted checks)
    (h : (optimizeNot e span).value = .ok d) : d.Accepted checks := by
  have hcore := Expr.Every.part he (asCondition_occursIn e)
  rcases optimizeNot_eq_ok h with ⟨v, b, -, -, rfl⟩ | ⟨inner, s, hv, hd⟩ | ⟨rfl, -⟩
  · exact accepted_literal _
  · rw [hv] at hcore
    exact optimizeBoolean_accepted (Expr.every_call.mp hcore).2 hd
  · exact Expr.every_call.mpr ⟨trivial, hcore⟩

theorem merge?_accepted {d e : Expr} {m : Noted Expr} (hd : d.Accepted checks)
    (h : d.merge? c e = some m) : m.value.Accepted checks := by
  rcases merge?_cases h with ⟨a, b, s, a', b', s', lo, hi, rfl, rfl, rfl, -, -, hm⟩ |
    ⟨b, d', s, b', e', s', rfl, rfl, rfl, -, -, -, hm⟩ |
    ⟨l, v, s, l', w, s', rfl, rfl, rfl, -, -, hm⟩
  · rw [hm]
    split
    · exact accepted_literal _
    · exact Expr.every_position.mpr trivial
  · rw [hm]
    split
    · exact accepted_literal _
    · exact Expr.every_range.mpr ⟨trivial, (Expr.every_range.mp hd).2⟩
  · rw [hm]
    exact Expr.every_compare.mpr ⟨trivial, (Expr.every_compare.mp hd).2.1, accepted_literal _⟩

theorem optimizeCast_accepted {e d : Expr} {t : SeqType} (he : e.Accepted checks)
    (hshort : e.type.occurs.min ≤ 1) (h : (optimizeCast e t span).value = .ok d) :
    d.Accepted checks := by
  rcases optimizeCast_eq_ok h with ⟨v, w, -, -, rfl⟩ | ⟨-, rfl⟩ | rfl
  · exact accepted_literal _
  · exact he
  · exact Expr.every_cast.mpr ⟨hshort, he⟩

theorem optimizeCompare_accepted {op : CompareOp} {l r d : Expr} (hl : l.Accepted checks)
    (hr : r.Accepted checks) (h : (optimizeCompare op l r span).value = .ok d) :
    d.Accepted checks := by
  simp only [optimizeCompare] at h
  split at h
  · split at h
    · cases h
    · cases h; exact accepted_literal _
  · cases h; exact Expr.every_compare.mpr ⟨trivial, hl, hr⟩

theorem optimizeRange_accepted {b : Bounds} {e d : Expr} (he : e.Accepted checks)
    (h : (optimizeRange b e span).value = .ok d) : d.Accepted checks := by
  simp only [optimizeRange] at h
  split at h
  · cases h; exact accepted_literal _
  · split at h
    · split at h
      · cases h
      · cases h; exact accepted_literal _
    · cases h; exact Expr.every_range.mpr ⟨trivial, he⟩

theorem optimizePosition_accepted {a b : Int64} {d : Expr}
    (h : (optimizePosition a b span).value = .ok d) : d.Accepted checks := by
  simp only [optimizePosition] at h
  split at h
  · cases h; exact Expr.every_position.mpr trivial
  · cases h; exact accepted_literal _

/-- What a round ends in is accepted. -/
def Round.Accepted (checks : Checks) : Round → Prop
  | .done e => e.Accepted checks
  | .again es => ∀ e ∈ es, e.Accepted checks
  | .negation es => ∀ e ∈ es, e.Accepted checks

theorem combineOperands_accepted {es : List Expr} (hes : ∀ e ∈ es, e.Accepted checks)
    {r : Round} (hr : (combineOperands c es span).value = .ok r) : r.Accepted checks := by
  have hus : ∀ e ∈ (dropDuplicates c [] es).value, e.Accepted checks :=
    fun e he => hes e ((dropDuplicates_sublist [] es).subset he)
  have hms : ∀ e ∈ (mergeAdjacent c (dropDuplicates c [] es).value).value, e.Accepted checks := by
    cases hu : (dropDuplicates c [] es).value with
    | nil => nofun
    | cons u us =>
      rw [hu] at hus
      obtain ⟨hu, hus⟩ := List.forall_mem_cons.mp hus
      exact mergeOnto_forall_mem (fun hd _ => merge?_accepted hd) hu hus
  rcases combineOperands_cases c es span rfl rfl with
    ⟨-, hv⟩ | ⟨d, hd, hv⟩ | ⟨args, hargs, hv⟩ | ⟨-, -, -, hv⟩
  · cases hv.symm.trans hr; exact hms
  · rw [hv] at hr
    cases hb : (optimizeBoolean d span).value with
    | error t => rw [hb] at hr; cases hr
    | ok d' =>
      rw [hb] at hr
      cases hr
      exact optimizeBoolean_accepted (hms d (hd ▸ List.mem_singleton_self d)) hb
  · cases hv.symm.trans hr; exact negated?_every hargs hms
  · cases hv.symm.trans hr; exact Expr.every_connective.mpr ⟨trivial, hms⟩

theorem connectiveStep_accepted {es : List Expr} (hes : ∀ e ∈ es, e.Accepted checks)
    {r : Round} (hr : (connectiveStep c es span).value = .ok r) : r.Accepted checks := by
  obtain ⟨kept, hk, hr⟩ := Attempt.andThen_eq_ok.mp hr
  have hkept : ∀ e ∈ kept, e.Accepted checks := by
    refine selectOperands_mem (accepted_literal _) (fun _ _ => Expr.every_failing.mpr trivial)
      (fun e he => ?_) hk
    rw [operandsOf_piecesList] at he
    obtain ⟨d, hd, hed⟩ := List.mem_flatMap.mp he
    exact flattened_every (hes d hd) e hed
  split at hr
  · cases hr; exact accepted_literal _
  · cases hr; exact accepted_literal _
  · exact combineOperands_accepted hkept hr

theorem rounds_accepted {fuel : Nat} {es : List Expr} (hes : ∀ e ∈ es, e.Accepted checks)
    {d : Expr} (h : (rounds fuel c es span).value = .ok d) : d.Accepted checks := by
  induction fuel generalizing c es d with
  | zero => cases h; exact Expr.every_connective.mpr ⟨trivial, hes⟩
  | succ fuel ih =>
    obtain ⟨r, hr, h⟩ := Attempt.andThen_eq_ok.mp h
    have hround := connectiveStep_accepted hes hr
    cases r with
    | done e => cases h; exact hround
    | again fs => exact ih hround h
    | negation fs =>
      obtain ⟨e, he, h⟩ := Attempt.andThen_eq_ok.mp h
      obtain ⟨b, hb, hd⟩ := Attempt.andThen_eq_ok.mp h
      cases hd
      exact optimizeNot_accepted (ih hround he) hb

theorem compiled_accepted {e : Expr}
    (h : ∀ d, (e.compile checks).value = .ok d → d.Accepted checks) :
    (e.compiled checks).Accepted checks := by
  unfold Expr.compiled
  cases hr : (e.compile checks).value with
  | error t => exact Expr.every_failing.mpr trivial
  | ok d => exact h d hr

theorem compileOperands_accepted {es fs : List Expr}
    (h : (compileOperands checks es).value = .ok fs)
    (hes : ∀ e ∈ es, ∀ d, (e.compile checks).value = .ok d → d.Accepted checks) :
    ∀ e ∈ fs, e.Accepted checks := by
  cases es with
  | nil => cases h; nofun
  | cons e es =>
    obtain ⟨he, hes⟩ := List.forall_mem_cons.mp hes
    cases hr : (e.compile checks).value with
    | error t => rw [compileOperands_of_error hr] at h; cases h
    | ok e' =>
      rw [compileOperands_of_ok hr] at h
      cases h
      refine List.forall_mem_cons.mpr ⟨he e' hr, fun d hd => ?_⟩
      obtain ⟨e, he, rfl⟩ := List.mem_map.mp hd
      exact compiled_accepted (hes e he)

theorem optimizeSwitch_accepted {e d r : Expr} {cs : List (Expr × Expr)}
    (he : e.Accepted checks) (hcs : ∀ p ∈ cs, p.1.Accepted checks ∧ p.2.Accepted checks)
    (hd : d.Accepted checks) (h : (optimizeSwitch e cs d span).value = .ok r) :
    r.Accepted checks := by
  have hnode : (Expr.switch e cs d span).Accepted checks :=
    Expr.every_switch.mpr ⟨trivial, he, hcs, hd⟩
  simp only [optimizeSwitch] at h
  split at h
  · split at h
    · cases h
    · split at h
      · cases h
      · cases h; exact hnode
      · cases h; exact hd
      · rename_i hb
        cases h
        obtain ⟨v, hv⟩ := chooseCase_branch hb
        exact (hcs _ hv).2
  · cases h; exact hnode

/-- Without typeswitches nothing is substituted, so what compilation leaves passes all checks that
it makes, if external functions accept their arguments. -/
theorem compile_accepted (hc : checks.Accepting) {e d : Expr} (he : e.Switchless)
    (h : (e.compile checks).value = .ok d) : d.Accepted checks := by
  induction e generalizing d with
  | connective c es span ih =>
    obtain ⟨fs, hfs, h⟩ := Attempt.andThen_eq_ok.mp h
    exact rounds_accepted (compileOperands_accepted hfs fun e hm d hd =>
      ih e hm ((Expr.every_connective.mp he).2 e hm) hd) h
  | switch e cs d' span ihe ihcs ihd =>
    obtain ⟨-, hse, hscs, hsd⟩ := Expr.every_switch.mp he
    obtain ⟨e', he', h⟩ := Attempt.andThen_eq_ok.mp h
    simp only [Attempt.andThen_lift, compileCases_value, Attempt.parked_value] at h
    refine optimizeSwitch_accepted (ihe hse he') (fun p hp => ?_)
      (compiled_accepted fun d hd => ihd hsd hd) h
    obtain ⟨q, hq, rfl⟩ := List.mem_map.mp hp
    exact ⟨compiled_accepted fun d hd => (ihcs q hq).1 (hscs q hq).1 hd,
      compiled_accepted fun d hd => (ihcs q hq).2 (hscs q hq).2 hd⟩
  | typeswitch e cs span _ _ => exact absurd rfl (he.node e cs span)
  | cast e t span ih =>
    simp only [Expr.compile] at h
    split at h
    · obtain ⟨e', he', h⟩ := Attempt.andThen_eq_ok.mp h
      have ha := ih (Expr.every_cast.mp he).2 he'
      simp only [checkedCast] at h
      split at h
      · cases h
      · rename_i hshort
        exact optimizeCast_accepted ha (Nat.not_lt.mp hshort) h
    · cases h
  | call fn e span ih =>
    obtain ⟨e', he', h⟩ := Attempt.andThen_eq_ok.mp h
    have ha := ih (Expr.every_call.mp he).2 he'
    cases fn with
    | boolean => exact optimizeBoolean_accepted ha h
    | not => exact optimizeNot_accepted ha h
  | compare op l r span ihl ihr =>
    obtain ⟨-, hsl, hsr⟩ := Expr.every_compare.mp he
    obtain ⟨l', hl', h⟩ := Attempt.andThen_eq_ok.mp h
    simp only [Attempt.andThen_lift, Attempt.parked_value] at h
    exact optimizeCompare_accepted (ihl hsl hl') (compiled_accepted fun d hd => ihr hsr hd) h
  | range b e span ih =>
    obtain ⟨e', he', h⟩ := Attempt.andThen_eq_ok.mp h
    exact optimizeRange_accepted (ih (Expr.every_range.mp he).2 he') h
  | position a b span => exact optimizePosition_accepted h
  | literal v => cases h; exact accepted_literal _
  | var x span => cases h; exact Expr.every_var.mpr trivial
  | external fn es tail span ih =>
    obtain ⟨fs, hfs, h⟩ := Attempt.andThen_eq_ok.mp h
    rw [hc fn fs span] at h
    cases h
    exact Expr.every_external.mpr ⟨hc fn fs span, compileOperands_accepted hfs fun e hm d hd =>
      ih e hm ((Expr.every_external.mp he).2 e hm) hd⟩
  | failing t type s => cases h; exact Expr.every_failing.mpr trivial

end

/-! ## Marks -/

section
variable {e d : Expr} {c : Connective} {ds es : List Expr} {span : Span}

theorem sameList_markTailLast (h : ∀ e ∈ es, ∀ d, e.markTail.same d = e.same d)
    (ds : List Expr) : sameList (markTailLast es) ds = sameList es ds := by
  induction es generalizing ds with
  | nil => rfl
  | cons e es ih =>
    obtain ⟨he, hes⟩ := List.forall_mem_cons.mp h
    cases ds with
    | nil => cases es <;> rfl
    | cons d ds =>
      cases es with
      | nil => simp only [markTailLast]; split <;> simp only [sameList, he]
      | cons e' es => rw [markTailLast, sameList, sameList, ih hes]; simp

/-- Equality does not see marks. -/
theorem Expr.markTail_same (e d : Expr) : e.markTail.same d = e.same d := by
  induction e generalizing d with
  | connective c es span ih =>
    cases d <;> rw [Expr.markTail] <;> simp only [Expr.same, sameList_markTailLast ih]
  | switch e cs o span _ ihcs iho =>
    have hcs (ds : List (Expr × Expr)) : sameCases (markTailCases cs) ds = sameCases cs ds := by
      induction cs generalizing ds with
      | nil => rfl
      | cons p cs ih =>
        obtain ⟨hp, hcs⟩ := List.forall_mem_cons.mp ihcs
        cases ds with
        | nil => rfl
        | cons q ds => rw [markTailCases, sameCases, sameCases, ih hcs, hp.2]
    cases d <;> rw [Expr.markTail] <;> simp only [Expr.same, hcs, iho]
  | typeswitch e cs span _ ihcs =>
    have hcs (ds : List (CaseHead × Expr)) :
        sameTypeCases (markTailTypeCases cs) ds = sameTypeCases cs ds := by
      induction cs generalizing ds with
      | nil => rfl
      | cons p cs ih =>
        obtain ⟨hp, hcs⟩ := List.forall_mem_cons.mp ihcs
        cases ds with
        | nil => rfl
        | cons q ds => rw [markTailTypeCases, sameTypeCases, sameTypeCases, ih hcs, hp]
    cases d <;> rw [Expr.markTail] <;> simp only [Expr.same, hcs]
  | external fn es tail span _ => cases d <;> rfl
  | _ => rfl

theorem anyRandom_markTailLast (h : ∀ e ∈ es, e.markTail.isRandom = e.isRandom) :
    anyRandom (markTailLast es) = anyRandom es := by
  induction es with
  | nil => rfl
  | cons e es ih =>
    obtain ⟨he, hes⟩ := List.forall_mem_cons.mp h
    cases es with
    | nil => simp only [markTailLast]; split <;> simp only [anyRandom, he]
    | cons e' es => rw [markTailLast, anyRandom, anyRandom, ih hes]; simp

theorem Expr.markTail_isRandom (e : Expr) : e.markTail.isRandom = e.isRandom := by
  induction e with
  | connective c es span ih => rw [Expr.markTail, Expr.isRandom, anyRandom_markTailLast ih]; rfl
  | switch e cs o span _ ihcs iho =>
    have hcs : anyCaseRandom (markTailCases cs) = anyCaseRandom cs := by
      induction cs with
      | nil => rfl
      | cons p cs ih =>
        obtain ⟨hp, hcs⟩ := List.forall_mem_cons.mp ihcs
        rw [markTailCases, anyCaseRandom, anyCaseRandom, ih hcs, hp.2]
    rw [Expr.markTail, Expr.isRandom, hcs, iho]; rfl
  | typeswitch e cs span _ ihcs =>
    have hcs : anyTypeCaseRandom (markTailTypeCases cs) = anyTypeCaseRandom cs := by
      induction cs with
      | nil => rfl
      | cons p cs ih =>
        obtain ⟨hp, hcs⟩ := List.forall_mem_cons.mp ihcs
        rw [markTailTypeCases, anyTypeCaseRandom, anyTypeCaseRandom, ih hcs, hp]
    rw [Expr.markTail, Expr.isRandom, hcs]; rfl
  | _ => rfl

theorem Expr.markTail_eq_literal {v : Value} : e.markTail = .literal v ↔ e = .literal v := by
  cases e <;> simp [Expr.markTail]

theorem Expr.markTail_isVacuous (e : Expr) : e.markTail.isVacuous = e.isVacuous := by
  have htype := e.markTail_type
  have hrandom := e.markTail_isRandom
  cases e <;> simp only [Expr.markTail] at htype hrandom ⊢ <;>
    simp only [Expr.isVacuous, htype, hrandom]

/-- What merges has no marks. -/
theorem merge?_markTail (c : Connective) (d e : Expr) : d.merge? c e.markTail = d.merge? c e := by
  cases e <;> cases d <;> cases c <;> rfl

/-- A normal form is one also with a mark in its last operand. -/
theorem Connective.Normal.markTail (h : c.Normal (ds ++ [e])) : c.Normal (ds ++ [e.markTail]) where
  several := by simpa using h.several
  flat := by
    intro d hd
    rcases List.mem_append.mp hd with hd | hd
    · exact h.flat d (List.mem_append_left _ hd)
    · rw [List.mem_singleton.mp hd, e.markTail_kind]
      exact h.flat e (by simp)
  literal_last := by
    intro as v bs hv
    rcases List.eq_nil_or_concat bs with rfl | ⟨bs, b, rfl⟩
    · obtain ⟨rfl, hm⟩ := List.append_inj' hv rfl
      have he := Expr.markTail_eq_literal.mp (List.singleton_inj.mp hm)
      exact h.literal_last ds v [] (by rw [he])
    · rw [List.concat_eq_append, ← List.cons_append, ← List.append_assoc] at hv
      obtain ⟨rfl, -⟩ := List.append_inj' hv rfl
      have hlast := h.literal_last as v (bs ++ [e]) (by simp)
      simp at hlast
  distinct := by
    obtain ⟨hds, -, hde⟩ := List.pairwise_append.mp h.distinct
    refine List.pairwise_append.mpr ⟨hds, List.pairwise_singleton _ _, fun d hd m hm hr => ?_⟩
    rw [List.mem_singleton.mp hm] at hr ⊢
    rw [e.markTail_isRandom] at hr
    rw [e.markTail_same]
    exact hde d hd e (List.mem_singleton_self e) hr
  unmergeable := by
    intro as a b bs hab
    rcases List.eq_nil_or_concat bs with rfl | ⟨bs, z, rfl⟩
    · rw [← List.singleton_append (l := [b]), ← List.append_assoc] at hab
      obtain ⟨rfl, hb⟩ := List.append_inj' hab rfl
      rw [← List.singleton_inj.mp hb, merge?_markTail]
      exact h.unmergeable as a e [] (by simp)
    · rw [List.concat_eq_append, ← List.cons_append, ← List.cons_append, ← List.append_assoc] at hab
      obtain ⟨rfl, -⟩ := List.append_inj' hab rfl
      exact h.unmergeable as a b (bs ++ [e]) (by simp)
  mixed := by
    obtain ⟨d, hd, hk⟩ := h.mixed
    rcases List.mem_append.mp hd with hd | hd
    · exact ⟨d, List.mem_append_left _ hd, hk⟩
    · rw [List.mem_singleton.mp hd] at hk
      exact ⟨e.markTail, by simp, by rw [e.markTail_kind]; exact hk⟩

theorem chooseCase_markTail (i : Option Item) (span : Span) (cs : List (Expr × Expr))
    (h : chooseCase i span cs = .ok .unknown) :
    chooseCase i span (markTailCases cs) = .ok .unknown := by
  fun_induction chooseCase i span cs with
  | case1 => cases h
  | case2 => cases h
  | case3 => cases h
  | case4 w r cs j hj hm ih =>
    simp only [markTailCases, chooseCase, hj, hm, ih h, Bool.false_eq_true, if_false]
  | case5 p cs hp =>
    obtain ⟨v, r⟩ := p
    cases v with
    | literal w => exact absurd rfl (hp w r)
    | _ => rfl

/-- Marking keeps nodes at rest. -/
theorem Expr.markTail_settled (he : e.Settled) : e.markTail.Settled := by
  refine Expr.markTail_every (fun n hn => ?_) he
  cases n with
  | connective c es span =>
    rcases List.eq_nil_or_concat es with rfl | ⟨ds, m, rfl⟩
    · exact hn
    · rw [List.concat_eq_append] at hn
      rw [List.concat_eq_append, Expr.markTail, markTailLast_concat]
      split
      · exact Connective.Normal.markTail hn
      · exact hn
  | switch e cs d span =>
    intro v hv
    obtain ⟨i, hi, hc⟩ := hn v hv
    exact ⟨i, hi, chooseCase_markTail i span cs hc⟩
  | typeswitch e cs span =>
    obtain ⟨hdef, hl, hvac⟩ := hn
    rw [Expr.markTail, markTailTypeCases_eq]
    refine ⟨(endsInDefault_map cs Expr.markTail).trans hdef, hl, ?_⟩
    simpa only [List.all_map, Function.comp_def, Expr.markTail_isVacuous] using hvac
  | _ => exact hn

theorem Expr.markTail_accepted {checks : Checks} (he : e.Accepted checks) :
    e.markTail.Accepted checks :=
  Expr.markTail_every (fun n hn => by cases n <;> exact hn) he

end

/-! ## Analysis -/

section
variable {checks : Checks} {index : Index} {reorder : Bool} {d e : Expr} {ks : List Expr}
  {span : Span}

/-- What is left of operands does not combine in a way in which the operands did not. -/
structure Connective.Uncombined (c : Connective) (es ds : List Expr) : Prop where
  /-- Unless they are some of the operands, in their order, none that always yields the same is equal
  to one before it. -/
  distinct : ¬ List.Sublist ds es → ds.Pairwise fun d e => e.isRandom = false → e.same d = false
  /-- None that have become neighbours can be merged. -/
  unmergeable : ∀ as d e bs, ds = as ++ d :: e :: bs → ¬ [d, e] <:+: es → d.merge? c e = none
  /-- Unless all operands are left, some of what is left is no negation. -/
  mixed : ¬ es ⊆ ds → ∃ e ∈ ds, e.kind ≠ .negation

variable (index reorder) in
/-- Of a disjunction the analysis keeps no operand, or one only, which is a conjunction or is not
statically one boolean. -/
def Expr.Collapses (e : Expr) : Prop :=
  ∃ es span, e = .connective .disjunction es span ∧
    (pruneOperands (es.map (·.analysed index reorder)) = [] ∨
      ∃ k, pruneOperands (es.map (·.analysed index reorder)) = [k] ∧
        (k.kind = .conjunction ∨ k.type ≠ .booleanOne))

variable (index reorder) in
/-- The operands that the analysis leaves do not newly combine: those of conjunctions in the new
order, where no operand collapses, and those that a disjunction keeps, if there are at least two. -/
inductive Expr.StaysUncombined : Expr → Prop where
  | other {e : Expr} : (∀ c es span, e ≠ .connective c es span) → StaysUncombined e
  | conjunction {es : List Expr} {span : Span} :
      (∀ e ∈ es, StaysUncombined e) → (∀ e ∈ es, ¬ e.Collapses index reorder) →
      Connective.Uncombined .conjunction es
        ((orderOperands reorder (es.map (·.analysed index reorder))).map (·.1)) →
      StaysUncombined (.connective .conjunction es span)
  | disjunction {es : List Expr} {span : Span} :
      (∀ e ∈ es, (e.analysed index reorder).2 ≠ 0 → StaysUncombined e) →
      (2 ≤ (pruneOperands (es.map (·.analysed index reorder))).length →
        Connective.Uncombined .disjunction es
          (pruneOperands (es.map (·.analysed index reorder)))) →
      StaysUncombined (.connective .disjunction es span)

/-- If what is left of operands in normal form does not newly combine, it is in normal form as far as
it is flat and has no literals. -/
theorem Connective.Normal.left {c : Connective} {es ds : List Expr} (hn : c.Normal es)
    (h : c.Uncombined es ds) (hds : 2 ≤ ds.length)
    (hflat : ∀ d ∈ ds, d.kind ≠ c.kind ∧ d.kind ≠ .boolean) (hlit : ∀ d ∈ ds, ∀ v, d ≠ .literal v) :
    c.Normal ds where
  several := hds
  flat := hflat
  literal_last as v bs heq := absurd rfl (hlit (.literal v) (by simp [heq]) v)
  distinct := by
    by_cases hsub : List.Sublist ds es
    · exact hn.distinct.sublist hsub
    · exact h.distinct hsub
  unmergeable := by
    intro as d e bs heq
    by_cases hnext : [d, e] <:+: es
    · obtain ⟨cs, fs, rfl⟩ := hnext
      exact hn.unmergeable cs d e fs (by simp)
    · exact h.unmergeable as d e bs heq hnext
  mixed := by
    by_cases hsub : es ⊆ ds
    · obtain ⟨e, he, hk⟩ := hn.mixed
      exact ⟨e, hsub he, hk⟩
    · exact h.mixed hsub

/-- What is in normal form does not combine at all. -/
theorem Connective.Normal.uncombined {c : Connective} {ds : List Expr} (h : c.Normal ds)
    (es : List Expr) : c.Uncombined es ds where
  distinct _ := h.distinct
  unmergeable as d e bs heq _ := h.unmergeable as d e bs heq
  mixed _ := h.mixed

/-- What an operand of a conjunction becomes, if it does not collapse, is no conjunction, no call of
`boolean` and no literal, like the operand itself. -/
theorem analysed_uncollapsed (h : e.Covered index reorder) (he : e.Settled)
    (hflat : e.kind ≠ .conjunction ∧ e.kind ≠ .boolean) (hcol : ¬ e.Collapses index reorder) :
    ((e.analysed index reorder).1.kind ≠ .conjunction ∧
      (e.analysed index reorder).1.kind ≠ .boolean) ∧
      ∀ v, (e.analysed index reorder).1 ≠ .literal v := by
  cases e with
  | connective c es span =>
    cases c with
    | conjunction => exact absurd rfl hflat.1
    | disjunction =>
      have hn : Connective.Normal .disjunction es := he.node
      have hks := kept_no_boolean h hn.flat
      obtain ⟨-, -, hkept⟩ := analysed_disjunction h
      revert hks hkept
      generalize hd : ((Expr.connective .disjunction es span).analysed index reorder).1 = d
      generalize hk : pruneOperands (es.map (·.analysed index reorder)) = ks
      intro hks hkept
      cases hkept with
      | none => exact absurd ⟨es, span, rfl, .inl hk⟩ hcol
      | several => exact ⟨⟨nofun, nofun⟩, nofun⟩
      | @one k _ hb =>
        have hbare := hks k (List.mem_singleton_self k)
        have hsingle : ¬ (k.kind = .conjunction ∨ k.type ≠ .booleanOne) :=
          fun hbad => hcol ⟨es, span, rfl, .inr ⟨k, hk, hbad⟩⟩
        obtain ⟨hand, htype⟩ := not_or.mp hsingle
        rcases optimizeBoolean_bare hbare hb with ⟨rfl, -⟩ | ⟨-, ht⟩
        · exact ⟨⟨hand, hbare.1⟩, hbare.2⟩
        · exact absurd ht htype
  | literal v => cases h
  | _ =>
    obtain ⟨info, -, hval⟩ := analysed_other h (by simp)
    rw [hval]
    exact ⟨hflat, nofun⟩

/-- What is left of a disjunction is settled if what it keeps is, and is in normal form. -/
theorem Kept.settled (h : Kept span ks d) (hks : ∀ k ∈ ks, k.kind ≠ .boolean ∧ ∀ v, k ≠ .literal v)
    (hs : ∀ k ∈ ks, k.Settled) (hn : 2 ≤ ks.length → Connective.Normal .disjunction ks) :
    d.Settled := by
  cases h with
  | none => exact Expr.settled_ofBool false
  | several hlen => exact Expr.every_connective.mpr ⟨hn hlen, hs⟩
  | @one k _ hd =>
    have hbare := hks k (List.mem_singleton_self k)
    have hk := hs k (List.mem_singleton_self k)
    rcases optimizeBoolean_bare hbare hd with ⟨rfl, -⟩ | ⟨rfl, ht⟩
    · exact hk
    · exact Expr.every_call.mpr ⟨⟨Expr.literal?_eq_none.mpr hbare.2, hbare.1, ht⟩, hk⟩

/-- The analysis keeps nodes at rest, if the operands that it leaves do not newly combine. -/
theorem Expr.analysed_settled (h : e.Covered index reorder) (he : e.Settled)
    (hsep : e.StaysUncombined index reorder) : (e.analysed index reorder).1.Settled := by
  induction e with
  | connective c es span ih =>
    obtain ⟨hn, hes⟩ := Expr.every_connective.mp he
    cases hsep with
    | other hother => exact absurd rfl (hother _ _ _)
    | conjunction hparts hcol hapart =>
      obtain ⟨hcov, hval⟩ := analysed_conjunction h
      have hperm := orderOperands_perm reorder (es.map (·.analysed index reorder))
      have hleft : ∀ d ∈ (orderOperands reorder (es.map (·.analysed index reorder))).map (·.1),
          ∃ e ∈ es, d = (e.analysed index reorder).1 := by
        intro d hd
        obtain ⟨p, hp, rfl⟩ := List.mem_map.mp hd
        obtain ⟨e, hm, rfl⟩ := List.mem_map.mp (hperm.mem_iff.mp hp)
        exact ⟨e, hm, rfl⟩
      have hoperand (e : Expr) (hm : e ∈ es) :=
        analysed_uncollapsed (hcov e hm) (hes e hm) (hn.flat e hm) (hcol e hm)
      rw [hval]
      refine Expr.every_connective.mpr ⟨hn.left hapart ?_ (fun d hd => ?_) (fun d hd => ?_),
        fun d hd => ?_⟩
      · rw [List.length_map, hperm.length_eq, List.length_map]
        exact hn.several
      · obtain ⟨e, hm, rfl⟩ := hleft d hd
        exact (hoperand e hm).1
      · obtain ⟨e, hm, rfl⟩ := hleft d hd
        exact (hoperand e hm).2
      · obtain ⟨e, hm, rfl⟩ := hleft d hd
        exact ih e hm (hcov e hm) (hes e hm) (hparts e hm)
    | disjunction hparts hapart =>
      obtain ⟨hcov, -, hkept⟩ := analysed_disjunction h
      have hks := kept_no_boolean h hn.flat
      refine hkept.settled hks (fun k hk => ?_) fun hlen =>
        hn.left (hapart hlen) hlen (fun k hk => ?_) fun k hk => (hks k hk).2
      · obtain ⟨e, hm, hne, rfl⟩ := mem_pruneOperands.mp hk
        exact ih e hm (hcov e hm) (hes e hm) (hparts e hm hne)
      · refine ⟨?_, (hks k hk).1⟩
        rcases kept_operand h hn.flat hk with ⟨fs, s, rfl⟩ | ⟨hm, -, -⟩
        · exact nofun
        · exact (hn.flat k hm).1
  | _ =>
    obtain ⟨info, -, hval⟩ := analysed_other h (by simp)
    rw [hval]
    exact he

theorem keptByAnalysis_accepted : KeptByAnalysis (Expr.Passes checks) where
  connective _ := trivial
  false := trivial
  boolean hd he := optimizeBoolean_accepted he hd

/-! ## Queries -/

/-- The analysis by an index, if it is made and leads to a plan, leaves operands that do not newly
combine. -/
def LeavesUncombined (config : IndexConfig) (index : Option Index) (e : Expr) : Prop :=
  ∀ i, index = some i → config.enabled = true → e.Covered i config.reorder →
    e.StaysUncombined i config.reorder

/-- The root of a query without typeswitches compiles to itself, whatever the context, if the
operands that the index leaves do not newly combine. -/
theorem recompiled_fixed {ctx ctx' : CompileContext} {index : Option Index} {r : Expr}
    (hc : checks.Accepting) (he : e.Switchless) (hr : (ctx.compile checks e).1 = .ok r)
    (hleft : LeavesUncombined ctx.config.index index r.markTail) :
    ∃ q, (ctx.compileQuery checks index e).1 = .ok q ∧
      (ctx'.compile checks q.value.root).1 = .ok q.value.root := by
  have hval : (e.compile checks).value = .ok r := hr
  have hs := Expr.markTail_settled (Expr.compile_settled hval)
  have ha := Expr.markTail_accepted (compile_accepted hc he hval)
  have hfixed {d : Expr} (hd : d.Settled) (hd' : d.Accepted checks) :
      (ctx'.compile checks d).1 = .ok d := Expr.compile_fixed hd hd'
  obtain ⟨q, hq, ⟨i, rfl, hen, hcov, hroot⟩ | ⟨-, hroot⟩⟩ := compileQuery_cases hr index
  · refine ⟨q, hq, ?_⟩
    rw [hroot]
    exact hfixed (Expr.analysed_settled hcov hs (hleft i rfl hen hcov))
      (Expr.analysed_every keptByAnalysis_accepted hcov ha)
  · refine ⟨q, hq, ?_⟩
    rw [hroot]
    exact hfixed hs ha

end

theorem switchless_connective {k : Connective} {es : List Expr} {span : Span}
    (h : ∀ e ∈ es, e.Switchless) : (Expr.connective k es span).Switchless :=
  Expr.every_connective.mpr ⟨nofun, h⟩

theorem switchless_position (a b : Int64) (span : Span) : (Expr.position a b span).Switchless :=
  Expr.every_position.mpr nofun

theorem switchless_call (fn : ExternalFn) (tail : Bool) (span : Span) :
    (Expr.external fn [] tail span).Switchless :=
  Expr.every_external.mpr ⟨nofun, nofun⟩

theorem staysUncombined_call (index : Index) (reorder : Bool) (fn : ExternalFn) (tail : Bool)
    (span : Span) : (Expr.external fn [] tail span).StaysUncombined index reorder :=
  .other nofun

theorem not_collapses_call (index : Index) (reorder : Bool) (fn : ExternalFn) (tail : Bool)
    (span : Span) : ¬ (Expr.external fn [] tail span).Collapses index reorder := by
  rintro ⟨_, _, h, -⟩
  cases h

theorem accepting_all : Checks.Accepting fun _ _ _ => .ok () := fun _ _ _ => rfl

/-- The second call goes to the front; the calls do not combine, so the root compiles to itself. -/
theorem recompiled_twoCalls :
    ∃ q, ((CompileContext.start {} .empty).compileQuery (fun _ _ _ => .ok ())
        (some (callIndex 100 5)) (twoCalls false)).1 = .ok q ∧
      ((CompileContext.start {} .empty).compile (fun _ _ _ => .ok ()) q.value.root).1 =
        .ok q.value.root := by
  have hswitchless : (twoCalls false).Switchless :=
    switchless_connective (List.forall_mem_cons.mpr
      ⟨switchless_call _ _ _, List.forall_mem_singleton.mpr (switchless_call _ _ _)⟩)
  refine @recompiled_fixed _ _ _ (CompileContext.start {} .empty) (some (callIndex 100 5)) _
    accepting_all hswitchless twoCalls_compiles ?_
  intro i hi _ _
  cases hi
  have horder : (orderOperands true (([.external ⟨0, "first", .booleanOne, true⟩ [] false .unknown,
      .external ⟨1, "second", .booleanOne, true⟩ [] true .unknown] : List Expr).map
        (·.analysed (callIndex 100 5) true))).map (·.1) =
      [.external ⟨1, "second", .booleanOne, true⟩ [] true .unknown,
        .external ⟨0, "first", .booleanOne, true⟩ [] false .unknown] := by cbv
  refine .conjunction
    (List.forall_mem_cons.mpr ⟨staysUncombined_call _ _ _ _ _,
      List.forall_mem_singleton.mpr (staysUncombined_call _ _ _ _ _)⟩)
    (List.forall_mem_cons.mpr ⟨not_collapses_call _ _ _ _ _,
      List.forall_mem_singleton.mpr (not_collapses_call _ _ _ _ _)⟩)
    (horder ▸ ?_)
  have hagain : ((Expr.connective .conjunction
      [.external ⟨1, "second", .booleanOne, true⟩ [] true .unknown,
        .external ⟨0, "first", .booleanOne, true⟩ [] false .unknown] .unknown).compile
          fun _ _ _ => .ok ()).value = .ok _ := rfl
  have hnormal : Connective.Normal _ _ := (Expr.compile_settled hagain).node
  exact hnormal.uncombined _

/-- An index with one estimate for all position tests and another for all calls. -/
def positionIndex (tests calls : Nat) : Index where
  info
    | .position _ _ _ => some ⟨tests, false⟩
    | .external _ _ _ _ => some ⟨calls, false⟩
    | _ => none
  lookup _ := .lookup "matches"

/-- The call has the most matches and goes to the end, so the two position tests come to stand next
to each other. Compiled again, they become one. -/
theorem recompiled_merges :
    let call : Expr := .external ⟨0, "g", .booleanOne, true⟩ [] false .unknown
    let e : Expr := .connective .conjunction
      [.position 2 3 .unknown, call, .position 3 5 .unknown] .unknown
    let ctx := CompileContext.start {} .empty
    e.Switchless ∧ (ctx.compile (fun _ _ _ => .ok ()) e).1 = .ok e ∧
      e.markTail.Covered (positionIndex 1 5) true ∧
    ∃ q, (ctx.compileQuery (fun _ _ _ => .ok ()) (some (positionIndex 1 5)) e).1 = .ok q ∧
      q.value.root = .connective .conjunction
        [.position 2 3 .unknown, .position 3 5 .unknown, call] .unknown ∧
      (ctx.compile (fun _ _ _ => .ok ()) q.value.root).1 =
        .ok (.connective .conjunction [.position 3 3 .unknown, call] .unknown) := by
  intro call e ctx
  have hroot : (consultIndex (positionIndex 1 5) true e).value.value.root =
      .connective .conjunction
        [.position 2 3 .unknown, .position 3 5 .unknown, call] .unknown := by cbv
  refine ⟨switchless_connective ?_, rfl, rfl, _, rfl, hroot, hroot ▸ rfl⟩
  simp only [List.forall_mem_cons, List.not_mem_nil, false_implies, implies_true, and_true]
  exact ⟨switchless_position _ _ _, switchless_call _ _ _, switchless_position _ _ _⟩

end QueryExpr
