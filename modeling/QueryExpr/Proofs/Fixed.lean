import QueryExpr.Proofs.NormalForm

/-!
# QueryExpr.Proofs.Fixed

What is settled stays as it is. Compilation repeats two checks that substitution leaves out: that
the operand of a cast is not known to be long, and what external functions ask of their arguments.

* `Expr.Accepted`      — all nodes pass these checks.
* `Expr.compile_fixed` — a settled expression that is accepted compiles to itself.
-/

namespace QueryExpr

/-- A node passes the checks that only compilation makes. -/
def Expr.Passes (checks : Checks) : Expr → Prop
  | .cast e _ _ => e.type.occurs.min ≤ 1
  | .external fn es _ span => checks fn es span = .ok ()
  | _ => True

/-- All nodes of an expression pass the checks that only compilation makes. -/
def Expr.Accepted (checks : Checks) (e : Expr) : Prop := e.Every (Expr.Passes checks)

section
variable {checks : Checks} {c : Connective} {span : Span}

/-! ## Connectives -/

theorem flatMap_flattened {es : List Expr} (h : ∀ e ∈ es, e.kind ≠ c.kind ∧ e.kind ≠ .boolean) :
    es.flatMap (·.flattened c) = es := by
  induction es with
  | nil => rfl
  | cons e es ih =>
    obtain ⟨⟨h₁, h₂⟩, hes⟩ := List.forall_mem_cons.mp h
    rw [List.flatMap_cons, flattened_other h₁ h₂, ih hes]; rfl

theorem selectOperands_fixed {ps : List Piece} (h : c.LiteralLast (operandsOf ps))
    (leading : Bool) : (selectOperands c span ps leading).value = .ok (operandsOf ps) := by
  induction ps generalizing leading with
  | nil => rfl
  | cons p ps ih =>
    cases p with
    | event t => exact ih h leading
    | operand e =>
      cases he : e.literal? with
      | none =>
        rw [selectOperands_operand he, Attempt.value_map,
          ih (h.sublist (List.sublist_cons_self ..)) false]
        rfl
      | some v =>
        have hv := Expr.literal?_eq_some.mp he
        subst hv
        obtain ⟨hn, ha⟩ := h [] v (operandsOf ps) rfl
        cases ha
        simp only [operandsOf, hn]
        cases c <;> rfl

theorem dropDuplicates_fixed {seen es : List Expr}
    (hseen : ∀ e ∈ es, e.isRandom = false → ∀ d ∈ seen, e.same d = false)
    (h : es.Pairwise fun d e => e.isRandom = false → e.same d = false) :
    (dropDuplicates c seen es).value = es := by
  induction es generalizing seen with
  | nil => rfl
  | cons e es ih =>
    obtain ⟨hes, hp⟩ := List.pairwise_cons.mp h
    obtain ⟨he, hseen'⟩ := List.forall_mem_cons.mp hseen
    have hc : (!e.isRandom && seen.any e.same) = false := by
      cases hr : e.isRandom with
      | true => rfl
      | false => simpa using he hr
    simp only [dropDuplicates, hc, Bool.false_eq_true, if_false, Noted.value_map]
    rw [ih (fun f hf hr d hd => ?_) hp]
    rcases List.mem_append.mp hd with hd | hd
    · exact hseen' f hf hr d hd
    · rw [List.mem_singleton.mp hd]; exact hes f hf hr

theorem mergeOnto_fixed {d : Expr} {es : List Expr}
    (h : ∀ ds (a b : Expr) fs, d :: es = ds ++ a :: b :: fs → a.merge? c b = none) :
    (mergeOnto c d es).value = d :: es := by
  induction es generalizing d with
  | nil => rfl
  | cons e es ih =>
    simp only [mergeOnto, h [] d e es rfl, Noted.value_map]
    rw [ih fun ds a b fs he => h (d :: ds) a b fs (by rw [he]; rfl)]

theorem negated?_fixed {es : List Expr} (h : ∃ e ∈ es, e.kind ≠ .negation) :
    negated? es = none := by
  obtain ⟨e, he, hk⟩ := h
  cases hn : negated? es with
  | none => rfl
  | some args =>
    obtain ⟨arg, s, rfl⟩ := negated?_mem hn e he
    exact absurd rfl hk

/-- A connective in normal form is left as it is. -/
theorem optimizeConnective_fixed {es : List Expr} (h : c.Normal es) :
    (optimizeConnective c es span).value = .ok (.connective c es span) := by
  have hops : operandsOf (pieces c es) = es := by
    rw [operandsOf_piecesList, flatMap_flattened h.flat]
  have hlast : c.LiteralLast (operandsOf (pieces c es)) := by
    rw [hops]
    intro ds v fs he
    exact (h.literal_last ds v fs he).2
  have hsel : (selectOperands c span (pieces c es) true).value = .ok es := by
    rw [selectOperands_fixed hlast true, hops]
  have hdup : (dropDuplicates c [] es).value = es :=
    dropDuplicates_fixed (fun _ _ _ d hd => nomatch hd) h.distinct
  have hmerge : (mergeAdjacent c es).value = es := by
    cases es with
    | nil => rfl
    | cons e es => exact mergeOnto_fixed h.unmergeable
  have hstep : (connectiveStep c es span).value = .ok (.done (.connective c es span)) := by
    rw [connectiveStep, Attempt.andThen_of_ok hsel]
    have hl := h.several
    split
    · simp at hl
    · simp at hl
    · rcases combineOperands_cases c es span hdup hmerge with
        ⟨hne, _⟩ | ⟨e, rfl, _⟩ | ⟨args, hargs, _⟩ | ⟨_, _, _, hv⟩
      · exact absurd rfl hne
      · simp at hl
      · rw [negated?_fixed h.mixed] at hargs; cases hargs
      · exact hv
  simp only [optimizeConnective, rounds]
  rw [Attempt.andThen_of_ok hstep]
  rfl

/-! ## Boolean functions -/

theorem optimizeBoolean_fixed {e : Expr} (h : (Expr.call .boolean e span).AtRest) :
    (optimizeBoolean e span).value = .ok (.call .boolean e span) := by
  obtain ⟨hl, hk, ht⟩ := h
  simp only [optimizeBoolean, asCondition_of_kind hk, Attempt.value_after, Noted.value_of]
  split
  · cases hl
  · simp [ht]

theorem optimizeNot_fixed {e : Expr} (h : (Expr.call .not e span).AtRest) :
    (optimizeNot e span).value = .ok (.call .not e span) := by
  obtain ⟨hl, hk, hn⟩ := h
  simp only [optimizeNot, asCondition_of_kind hk, Attempt.value_after, Noted.value_of]
  split
  · cases hl
  · exact absurd rfl hn
  · rfl

/-! ## Other nodes -/

theorem optimizeSwitch_fixed {e d : Expr} {cs : List (Expr × Expr)}
    (h : (Expr.switch e cs d span).AtRest) :
    (optimizeSwitch e cs d span).value = .ok (.switch e cs d span) := by
  simp only [optimizeSwitch]
  split
  · rename_i v
    obtain ⟨i, hi, hc⟩ := h v rfl
    simp only [hi, hc, Attempt.value_ok]
  · rfl

theorem optimize_typeswitch_fixed {e : Expr} {cs : List (CaseHead × Expr)}
    (h : (Expr.typeswitch e cs span).AtRest) :
    (Expr.typeswitch e cs span).optimize.value = .ok (.typeswitch e cs span) := by
  obtain ⟨-, hl, hvac⟩ := h
  simp only [Expr.optimize, optimizeWith, optimizeTypeswitch, hvac]
  split
  · rename_i h; cases h
  · split
    · cases hl
    · rfl

theorem optimizeCast_fixed {e : Expr} {t : SeqType} (h : (Expr.cast e t span).AtRest) :
    (optimizeCast e t span).value = .ok (.cast e t span) := by
  obtain ⟨-, hl, hvoid⟩ := h
  simp only [optimizeCast]
  split
  · cases hl
  · simp [hvoid]

theorem optimizeCompare_fixed {op : CompareOp} {l r : Expr}
    (h : (Expr.compare op l r span).AtRest) :
    (optimizeCompare op l r span).value = .ok (.compare op l r span) := by
  simp only [optimizeCompare]
  split
  · rcases h with h | h <;> cases h
  · rfl

theorem optimizeRange_fixed {b : Bounds} {e : Expr} (h : (Expr.range b e span).AtRest) :
    (optimizeRange b e span).value = .ok (.range b e span) := by
  obtain ⟨hb, hl⟩ := h
  simp only [optimizeRange, hb, Bool.false_eq_true, if_false]
  split
  · cases hl
  · rfl

/-! ## Trees -/

theorem compiled_of_ok {e e' : Expr} (h : (e.compile checks).value = .ok e') :
    e.compiled checks = e' := by
  rw [Expr.compiled, h]; rfl

theorem compileOperands_fixed {es : List Expr}
    (h : ∀ e ∈ es, (e.compile checks).value = .ok e) :
    (compileOperands checks es).value = .ok es := by
  cases es with
  | nil => rfl
  | cons e es =>
    obtain ⟨he, hes⟩ := List.forall_mem_cons.mp h
    rw [compileOperands_of_ok he,
      List.map_congr_left (g := id) fun d hd => compiled_of_ok (hes d hd), List.map_id]

theorem compileCases_fixed {cs : List (Expr × Expr)}
    (h : ∀ p ∈ cs, (p.1.compile checks).value = .ok p.1 ∧ (p.2.compile checks).value = .ok p.2) :
    (compileCases checks cs).value = cs := by
  rw [compileCases_value, List.map_congr_left (g := id) fun p hp => ?_, List.map_id]
  exact Prod.ext (compiled_of_ok (h p hp).1) (compiled_of_ok (h p hp).2)

theorem compileTypeCases_fixed {cs : List (CaseHead × Expr)}
    (h : ∀ p ∈ cs, (p.2.compile checks).value = .ok p.2) :
    (compileTypeCases checks cs).value = cs := by
  rw [compileTypeCases_value, List.map_congr_left (g := id) fun p hp => ?_, List.map_id]
  exact Prod.ext rfl (compiled_of_ok (h p hp))

/-- A settled expression that is accepted compiles to itself. -/
theorem Expr.compile_fixed {e : Expr} (hs : e.Settled) (ha : e.Accepted checks) :
    (e.compile checks).value = .ok e := by
  induction e with
  | connective c es span ih =>
    obtain ⟨hn, hs⟩ := Expr.every_connective.mp hs
    have ha := (Expr.every_connective.mp ha).2
    have hes := compileOperands_fixed fun e he => ih e he (hs e he) (ha e he)
    simp only [Expr.compile]
    rw [Attempt.andThen_of_ok hes, optimizeConnective_fixed hn]
  | switch e cs d span ihe ihcs ihd =>
    obtain ⟨hn, hse, hscs, hsd⟩ := Expr.every_switch.mp hs
    obtain ⟨-, hae, hacs, had⟩ := Expr.every_switch.mp ha
    have hcs : (compileCases checks cs).value = cs := compileCases_fixed fun p hp =>
      ⟨(ihcs p hp).1 (hscs p hp).1 (hacs p hp).1, (ihcs p hp).2 (hscs p hp).2 (hacs p hp).2⟩
    simp only [Expr.compile]
    rw [Attempt.andThen_of_ok (ihe hse hae)]
    simp only [Attempt.andThen_lift, Attempt.parked_value, hcs, ihd hsd had, parkedAs_ok]
    exact optimizeSwitch_fixed hn
  | typeswitch e cs span ihe ihcs =>
    obtain ⟨hn, hse, hscs⟩ := Expr.every_typeswitch.mp hs
    obtain ⟨-, hae, hacs⟩ := Expr.every_typeswitch.mp ha
    have hcs : (compileTypeCases checks cs).value = cs :=
      compileTypeCases_fixed fun p hp => ihcs p hp (hscs p hp) (hacs p hp)
    simp only [Expr.compile, hn.1, if_true]
    rw [Attempt.andThen_of_ok (ihe hse hae)]
    simp only [Attempt.andThen_lift, hcs]
    exact optimize_typeswitch_fixed hn
  | cast e t span ih =>
    obtain ⟨hn, hs⟩ := Expr.every_cast.mp hs
    obtain ⟨hshort, ha⟩ := Expr.every_cast.mp ha
    simp only [Expr.compile, hn.1, if_true]
    rw [Attempt.andThen_of_ok (ih hs ha)]
    simp only [checkedCast, Nat.not_lt.mpr hshort, if_false]
    exact optimizeCast_fixed hn
  | call fn e span ih =>
    obtain ⟨hn, hs⟩ := Expr.every_call.mp hs
    have ha := (Expr.every_call.mp ha).2
    simp only [Expr.compile]
    rw [Attempt.andThen_of_ok (ih hs ha)]
    cases fn with
    | boolean => exact optimizeBoolean_fixed hn
    | not => exact optimizeNot_fixed hn
  | compare op l r span ihl ihr =>
    obtain ⟨hn, hsl, hsr⟩ := Expr.every_compare.mp hs
    obtain ⟨-, hal, har⟩ := Expr.every_compare.mp ha
    simp only [Expr.compile]
    rw [Attempt.andThen_of_ok (ihl hsl hal)]
    simp only [Attempt.andThen_lift, Attempt.parked_value, ihr hsr har, parkedAs_ok]
    exact optimizeCompare_fixed hn
  | range b e span ih =>
    obtain ⟨hn, hs⟩ := Expr.every_range.mp hs
    have ha := (Expr.every_range.mp ha).2
    simp only [Expr.compile]
    rw [Attempt.andThen_of_ok (ih hs ha), optimizeRange_fixed hn]
  | position a b span =>
    have hn : positionConstant? a b = none := Expr.every_position.mp hs
    simp only [Expr.compile, optimizePosition, hn, Attempt.value_ok]
  | literal v => rfl
  | var x span => rfl
  | external fn es tail span ih =>
    have hs := (Expr.every_external.mp hs).2
    obtain ⟨hc, ha⟩ := Expr.every_external.mp ha
    have hes := compileOperands_fixed fun e he => ih e he (hs e he) (ha e he)
    have hc : checks fn es span = .ok () := hc
    simp only [Expr.compile]
    rw [Attempt.andThen_of_ok hes, hc]
    rfl
  | failing c t span => rfl

end

end QueryExpr
