import QueryExpr.Proofs.Comparison
import QueryExpr.Proofs.NormalForm
import QueryExpr.Proofs.Runs

/-!
# QueryExpr.Proofs.Merging

What two neighbours are merged into, next to the two neighbours.

* `Value.compare?_union` — an item of a sequence may be found in one of two sequences, while a
  comparison with both in a row fails before it gets there.
* `merge?_evaluates` — where a connective over two neighbours has a value, what they are merged into
  has it, too, except that a test of several items against several may fail.
-/

namespace QueryExpr

/-! ## Several items -/

namespace Value

variable {op : CompareOp} {u v w : Value}

/-- Comparison with two sequences in a row comes to what two comparisons come to, one after the
other; or it fails, where there are several items to compare and one of them is related to some
other. -/
theorem compare?_union {r : Bool}
    (hr : ((compare? op u v).bind fun x => if x = true then some true else compare? op u w) =
      some r) :
    compare? op u (v ++ w) = some r ∨
      (r = true ∧ 2 ≤ u.length ∧ compare? op u (v ++ w) = none) := by
  by_cases hlen : u.length ≤ 1
  · exact .inl (by rw [compare?_append hlen, hr])
  obtain ⟨x, hx, hr⟩ := Option.bind_eq_some_iff.mp hr
  cases r with
  | false =>
    have hx' : x = false := by cases x <;> simp at hr ⊢
    rw [if_neg (by simp [hx'])] at hr
    refine .inl (compare?_eq_false.mpr fun a ha b hb => ?_)
    rcases List.mem_append.mp hb with hb | hb
    · exact compare?_eq_false.mp (hx' ▸ hx) a ha b hb
    · exact compare?_eq_false.mp hr a ha b hb
  | true =>
    obtain ⟨a, ha, b, hb, hab⟩ : ∃ a ∈ u, ∃ b ∈ v ++ w,
        (a.compare op .unknown b).toOption = some true := by
      split at hr
      · rename_i hx'
        obtain ⟨a, ha, b, hb, h⟩ := compare?_eq_true (hx' ▸ hx)
        exact ⟨a, ha, b, List.mem_append_left _ hb, h⟩
      · obtain ⟨a, ha, b, hb, h⟩ := compare?_eq_true hr
        exact ⟨a, ha, b, List.mem_append_right _ hb, h⟩
    cases hboth : compare? op u (v ++ w) with
    | none => exact .inr ⟨rfl, by omega, rfl⟩
    | some y =>
      cases y with
      | true => exact .inl rfl
      | false =>
        rw [compare?_eq_false.mp hboth a ha b hb] at hab
        cases hab

end Value

/-! ## Two neighbours -/

section
variable {σ : Type} {h : Host σ} {L : Library} {c : Context} {k : Connective} {span : Span}

/-- An expression that is equal to another one repeats it. -/
theorem Library.repeats {e d : Expr} (he : e.Every Expr.IsCanonical) (hd : d.Every Expr.IsCanonical)
    (hsame : e.same d = true) : e.Repeats L.host c d := by
  intro s v s' hv
  have hag := (Expr.alike_of_same e.callsOnly_any he hd hsame).eval
    (L.host_steady.agrees L.host_steady) c s s trivial
  obtain ⟨_, ht, -⟩ := hag.of_ok hv
  exact ⟨rfl, ht⟩

/-- Operands that can be merged yield plain truth values. -/
theorem merge?_plain {a b : Expr} {m : Noted Expr} (hm : a.merge? k b = some m) :
    ∀ e ∈ [a, b], e.YieldsScored L.host (· = .zero) c := by
  have hplain {e : Expr} (he : e.Answers) : e.YieldsScored L.host (· = .zero) c :=
    he.yieldsScored Score.closed_zero
  rcases merge?_cases hm with ⟨_, _, _, _, _, _, _, _, rfl, rfl, rfl, -⟩ |
    ⟨_, _, _, _, _, _, rfl, rfl, rfl, -⟩ | ⟨_, _, _, _, _, _, rfl, rfl, rfl, -⟩ <;>
    exact List.forall_mem_cons.mpr
      ⟨hplain trivial, List.forall_mem_singleton.mpr (hplain trivial)⟩

/-- What they are merged into yields a plain truth value, if it has one. -/
theorem merge?_eval {τ : Type} {g : Host τ} {a b : Expr} {m : Noted Expr}
    (hm : a.merge? k b = some m) {s s' : τ} {t : Truth} (ht : m.value.ebv g c s = (.ok t, s')) :
    t.score = .zero ∧ m.value.eval g c s = (.ok (.ofTruth t), s') := by
  rcases merge?_cases hm with ⟨_, _, _, _, _, _, _, _, -, -, -, -, -, hm⟩ |
    ⟨_, _, _, _, _, _, -, -, -, -, -, -, hm⟩ | ⟨_, _, _, _, _, _, -, -, -, -, -, hm⟩
  · rw [hm] at ht ⊢
    split at ht
    · cases ht; rw [if_pos ‹_›]; exact ⟨rfl, rfl⟩
    · obtain ⟨rfl, f, hf, rfl⟩ := ebv_position.mp ht
      rw [if_neg ‹_›]
      exact ⟨rfl, eval_position.mpr ⟨rfl, f, hf, rfl⟩⟩
  · rw [hm] at ht ⊢
    split at ht
    · cases ht; rw [if_pos ‹_›]; exact ⟨rfl, rfl⟩
    · obtain ⟨u, x, hu, hx, rfl⟩ := ebv_range.mp ht
      rw [if_neg ‹_›]
      exact ⟨rfl, eval_range.mpr ⟨u, x, hu, hx, rfl⟩⟩
  · rw [hm] at ht ⊢
    obtain ⟨u, x, hu, hx, rfl⟩ := ebv_compare.mp ht
    exact ⟨rfl, eval_compare.mpr ⟨u, x, hu, hx, rfl⟩⟩

/-- Under a library, what two neighbours are merged into yields what a connective over them does, if
the merging keeps runs. -/
theorem Connective.Keeps.eval {a b : Expr} {m : Noted Expr} (hm : a.merge? k b = some m)
    (hk : k.Keeps L.host c [a, b] [m.value]) {s s' : Unit} {v : Value}
    (hv : (Expr.connective k [a, b] span).eval L.host c s = (.ok v, s')) :
    m.value.eval L.host c s = (.ok v, s') := by
  have hS := Score.closed_zero
  have hyields := merge?_plain (L := L) (c := c) hm
  have hscore := Connective.yieldsScored hS hyields span s v s' hv
  obtain ⟨t, rfl, hr⟩ := run_of_eval hS L.host_draws hyields hv
  have hr := hk s _ hr
  obtain ⟨t', s₁, ht⟩ := ebv_of_run hr
  rw [run_single_of_ok ht] at hr
  obtain ⟨hst, rfl⟩ := Prod.mk.inj (Option.some.inj hr)
  obtain ⟨hzero, heval⟩ := merge?_eval hm ht
  rw [heval, eq_of_stage hst hzero (Value.scoredIn_ofTruth.mp hscore)]

/-- Two equality tests of one expression, run as a disjunction, come to what the two comparisons of
its value come to. -/
theorem equalities_run {l l' : Expr} (hsame : l.Repeats L.host c l') {v w : Value}
    {span' span'' : Span} {s s' : Unit} {st : Stage}
    (hr : Connective.disjunction.run L.host c
      [.compare .eq l (.literal v) span', .compare .eq l' (.literal w) span''] s = some (st, s')) :
    ∃ u, l.eval L.host c s = (.ok u, s') ∧
      ((u.compare? .eq v).bind fun x => if x = true then some true else u.compare? .eq w) =
        some (st.truth .disjunction) := by
  obtain ⟨a, s₁, ha⟩ := Connective.ebv_of_run hr
  rw [Connective.run_cons_of_ok ha] at hr
  obtain ⟨u, x, hu, hx, rfl⟩ := ebv_compare.mp ha
  refine ⟨u, hu, ?_⟩
  rw [hx, Option.bind_some]
  rw [Connective.stage_plain] at hr
  cases x with
  | true =>
    obtain ⟨rfl, -⟩ := Prod.mk.inj (Option.some.inj hr)
    rfl
  | false =>
    rw [if_neg (by decide)] at hr ⊢
    simp only [Connective.proceed, Connective.afterward_false] at hr
    obtain ⟨b, s₂, hb⟩ := Connective.ebv_of_run hr
    rw [Connective.run_single_of_ok hb] at hr
    obtain ⟨u', y, hu', hy, rfl⟩ := ebv_compare.mp hb
    cases (hsame s u s₁ hu).2.symm.trans hu'
    obtain ⟨rfl, -⟩ := Prod.mk.inj (Option.some.inj hr)
    rw [hy, Connective.truth_stage]
    rfl

/-- A disjunction of two equality tests, under a library: the test against all their literals yields
the same, or fails where several items are compared. -/
theorem equalities_eval {l l' : Expr} (hsame : l.Repeats L.host c l') {v w : Value}
    {span' span'' : Span} {s s' : Unit} {r : Value}
    (hyields : ∀ e ∈ [Expr.compare .eq l (.literal v) span', .compare .eq l' (.literal w) span''],
      e.YieldsScored L.host (· = .zero) c)
    (hv : (Expr.connective .disjunction [.compare .eq l (.literal v) span',
      .compare .eq l' (.literal w) span''] span).eval L.host c s = (.ok r, s')) :
    (Expr.compare .eq l (.literal (v ++ w)) span').eval L.host c s = (.ok r, s') ∨
      (r = .ofBool true ∧ (∃ u, l.eval L.host c s = (.ok u, s') ∧ 2 ≤ u.length) ∧
        ∃ t, (Expr.compare .eq l (.literal (v ++ w)) span').eval L.host c s = (.error t, s')) := by
  have hS := Score.closed_zero
  have hscore := Connective.yieldsScored hS hyields span s r s' hv
  obtain ⟨t, rfl, hr⟩ := Connective.run_of_eval hS L.host_draws hyields hv
  obtain ⟨u, hu, hunion⟩ := equalities_run hsame hr
  rw [Connective.truth_stage] at hunion
  have ht : t = .plain t.value := Truth.eq_plain (Value.scoredIn_ofTruth.mp hscore)
  rcases Value.compare?_union hunion with hboth | ⟨htrue, hlen, hnone⟩
  · refine .inl (eval_compare.mpr ⟨u, t.value, hu, hboth, ?_⟩)
    rw [ht]; rfl
  · refine .inr ⟨by rw [ht, htrue]; rfl, ⟨u, hu, hlen⟩, ?_⟩
    rcases he : (Expr.compare .eq l (.literal (v ++ w)) span').eval L.host c s with ⟨t' | r, s₂⟩
    · exact ⟨t', rfl⟩
    · obtain ⟨u', z, hu', hz, -⟩ := eval_compare.mp he
      cases hu.symm.trans hu'
      rw [hnone] at hz
      cases hz

/-- If a connective over two compiled neighbours has a value, what they are merged into has the same
value; only where it is a test of several items, the connective is true, and some pair of items
cannot be compared, it may fail. Functions may yield what they like as long as it is of their
types. -/
theorem merge?_evaluates (hh : h.Steady L) {checks : Checks} {a b : Expr} {m : Noted Expr}
    (ha : ∃ d : Expr, (d.compile checks).value = .ok a)
    (hb : ∃ d : Expr, (d.compile checks).value = .ok b)
    (hconform : a.Throughout h (Expr.Conforming h) c)
    (hla : a.Every Expr.IsCanonical) (hlb : b.Every Expr.IsCanonical)
    (hm : a.merge? k b = some m) {s s' : σ} {v : Value}
    (hv : (Expr.connective k [a, b] span).eval h c s = (.ok v, s')) (t : σ) :
    (m.value.eval h c t).1 = .ok v ∨
      (v = .ofBool true ∧ ∃ l w span', m.value = .compare .eq l w span' ∧
        (∃ u, (l.eval h c t).1 = .ok u ∧ 2 ≤ u.length) ∧
        ∃ u, (m.value.eval h c t).1 = .error u) := by
  obtain ⟨a₀, ha⟩ := ha
  obtain ⟨b₀, hb⟩ := hb
  have has := Expr.compile_settled ha
  have hbs := Expr.compile_settled hb
  have hsteady := L.host_steady
  obtain ⟨_, hv, -⟩ := (hh.eval_agrees hsteady _ c s () trivial).of_ok hv
  -- What the library evaluates, the host evaluates in any state.
  have hback {e : Expr} {w : Value} (he : e.eval L.host c () = (.ok w, ())) :
      (e.eval h c t).1 = .ok w := by
    obtain ⟨t', ht, -⟩ := (hsteady.eval_agrees hh e c () t trivial).of_ok he
    rw [ht]
  rcases merge?_cases hm with ⟨x, y, span, x', y', span', lo, hi, rfl, rfl, rfl, hlo, hhi, hmv⟩ |
    ⟨x, d, span, x', d', span', rfl, rfl, rfl, hsame, -, hone, hmv⟩ |
    ⟨l, w, span, l', w', span', rfl, rfl, rfl, hsame, -, hmv⟩
  · refine .inl (hback (Connective.Keeps.eval hm ?_ hv))
    rw [hmv]
    exact .positions hlo hhi span' []
  · refine .inl (hback (Connective.Keeps.eval hm ?_ hv))
    have hyieldsOne : d.YieldsOne L.host c := by
      intro s₁ u s₂ hu
      obtain ⟨t', ht, -⟩ := (hsteady.eval_agrees hh d c s₁ t trivial).of_ok hu
      cases hconform with
      | range _ hd =>
        exact length_of_admits hone
          (Expr.eval_conforms hd (Expr.Settled.castsRight (Expr.every_range.mp has).2) ht)
    rw [hmv]
    exact .ranges has.node.1 hbs.node.1 hyieldsOne
      (Library.repeats (Expr.every_range.mp hla).2 (Expr.every_range.mp hlb).2 hsame) span' []
  · have hrepeats := Library.repeats (L := L) (c := c) (Expr.every_compare.mp hla).2.1
      (Expr.every_compare.mp hlb).2.1 hsame
    rcases equalities_eval hrepeats (merge?_plain hm) hv with
      heval | ⟨rfl, ⟨u, hu, hlen⟩, u', hfail⟩
    · exact .inl (hback (hmv ▸ heval))
    · refine .inr ⟨rfl, l, _, span, hmv, ⟨u, hback hu, hlen⟩, ?_⟩
      rcases (hsteady.eval_agrees hh m.value c () t trivial).cases with
        ⟨_, _, e, _, -, hy⟩ | ⟨_, _, _, hx, -⟩
      · exact ⟨e, by rw [hy]⟩
      · rw [hmv] at hx
        cases hfail.symm.trans hx

/-- Two tests of a size are merged into one of the overlap. -/
theorem merge?_evaluates_sizes :
    let size : Expr := .external ⟨0, "size", .one .integer, true⟩ [] false .unknown
    let low : Expr := .range ⟨.ofInt 1, true, .ofInt 5, false⟩ size .unknown
    let high : Expr := .range ⟨.ofInt 3, true, .ofInt 9, false⟩ size .unknown
    let h := Library.host fun _ _ => some [.integer 4]
    ∃ m, low.merge? .conjunction high = some m ∧
      (m.value.eval h (.empty true) ()).1 = .ok (.ofBool true) := by
  intro size low high h
  have hsize : ∀ b : Bounds, b.isEmpty = false →
      ((Expr.range b size .unknown).compile fun _ _ _ => .ok ()).value =
        .ok (.range b size .unknown) := by
    intro b hb
    simp only [Expr.compile, compileOperands, optimizeRange, hb, size]
    rfl
  have hconform : low.Throughout h (Expr.Conforming h) (.empty true) := by
    refine .range trivial (.external (fun vs info s v s' hv => ?_) (by simp))
    cases hv
    rfl
  have hboth : (Expr.connective .conjunction [low, high] .unknown).eval h (.empty true) () =
      (.ok (.ofBool true), ()) :=
    Prod.ext (toOption_eq_some_iff.mp (by decide +kernel)) (Subsingleton.elim _ _)
  refine ⟨_, rfl, ?_⟩
  have hlow := hsize ⟨.ofInt 1, true, .ofInt 5, false⟩ (by decide +kernel)
  have hhigh := hsize ⟨.ofInt 3, true, .ofInt 9, false⟩ (by decide +kernel)
  rcases merge?_evaluates (Library.host_steady _) ⟨low, hlow⟩ ⟨high, hhigh⟩ hconform
    (Expr.every_range.mpr ⟨trivial, Expr.every_external.mpr ⟨trivial, by simp⟩⟩)
    (Expr.every_range.mpr ⟨trivial, Expr.every_external.mpr ⟨trivial, by simp⟩⟩)
    rfl hboth () with hm | ⟨-, l, w, span', hm, -⟩
  · exact hm
  · split at hm <;> cases hm

/-- Of two items one is equal to a number, and the other cannot be compared with a text: each test
stops before that, and the test against both literals does not. -/
theorem merge?_fails_severally :
    let x : Expr := .var ⟨0, "x", none⟩ .unknown
    let a : Expr := .compare .eq x (.literal [.integer 3]) .unknown
    let b : Expr := .compare .eq x (.literal [.string "a"]) .unknown
    let c : Context := (Context.empty true).bind 0 [.integer 5, .integer 3]
    let h := Library.host fun _ _ => none
    (a.compile fun _ _ _ => .ok ()).value = .ok a ∧ (b.compile fun _ _ _ => .ok ()).value = .ok b ∧
      (Expr.connective .disjunction [a, b] .unknown).eval h c () = (.ok (.ofBool true), ()) ∧
      ∃ m t, a.merge? .disjunction b = some m ∧ m.value.eval h c () = (.error t, ()) :=
  ⟨rfl, rfl, rfl, _, _, rfl, rfl⟩

end
end QueryExpr
