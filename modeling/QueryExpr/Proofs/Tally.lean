import QueryExpr.Proofs.Decision
import QueryExpr.Proofs.Muting

/-!
# QueryExpr.Proofs.Tally

The scores of the operands of a connective are combined the same after every rule inside the
operands.

* `Quiet`               — an operand without a score decides a connective or changes nothing.
* `tally?_splice_quiet`, `tally?_splice_start` — operands of a nested connective are combined in the
  place of the whole, if they are quiet, or else nothing in front of it is scored.
* `merge?_tallies`      — a merged operand takes the place of its two parts.
* `OperandRule.tallies` — what operands come to is kept by a rule.
-/

namespace QueryExpr

/-- What an expression yields has no score. -/
def Quiet (L : Library) (m : Bool) (c : Context) (e : Expr) : Prop :=
  ∀ v, e.rank? L m c = some v → v.Unscored

section
variable {checks : Checks} {L : Library} {D : Declarations} {S : Scorers}
  {R : Connective → Expr → Expr → Prop} {m : Bool}
  {k : Connective} {p : Place} {c : Context} {e : Expr}

theorem Quiet.grade? {b : Truth} (he : Quiet L m c e) (hb : e.grade? L m c = some b) :
    b = .plain b.value := by
  obtain ⟨v, hv, hb⟩ := Option.bind_eq_some_iff.mp hb
  exact (he v hv).grade? hb

/-- Operands are quiet in places where scores do not matter, and where no source is. -/
theorem Expr.quiet (he : e.Over (.graded checks L D S)) (hr : e.Ranked R S p) (hc : c.Graded S D)
    (hs : m = true ∨ e.Silent S) : Quiet L m c e :=
  fun _ hv => Expr.rank?_unscored he hr hc hs hv

/-! ## Grades of single nodes -/

theorem grade?_literal {v : Value} (hv : v.Plain) {span : Span} {b : Truth}
    (hb : v.ebv span = .ok b) : (Expr.literal v).grade? L m c = some (.plain b.value) := by
  have hg := v.ebv_grade span
  rw [hb] at hg
  rw [Expr.grade?, Expr.rank?, hv.unscored.kept, Option.bind_some, ← hv.ebv hb]
  exact hg.symm

theorem grade?_literal_error {v : Value} (hv : v.Plain) {span : Span} {t : EvalError}
    (ht : v.ebv span = .error t) : (Expr.literal v).grade? L m c = none := by
  have hg := v.ebv_grade span
  rw [ht] at hg
  rw [Expr.grade?, Expr.rank?, hv.unscored.kept, Option.bind_some]
  exact hg.symm

theorem grade?_ofBool (x : Bool) : (Expr.ofBool x).grade? L m c = some (.plain x) := by
  cases m <;> rfl

theorem grade?_position (a b : Int64) (s : Span) :
    (Expr.position a b s).grade? L m c =
      (c.focus.map fun f => decide (a ≤ f.position) && decide (f.position ≤ b)).map .plain := by
  rw [Expr.grade?, Expr.rank?]
  cases c.focus <;> rfl

theorem grade?_range (b : Bounds) (s : Span) :
    (Expr.range b e s).grade? L m c = ((e.rank? L true c).bind b.test?).map .plain := by
  rw [Expr.grade?, Expr.rank?, Option.bind_assoc]
  cases e.rank? L true c with
  | none => rfl
  | some v => simp only [Option.bind_some]; cases b.test? v <;> rfl

theorem grade?_compare (op : CompareOp) {v : Value} (hv : v.Plain) (s : Span) :
    (Expr.compare op e (.literal v) s).grade? L m c =
      ((e.rank? L true c).bind fun u => u.compare? op v).map .plain := by
  rw [Expr.grade?, Expr.rank?, Option.bind_assoc]
  cases e.rank? L true c with
  | none => rfl
  | some u =>
    simp only [Expr.rank?, Option.bind_some, hv.unscored.kept]
    cases u.compare? op v <;> rfl

/-! ## Adding operands -/

theorem tally?_plain {es : List Expr} {a : Truth} (ha : a.score.Proper) {x : Bool}
    (hx : e.grade? L m c = some (.plain x)) :
    tally? L m k (e :: es) a c = if x = k.absorbing then some none else tally? L m k es a c := by
  rw [tally?_cons, hx, Option.bind_some, Connective.add?_plain ha]
  split <;> rfl

/-- What stands in front does not matter. -/
theorem tally?_append_left {ds es fs : List Expr}
    (hds : ∀ d ∈ ds, ∀ v, d.rank? L m c = some v → v.Proper)
    (h : ∀ a, k.Reached a → tally? L m k ds k.start c = some (some a) →
      ∀ o, tally? L m k es a c = some o → tally? L m k fs a c = some o)
    {o : Option Truth} (ho : tally? L m k (ds ++ es) k.start c = some o) :
    tally? L m k (ds ++ fs) k.start c = some o := by
  rw [tally?_append] at ho ⊢
  obtain ⟨o', ho', ho⟩ := Option.bind_eq_some_iff.mp ho
  rw [ho', Option.bind_some]
  cases o' with
  | none => exact ho
  | some a => exact h a (tally?_reached hds k.start_reached ho' a rfl) ho' o ho

/-- As long as nothing is decided, no operand has decided. -/
theorem tally?_undecided {ds : List Expr} {a a' : Truth}
    (h : tally? L m k ds a c = some (some a')) :
    ∀ d ∈ ds, ∃ b, d.grade? L m c = some b ∧ b ≠ .plain k.absorbing := by
  induction ds generalizing a with
  | nil => exact fun d hd => nomatch hd
  | cons d ds ih =>
    rw [tally?_cons] at h
    obtain ⟨b, hb, h⟩ := Option.bind_eq_some_iff.mp h
    cases hadd : k.add? a b with
    | none => rw [hadd] at h; cases h
    | some a₁ =>
      rw [hadd] at h
      refine List.forall_mem_cons.mpr ⟨⟨b, hb, fun hk => ?_⟩, ih h⟩
      rw [hk, Connective.add?_absorbing] at hadd
      cases hadd

/-- A quiet operand that repeats one of those in front of it changes nothing: the first of the two
has not decided, and so the second does not, either. -/
theorem tally?_repeated {ds fs : List Expr} {d : Expr} (hd : d ∈ ds) (he : Quiet L m c e)
    (hsame : Upholds L m e c d c) {a a' : Truth} (ha : a.score.Proper)
    (hds : tally? L m k ds a' c = some (some a)) {o : Option Truth}
    (ho : tally? L m k (e :: fs) a c = some o) : tally? L m k fs a c = some o := by
  have ho' := ho
  rw [tally?_cons] at ho'
  obtain ⟨b, hb, -⟩ := Option.bind_eq_some_iff.mp ho'
  obtain ⟨b', hb', hne⟩ := tally?_undecided hds d hd
  rw [hsame.grade hb] at hb'
  cases hb'
  obtain ⟨x, rfl⟩ : ∃ x, b = .plain x := ⟨_, he.grade? hb⟩
  rw [tally?_plain ha hb, if_neg fun hk => hne (congrArg Truth.plain hk)] at ho
  exact ho

/-- Quiet operands of a nested connective are added in its place. -/
theorem tally?_splice_quiet {es fs : List Expr} {s : Span} (hes : ∀ e ∈ es, Quiet L m c e)
    {a : Truth} (ha : a.score.Proper) {o : Option Truth}
    (ho : tally? L m k (.connective k es s :: fs) a c = some o) :
    tally? L m k (es ++ fs) a c = some o := by
  rw [tally?_cons, grade?_connective] at ho
  rw [tally?_append, tally?_unscored hes ha k.start_proper.1]
  obtain ⟨b, hb, ho⟩ := Option.bind_eq_some_iff.mp ho
  obtain ⟨o', ho', rfl⟩ := Option.map_eq_some_iff.mp hb
  rw [ho', Option.map_some, Option.bind_some]
  rcases tally?_unscored_cases hes k.start_proper.1 ho' with rfl | rfl
  · rw [Connective.outcome, Option.getD_none, Connective.add?_absorbing] at ho
    exact ho
  · have hk : ¬ (!k.absorbing) = k.absorbing := by cases k <;> decide
    rw [Connective.outcome, Option.getD_some, Connective.start, Connective.add?_plain ha,
      if_neg hk] at ho
    exact ho

/-- All operands of a nested connective are added in its place, if nothing was added before. -/
theorem tally?_splice_start {es fs : List Expr} {s : Span}
    (hes : ∀ e ∈ es, ∀ v, e.rank? L m c = some v → v.Proper) {o : Option Truth}
    (ho : tally? L m k (.connective k es s :: fs) k.start c = some o) :
    tally? L m k (es ++ fs) k.start c = some o := by
  rw [tally?_cons, grade?_connective] at ho
  rw [tally?_append]
  obtain ⟨b, hb, ho⟩ := Option.bind_eq_some_iff.mp ho
  obtain ⟨o', ho', rfl⟩ := Option.map_eq_some_iff.mp hb
  rw [ho', Option.bind_some]
  cases o' with
  | none =>
    rw [Connective.outcome, Option.getD_none, Connective.add?_absorbing] at ho
    exact ho
  | some a =>
    rw [Connective.outcome, Option.getD_some,
      Connective.add?_start (tally?_reached hes k.start_reached ho' a rfl)] at ho
    exact ho

/-! ## Merging -/

/-- The test of the overlap of two intervals of positions. -/
theorem grade?_positions {i j i' j' lo hi : Int64} (hlo : lo = if i < i' then i' else i)
    (hhi : hi = if j' < j then j' else j) {s : Span} {f : Focus} (hf : c.focus = some f) :
    (if hi < lo then Expr.ofBool false else Expr.position lo hi s).grade? L m c =
      some (.plain ((decide (i ≤ f.position) && decide (f.position ≤ j)) &&
        (decide (i' ≤ f.position) && decide (f.position ≤ j')))) := by
  rw [← within_overlap hlo hhi]
  split
  · rename_i hlt
    rw [within_crossed hlt, grade?_ofBool]
  · rw [grade?_position, hf, Option.map_some, Option.map_some]

/-- The test of the overlap of two intervals of numbers. -/
theorem grade?_ranges {b b' : Bounds} (hb : b.isEmpty = false) (hb' : b'.isEmpty = false)
    {s : Span} {v : Value} (hv : e.rank? L true c = some v) (hlen : v.length ≤ 1) {x : Bool}
    (hx : b.test? v = some x) :
    ∃ y, b'.test? v = some y ∧ (if (b.inter b').isEmpty then Expr.ofBool false
      else Expr.range (b.inter b') e s).grade? L m c = some (.plain (x && y)) := by
  obtain ⟨y, hy, hxy⟩ := Bounds.test?_inter hb hb' hlen hx
  refine ⟨y, hy, ?_⟩
  split
  · rename_i hemp
    rw [Bounds.test?_of_isEmpty hemp hxy, grade?_ofBool]
  · rw [grade?_range, hv, Option.bind_some, hxy, Option.map_some]

/-- One operand in the place of two, none of them scored. -/
theorem tally?_merged {d e f : Expr} {fs : List Expr} {a : Truth} (ha : a.score.Proper)
    {x y : Option Bool} (hd : d.grade? L m c = x.map .plain) (he : e.grade? L m c = y.map .plain)
    (h₁ : x = some k.absorbing → f.grade? L m c = some (.plain k.absorbing))
    (h₂ : ∀ b, x = some (!k.absorbing) → y = some b → f.grade? L m c = some (.plain b))
    {o : Option Truth} (ho : tally? L m k (d :: e :: fs) a c = some o) :
    tally? L m k (f :: fs) a c = some o := by
  cases x with
  | none =>
    rw [tally?_cons, hd] at ho
    cases ho
  | some x =>
    rw [tally?_plain ha hd] at ho
    by_cases hk : x = k.absorbing
    · rw [if_pos hk] at ho
      rw [tally?_plain ha (h₁ (congrArg some hk)), if_pos rfl]
      exact ho
    · rw [if_neg hk] at ho
      have hx : x = !k.absorbing := by cases x <;> cases hk' : k.absorbing <;> simp [hk'] at hk ⊢
      cases y with
      | none =>
        rw [tally?_cons, he] at ho
        cases ho
      | some y =>
        rw [tally?_plain ha he] at ho
        rw [tally?_plain ha (h₂ y (congrArg some hx) rfl)]
        exact ho

/-- A merged operand takes the place of its two parts. -/
theorem merge?_tallies {d e : Expr} {n : Noted Expr} {fs : List Expr} (hd : d.AtRest)
    (he : e.AtRest) (hdo : d.Over (.graded checks L D S)) (heo : e.Over (.graded checks L D S))
    (hc : c.Graded S D) (hm : d.merge? k e = some n) {a : Truth} (ha : a.score.Proper)
    {o : Option Truth} (ho : tally? L m k (d :: e :: fs) a c = some o) :
    tally? L m k (n.value :: fs) a c = some o := by
  rcases merge?_cases hm with ⟨i, j, s, i', j', s', lo, hi, rfl, rfl, rfl, hlo, hhi, hm⟩ |
    ⟨b, d', s, b', e', s', rfl, rfl, rfl, hs, _, ht, hm⟩ |
    ⟨l, v, s, l', w, s', rfl, rfl, rfl, hs, _, hm⟩
  · refine tally?_merged ha (grade?_position i j s) (grade?_position i' j' s') (fun hx => ?_)
      (fun y hx hy => ?_) ho
    · obtain ⟨f, hf, hx⟩ := Option.map_eq_some_iff.mp hx
      rw [hm, grade?_positions hlo hhi hf, hx]
      rfl
    · obtain ⟨f, hf, hx⟩ := Option.map_eq_some_iff.mp hx
      rw [hf, Option.map_some, Option.some.injEq] at hy
      rw [hm, grade?_positions hlo hhi hf, hx, hy]
      rfl
  · have hdo' := (Expr.every_range.mp hdo).2
    have hsame : Upholds L true d' c e' c := .same id hdo' (Expr.every_range.mp heo).2 hs
    -- The two tests of one value, which is of one item at most.
    have hboth {u : Value} {x : Bool} (hu : d'.rank? L true c = some u) (hx : b.test? u = some x) :
        ∃ y, b'.test? u = some y ∧ n.value.grade? L m c = some (.plain (x && y)) :=
      hm ▸ grade?_ranges hd.1 he.1 hu
        (length_of_admits ht (Expr.rank?_admits hdo' hc.conforms hu)) hx
    refine tally?_merged ha (grade?_range b s) (grade?_range b' s') (fun hx => ?_)
      (fun y hx hy => ?_) ho
    · obtain ⟨u, hu, hx⟩ := Option.bind_eq_some_iff.mp hx
      obtain ⟨y, -, hxy⟩ := hboth hu hx
      exact hxy
    · obtain ⟨u, hu, hx⟩ := Option.bind_eq_some_iff.mp hx
      obtain ⟨y', hy', hxy⟩ := hboth hu hx
      rw [hsame u hu, Option.bind_some, hy', Option.some.injEq] at hy
      rw [hxy, hy]
      rfl
  · obtain ⟨hl, hlo, hv⟩ := Expr.every_compare.mp hdo
    obtain ⟨-, hlo', hw⟩ := Expr.every_compare.mp heo
    have hv : v.Plain := Expr.every_literal.mp hv
    have hw : w.Plain := Expr.every_literal.mp hw
    have hsame : Upholds L true l c l' c := .same id hlo hlo' hs
    -- The comparison of one item at most with both sequences.
    have hboth {u : Value} {x : Bool} (hu : l.rank? L true c = some u)
        (hx : u.compare? .eq v = some x) :
        n.value.grade? L m c =
          ((if x = true then some true else u.compare? .eq w) : Option Bool).map .plain := by
      have hlen := length_of_admits (hl rfl) (Expr.rank?_admits hlo hc.conforms hu)
      rw [hm, grade?_compare _ (hv.append hw), hu, Option.bind_some, Value.compare?_append hlen, hx,
        Option.bind_some]
    refine tally?_merged ha (grade?_compare _ hv s) (grade?_compare _ hw s') (fun hx => ?_)
      (fun y hx hy => ?_) ho
    · obtain ⟨u, hu, hx⟩ := Option.bind_eq_some_iff.mp hx
      exact hboth hu hx
    · obtain ⟨u, hu, hx⟩ := Option.bind_eq_some_iff.mp hx
      rw [hsame u hu, Option.bind_some] at hy
      exact (hboth hu hx).trans (congrArg (Option.map Truth.plain) hy)

/-! ## Rules -/

/-- What operands come to is kept by a rule inside the operands. -/
theorem OperandRule.tallies {span : Span} {es fs : List Expr} (h : OperandRule k span es fs)
    (hes : ∀ e ∈ es, e.Over (.graded checks L D S))
    (hr : (Expr.connective k es span).Ranked (Distinct checks S) S p) (hc : c.Graded S D)
    {o : Option Truth} (ho : tally? L p.mutes k es k.start c = some o) :
    tally? L p.mutes k fs k.start c = some o := by
  have proper {es : List Expr} (hes : ∀ e ∈ es, e.Over (.graded checks L D S)) :
      ∀ e ∈ es, ∀ v, e.rank? L p.mutes c = some v → v.Proper :=
    fun e he v hv => Expr.rank?_proper (hes e he) hc.proper hv
  obtain ⟨hranked, hdistinct⟩ := hr.operands
  cases h with
  | @unwrap ds fs e s =>
    refine tally?_append_left (proper fun e he => hes e (List.mem_append_left _ he))
      (fun a _ _ o ho => ?_) ho
    rw [tally?_cons, grade?_boolean] at ho
    rw [tally?_cons]
    exact ho
  | @splice ds es fs s =>
    rw [List.append_assoc]
    simp only [List.forall_mem_append, List.forall_mem_cons] at hes hranked
    have hin := (Expr.every_connective.mp hes.2.1).2
    refine tally?_append_left (proper hes.1) (fun a ha hds o ho => ?_) ho
    by_cases hs : p.mutes = true ∨ (Expr.connective k es s).Silent S
    · refine tally?_splice_quiet (fun e he => ?_) ha.1.1 ho
      exact Expr.quiet (hin e he) (hranked.2.1.part he) hc (hs.imp_right fun h => h.part he)
    · -- The nested connective is scored, so that nothing in front of it is.
      obtain ⟨hm, hs⟩ := not_or.mp hs
      have hp := Place.eq_exposed (Bool.eq_false_iff.mpr hm)
      have hquiet : ∀ d ∈ ds, Quiet L p.mutes c d := by
        intro d hd
        have hd' := (List.pairwise_append.mp (hdistinct hp)).2.2 d hd _ (List.mem_cons_self ..)
        have hsilent := hd'.flat.resolve_right fun h => hs (h es s (.refl _))
        exact Expr.quiet (hes.1 d hd) (hranked.1 d hd) hc (.inr hsilent)
      obtain rfl : a = k.start := by
        rcases tally?_unscored_cases hquiet k.start_proper.1 hds with h | h
        · cases h
        · exact Option.some.inj h
      exact tally?_splice_start (proper hin) ho
  | @neutral ds fs v b hv hn =>
    simp only [List.forall_mem_append, List.forall_mem_cons] at hes
    have hp : v.Plain := Expr.every_literal.mp hes.2.1
    have hk : ¬ b.value = k.absorbing := by rw [hn]; cases k <;> decide
    refine tally?_append_left (proper hes.1) (fun a ha _ o ho => ?_) ho
    rw [tally?_plain ha.1.1 (grade?_literal hp hv), if_neg hk] at ho
    exact ho
  | @decided ds fs v b hv hd =>
    simp only [List.forall_mem_append, List.forall_mem_cons] at hes
    have hp : v.Plain := Expr.every_literal.mp hes.2.1
    refine tally?_append_left (proper hes.1) (fun a ha _ o ho => ?_) ho
    rw [tally?_plain ha.1.1 (grade?_literal hp hv), if_pos hd] at ho
    rw [tally?_plain ha.1.1 (grade?_ofBool _), if_pos rfl]
    exact ho
  | @undefined ds fs v t ht =>
    simp only [List.forall_mem_append, List.forall_mem_cons] at hes
    have hp : v.Plain := Expr.every_literal.mp hes.2.1
    refine tally?_append_left (proper hes.1) (fun a _ _ o ho => ?_) ho
    rw [tally?_cons, grade?_literal_error hp ht] at ho
    cases ho
  | @unreached ds fs t type s =>
    simp only [List.forall_mem_append, List.forall_mem_cons] at hes
    refine tally?_append_left (proper hes.1) (fun a _ _ o ho => ?_) ho
    rw [tally?_cons] at ho
    cases ho
  | @duplicate ds fs d e hrandom hd hs =>
    simp only [List.forall_mem_append, List.forall_mem_cons] at hes hranked
    refine tally?_append_left (proper hes.1) (fun a ha hds o ho => ?_) ho
    have hquiet : Quiet L p.mutes c e := by
      refine Expr.quiet hes.2.1 hranked.2.1 hc ?_
      cases hm : p.mutes with
      | true => exact .inl rfl
      | false =>
        have hp := hdistinct (Place.eq_exposed hm)
        have hde := (List.pairwise_append.mp hp).2.2 d hd e (List.mem_cons_self ..)
        exact .inr (hde.same d e (.refl d) (.refl e) hrandom hs)
    exact tally?_repeated hd hquiet (.same id hes.2.1 (hes.1 d hd) hs) ha.1.1 hds ho
  | @merged ds fs d e n hd he hm =>
    simp only [List.forall_mem_append, List.forall_mem_cons] at hes hranked
    refine tally?_append_left (proper hes.1) (fun a ha _ o ho => ?_) ho
    exact merge?_tallies hd he hes.2.1 hes.2.2.1 hc hm ha.1.1 ho

/-- Negations come to the opposite of what their arguments come to under the opposite connective. -/
theorem tally?_negated {es args : List Expr} (h : negated? es = some args)
    (hargs : ∀ a ∈ args, Quiet L true c a) :
    tally? L m k es k.start c =
      (tally? L true k.opposite args k.opposite.start c).map (·.map fun _ => k.start) := by
  have hopp (x : Bool) : x = k.opposite.absorbing ↔ (!x) = k.absorbing := by
    cases k <;> cases x <;> decide
  induction es generalizing args with
  | nil => cases h; rw [tally?, tally?]; rfl
  | cons e es ih =>
    obtain ⟨arg, s, args', rfl, ha, rfl⟩ := negated?_cons h
    obtain ⟨harg, hargs⟩ := List.forall_mem_cons.mp hargs
    cases hb : arg.grade? L true c with
    | none => rw [tally?_cons, tally?_cons, grade?_not, hb]; rfl
    | some b =>
      obtain ⟨x, rfl⟩ : ∃ x, b = .plain x := ⟨_, harg.grade? hb⟩
      have hnot : (Expr.call .not arg s).grade? L m c = some (.plain !x) := by
        rw [grade?_not, hb]; rfl
      rw [tally?_plain k.start_proper.1 hnot, tally?_plain k.opposite.start_proper.1 hb,
        ih ha hargs]
      by_cases hx : (!x) = k.absorbing
      · rw [if_pos hx, if_pos ((hopp x).mpr hx)]; rfl
      · rw [if_neg hx, if_neg fun h => hx ((hopp x).mp h)]

end

end QueryExpr
