import QueryExpr.Proofs.Preservation
import QueryExpr.Proofs.Tally

/-!
# QueryExpr.Proofs.Relevance

Compilation keeps scores.

* `Rule.ranks`           — a rule at the root of a ranked expression keeps its value and its scores.
* `Rewrites.ranks`       — so do rules applied anywhere, in any order.
* `compile_keeps_scores` — a ranked expression that yields something compiles, and what the compiled
  expression yields is the same, scores included.
-/

namespace QueryExpr

/-- An attempt has an expression that yields a value, or what is left of it without its scores. -/
def Ranks (L : Library) (m : Bool) (c : Context) (r : Except CompileError Expr) (v : Value) :
    Prop :=
  ∃ e, r = .ok e ∧ e.rank? L m c = some v

section
variable {checks : Checks} {L : Library} {D : Declarations} {S : Scorers}
  {R : Connective → Expr → Expr → Prop} {m : Bool} {p q : Place} {c : Context} {e : Expr}

theorem Ranks.ok {v : Value} (h : e.rank? L m c = some v) : Ranks L m c (.ok e) v := ⟨e, rfl, h⟩

/-- What comes to light yields there what it has yielded where it was hidden. -/
theorem Expr.rank?_surfaced (he : e.Over (.graded checks L D S)) (hr : e.Ranked R S q)
    (hc : c.Graded S D) (hq : p = .exposed → q = .hidden) :
    e.rank? L p.mutes c = e.rank? L true c := by
  cases hm : p.mutes with
  | true => rfl
  | false =>
    have hq := hq (Place.eq_exposed hm)
    subst hq
    exact (Expr.rank?_hidden he hr hc).symm

/-! ## Branches -/

/-- What a choice that is known before a switch runs yields. -/
def Choice.rank? (L : Library) (m : Bool) (c : Context) (default : Option Value) :
    Except EvalError Choice → Option Value → Prop
  | .error _, o => o = none
  | .ok .unknown, _ => True
  | .ok .fallback, o => o = default
  | .ok (.branch r), o => o = r.rank? L m c

theorem chooseCase_rank? (i : Option Item) (span : Span) {cs : List (Expr × Expr)}
    (hcs : ∀ q ∈ cs, q.1.Over (.graded checks L D S)) (o : Option Value) :
    Choice.rank? L m c o (chooseCase i span cs) (caseRank? L m i o cs c) := by
  induction cs with
  | nil => rfl
  | cons q cs ih =>
    obtain ⟨e, r⟩ := q
    obtain ⟨he, hrest⟩ := List.forall_mem_cons.mp hcs
    cases e with
    | literal w =>
      have hp : w.Plain := Expr.every_literal.mp he
      simp only [chooseCase, caseRank?, Expr.rank?, hp.unscored.kept, Option.bind_some]
      rcases w.single_cases span with ⟨t, hj, hi⟩ | ⟨j, hj, hi⟩
      · simp only [hj, hi]; rfl
      · simp only [hj, hi, Option.bind_some]
        by_cases hm : matchesCase i j = true
        · simp only [hm, if_true]; rfl
        · simp only [hm, Bool.false_eq_true, if_false]
          exact ih hrest
    | _ => trivial

theorem typeCaseRank?_find {v : Value} {cs : List (CaseHead × Expr)} {q : CaseHead × Expr}
    (h : cs.find? (fun c => c.1.admits v) = some q) :
    typeCaseRank? L m v cs c = q.2.rank? L m (q.1.bind v c) := by
  induction cs with
  | nil => cases h
  | cons q' cs ih =>
    rw [typeCaseRank?]
    by_cases hq : q'.1.admits v = true
    · rw [List.find?_cons_of_pos (by simpa using hq)] at h
      cases h
      rw [if_pos hq]
    · rw [List.find?_cons_of_neg (by simpa using hq)] at h
      rw [if_neg hq, ih h]

/-! ## Nodes over literals -/

theorem Expr.rank?_literal {v : Value} (hv : v.Unscored) :
    (Expr.literal v).rank? L m c = some v := by
  rw [Expr.rank?, hv.kept]

theorem rank?_cast_literal {v : Value} (hv : v.Plain) (t : SeqType) (span : Span) :
    (Expr.cast (.literal v) t span).rank? L m c = v.cast? t := by
  rw [Expr.rank?, Expr.rank?_literal hv.unscored, Option.bind_some]

theorem rank?_compare_literals {v w : Value} (hv : v.Plain) (hw : w.Plain) (op : CompareOp)
    (span : Span) :
    (Expr.compare op (.literal v) (.literal w) span).rank? L m c =
      (v.compare? op w).map .ofBool := by
  rw [Expr.rank?, Expr.rank?_literal hv.unscored, Expr.rank?_literal hw.unscored, Option.bind_some,
    Option.bind_some]

theorem rank?_range_literal {v : Value} (hv : v.Plain) (b : Bounds) (span : Span) :
    (Expr.range b (.literal v) span).rank? L m c = (b.test? v).map .ofBool := by
  rw [Expr.rank?, Expr.rank?_literal hv.unscored, Option.bind_some]

/-- A switch on a value that is no sequence yields what is chosen before it runs. -/
theorem rank?_switch_literal {v : Value} {span : Span} {i : Option Item} {cs : List (Expr × Expr)}
    {d : Expr} (he : (Expr.switch (.literal v) cs d span).Over (.graded checks L D S))
    (hi : v.single? span = .ok i) :
    Choice.rank? L m c (d.rank? L m c) (chooseCase i span cs)
      ((Expr.switch (.literal v) cs d span).rank? L m c) := by
  obtain ⟨-, hv, hcs, -⟩ := Expr.every_switch.mp he
  rw [Expr.rank?, Expr.rank?_literal (Expr.every_literal.mp hv).unscored, Option.bind_some,
    toOption_eq_some (Value.single_toOption _ _) hi, Option.bind_some]
  exact chooseCase_rank? i span (fun q hq => (hcs q hq).1) _

/-- A typeswitch on a value is the result of the first case that admits it. -/
theorem rank?_typeswitch_literal {v : Value} {cs : List (CaseHead × Expr)} {span : Span}
    {head : CaseHead} {r : Expr} (h : cs.find? (fun c => c.1.admits v) = some (head, r)) :
    (Expr.typeswitch (.literal v) cs span).rank? L m c = r.rank? L m (head.bind v c) := by
  rw [Expr.rank?, Expr.rank?]
  exact typeCaseRank?_find h

/-! ## Nodes that rules replace -/

theorem rank?_core (fn : Builtin) (e : Expr) (s span : Span) :
    (Expr.call fn (.call .boolean e s) span).rank? L m c = (Expr.call fn e span).rank? L m c := by
  cases fn with
  | boolean => rw [rank?_boolean, grade?_boolean, ← rank?_boolean]
  | not => rw [rank?_not, grade?_boolean, ← rank?_not]

theorem rank?_call_error {v : Value} (hv : v.Plain) {span : Span} {t : EvalError}
    (ht : v.ebv span = .error t) (fn : Builtin) (s : Span) :
    (Expr.call fn (.literal v) s).rank? L m c = none := by
  cases fn with
  | boolean => rw [rank?_boolean, grade?_literal_error hv ht, Option.map_none]
  | not => rw [rank?_not, grade?_literal_error hv ht, Option.map_none]

/-- The truth of one operand is all that a connective adds up. -/
theorem rank?_singleOperand {k : Connective} {s : Span} {v : Value}
    (he : e.Over (.graded checks L D S)) (hc : c.Graded S D)
    (hv : (Expr.connective k [e] s).rank? L m c = some v) :
    (Expr.call .boolean e s).rank? L m c = some v := by
  rw [rank?_connective, tally?_cons] at hv
  obtain ⟨o, ho, rfl⟩ := Option.map_eq_some_iff.mp hv
  obtain ⟨b, hb, ho⟩ := Option.bind_eq_some_iff.mp ho
  obtain ⟨w, hw, hb'⟩ := Option.bind_eq_some_iff.mp hb
  have hproper := (Expr.rank?_proper he hc.proper hw).grade? hb'
  have hout : o = k.add? k.start b := by
    rw [← Option.some.injEq, ← ho]
    cases k.add? k.start b with
    | none => rfl
    | some a => rw [Option.elim_some, tally?]
  rw [rank?_boolean, hb, Option.map_some, hout, Connective.outcome_one hproper]

/-- Negated operands are the negation of what the opposite connective adds up, as negations have no
scores. -/
theorem rank?_negations {k : Connective} {es args : List Expr} (hn : negated? es = some args)
    (hquiet : ∀ a ∈ args, Quiet L true c a) (s : Span) :
    (Expr.connective k es s).rank? L m c =
      (Expr.call .not (.connective k.opposite args s) s).rank? L m c := by
  rw [rank?_connective, tally?_negated hn hquiet, Option.map_map, rank?_not, grade?_connective,
    Option.map_map]
  cases ho : tally? L true k.opposite args k.opposite.start c with
  | none => rfl
  | some o =>
    rcases tally?_unscored_cases hquiet k.opposite.start_proper.1 ho with rfl | rfl <;>
      cases k <;> rfl

/-- What is statically one boolean is its own truth. -/
theorem rank?_of_isBoolean {span : Span} {v : Value} (he : e.Over (.graded checks L D S))
    (hc : c.Graded S D) (ht : e.type = .booleanOne)
    (hv : (Expr.call .boolean e span).rank? L m c = some v) : e.rank? L m c = some v := by
  rw [rank?_boolean] at hv
  obtain ⟨b, hb, rfl⟩ := Option.map_eq_some_iff.mp hv
  obtain ⟨w, hw, hb⟩ := Option.bind_eq_some_iff.mp hb
  have hadm := Expr.rank?_admits he hc.conforms hw
  rw [ht] at hadm
  obtain ⟨b', rfl⟩ := SeqType.booleanOne_admits hadm
  cases hb
  exact hw

/-- Twice negated, an expression that is without scores when they are hidden is its own truth. -/
theorem rank?_of_doubleNegation {s span : Span} {v : Value} (hquiet : Quiet L true c e)
    (hsame : e.rank? L m c = e.rank? L true c)
    (hv : (Expr.call .not (.call .not e s) span).rank? L m c = some v) :
    (Expr.call .boolean e span).rank? L m c = some v := by
  rw [rank?_not, grade?_not, Option.map_map] at hv
  obtain ⟨b, hb, rfl⟩ := Option.map_eq_some_iff.mp hv
  rw [rank?_boolean, Expr.grade?, hsame, ← Expr.grade?, hb, hquiet.grade? hb]
  change some (Value.ofBool b.value) = some (.ofBool !!b.value)
  rw [Bool.not_not]

/-- A cast that does nothing yields what its operand yields without scores. -/
theorem rank?_of_castVoid {t : SeqType} {span : Span} {v : Value}
    (he : e.Over (.graded checks L D S)) (hr : e.Ranked R S q) (hc : c.Graded S D)
    (ht : t.IsPlainTarget) (hvoid : castIsVoid e.type t = true)
    (hv : (Expr.cast e t span).rank? L m c = some v) : e.rank? L true c = some v := by
  obtain ⟨u, hu, hv⟩ := Option.bind_eq_some_iff.mp hv
  have hadm := Expr.rank?_admits he hc.conforms hu
  have hun := Expr.rank?_unscored he hr hc (.inl rfl) hu
  rw [Value.cast?_elided ht.1 ht.2.2.2 hvoid hadm hun] at hv
  cases hv
  exact hu

/-- A typeswitch all of whose results are empty yields the empty sequence, if anything. -/
theorem rank?_vacuous {cs : List (CaseHead × Expr)} {span : Span} {v : Value}
    (he : (Expr.typeswitch e cs span).Over (.graded checks L D S))
    (hr : (Expr.typeswitch e cs span).Ranked R S p) (hc : c.Graded S D)
    (hvac : ∀ q ∈ cs, q.2.isVacuous = true)
    (hv : (Expr.typeswitch e cs span).rank? L m c = some v) : v = [] := by
  obtain ⟨u, hu, hv⟩ := Option.bind_eq_some_iff.mp hv
  obtain ⟨q, hq, hadm, hv⟩ := typeCaseRank?_result hv
  have heq := (Expr.every_typeswitch.mp he).2.2 q hq
  have hv' := Expr.rank?_admits heq (hc.bindCase he hr hu hq hadm).conforms hv
  exact SeqType.eq_nil_of_isEmpty (Expr.isEmpty_of_isVacuous (hvac q hq)) hv'

/-! ## Rules -/

theorem Ranks.literal {v : Value} (hv : v.Unscored) : Ranks L m c (.ok (.literal v)) v :=
  .ok (Expr.rank?_literal hv)

theorem Ranks.ofBool (b : Bool) : Ranks L m c (.ok (.ofBool b)) (.ofBool b) :=
  .literal (Value.unscored_ofBool b)

/-- A rule at the root of a ranked expression keeps its value, scores included. -/
theorem Rule.ranks {r : Except CompileError Expr} (h : Rule checks e r)
    (he : e.Over (.graded checks L D S)) (hr : e.Ranked (Distinct checks S) S p)
    (hc : c.Graded S D) (hp : c.Counts e) {v : Value} (hv : e.rank? L p.mutes c = some v) :
    Ranks L p.mutes c r v := by
  cases h with
  | @operands k es fs span h =>
    rw [rank?_connective] at hv
    obtain ⟨o, ho, rfl⟩ := Option.map_eq_some_iff.mp hv
    refine .ok ?_
    rw [rank?_connective, h.tallies (Expr.every_connective.mp he).2 hr hc ho, Option.map_some]
  | undefinedFirst ht =>
    have hl := (Expr.every_connective.mp he).2 _ (List.mem_cons_self ..)
    rw [rank?_connective, tally?_cons, grade?_literal_error (Expr.every_literal.mp hl) ht] at hv
    cases hv
  | @noOperand k span =>
    rw [rank?_connective, tally?] at hv
    cases hv
    exact .ofBool _
  | @decidedOperand k span =>
    rw [rank?_connective, tally?_plain k.start_proper.1 (grade?_ofBool _), if_pos rfl] at hv
    cases hv
    exact .ofBool _
  | @singleOperand k e span =>
    have heo := (Expr.every_connective.mp he).2 e (List.mem_singleton_self e)
    exact .ok (rank?_singleOperand heo hc hv)
  | @negations k es args span _ hn =>
    have heo : ∀ a ∈ args, a.Over (.graded checks L D S) :=
      negated?_args hn fun a s ha =>
        (Expr.every_call.mp ((Expr.every_connective.mp he).2 _ ha)).2
    have hargs : ∀ a ∈ args, a.Ranked (Distinct checks S) S p.negated :=
      negated?_args hn fun a s ha => by cases hr.operands.1 _ ha; assumption
    have hquiet (a : Expr) (ha : a ∈ args) : Quiet L true c a :=
      Expr.quiet (heo a ha) (hargs a ha) hc (.inl rfl)
    exact .ok (rank?_negations hn hquiet span ▸ hv)
  | core => exact .ok (rank?_core .. ▸ hv)
  | undefinedArgument ht =>
    have hw : Value.Plain _ := Expr.every_literal.mp (Expr.every_call.mp he).2
    rw [rank?_call_error hw ht] at hv
    cases hv
  | @booleanLiteral w span b hb =>
    have hw : w.Plain := Expr.every_literal.mp (Expr.every_call.mp he).2
    rw [rank?_boolean, grade?_literal hw hb, ← hw.ebv hb] at hv
    cases hv
    rw [hw.ebv hb]
    exact .ofBool _
  | @notLiteral w span b hb =>
    have hw : w.Plain := Expr.every_literal.mp (Expr.every_call.mp he).2
    rw [rank?_not, grade?_literal hw hb] at hv
    cases hv
    exact .ofBool _
  | isBoolean ht => exact .ok (rank?_of_isBoolean (Expr.every_call.mp he).2 hc ht hv)
  | @doubleNegation e s span =>
    have heo := (Expr.every_call.mp (Expr.every_call.mp he).2).2
    have hre : e.Ranked (Distinct checks S) S p.negated.negated := by
      cases hr with | not hr => cases hr; assumption
    have hsame := Expr.rank?_surfaced (p := p) heo hre hc fun h => by rw [h]; rfl
    exact .ok (rank?_of_doubleNegation (Expr.quiet heo hre hc (.inl rfl)) hsame hv)
  | castTarget ht =>
    rw [(Expr.every_cast.mp he).1.1] at ht
    cases ht
  | castLong hlong =>
    obtain ⟨u, hu, hv⟩ := Option.bind_eq_some_iff.mp hv
    have hadm := Expr.rank?_admits (Expr.every_cast.mp he).2 hc.conforms hu
    rw [Value.cast?_long hadm hlong] at hv
    cases hv
  | castLiteral hu =>
    have hw : Value.Plain _ := Expr.every_literal.mp (Expr.every_cast.mp he).2
    rw [rank?_cast_literal hw, toOption_eq_some (Value.cast_toOption _ _ _) hu] at hv
    cases hv
    exact .literal (Value.cast_unscored hu)
  | castFails hu =>
    have hw : Value.Plain _ := Expr.every_literal.mp (Expr.every_cast.mp he).2
    rw [rank?_cast_literal hw, toOption_eq_none (Value.cast_toOption _ _ _) hu] at hv
    cases hv
  | @castVoid e t span hvoid =>
    obtain ⟨ht, heo⟩ := Expr.every_cast.mp he
    have hre : e.Ranked (Distinct checks S) S (p.cast t) := by cases hr; assumption
    have helide : t.atom.isElidable = true := (Bool.and_eq_true_iff.mp hvoid).1
    have hsame := Expr.rank?_surfaced (p := p) heo hre hc fun h => by
      rw [h, Place.cast, if_pos helide]
    exact .ok (hsame.trans (rank?_of_castVoid heo hre hc ht hvoid hv))
  | compareLiterals hb =>
    obtain ⟨-, hw, hu⟩ := Expr.every_compare.mp he
    rw [rank?_compare_literals (Expr.every_literal.mp hw) (Expr.every_literal.mp hu),
      toOption_eq_some (Value.compare_toOption _ _ _ _) hb] at hv
    cases hv
    exact .ofBool _
  | compareFails ht =>
    obtain ⟨-, hw, hu⟩ := Expr.every_compare.mp he
    rw [rank?_compare_literals (Expr.every_literal.mp hw) (Expr.every_literal.mp hu),
      toOption_eq_none (Value.compare_toOption _ _ _ _) ht] at hv
    cases hv
  | rangeEmpty hb =>
    obtain ⟨u, hu, hv⟩ := Option.bind_eq_some_iff.mp hv
    obtain ⟨b, hb', rfl⟩ := Option.map_eq_some_iff.mp hv
    rw [Bounds.test?_of_isEmpty hb hb']
    exact .ofBool false
  | rangeLiteral ha =>
    have hw : Value.Plain _ := Expr.every_literal.mp (Expr.every_range.mp he).2
    rw [rank?_range_literal hw, toOption_eq_some (Bounds.test_toOption _ _ _) ha] at hv
    cases hv
    exact .ofBool _
  | rangeFails ht =>
    have hw : Value.Plain _ := Expr.every_literal.mp (Expr.every_range.mp he).2
    rw [rank?_range_literal hw, toOption_eq_none (Bounds.test_toOption _ _ _) ht] at hv
    cases hv
  | positionConstant hb =>
    rcases hp with hp | hp
    · obtain ⟨f, hf, rfl⟩ := Option.map_eq_some_iff.mp hv
      rw [positionConstant?_answer hb (hp f hf)]
      exact .ofBool _
    · cases hb.symm.trans (Expr.every_position.mp hp)
  | switchLong ht =>
    have hw : Value.Plain _ := Expr.every_literal.mp (Expr.every_switch.mp he).2.1
    rw [Expr.rank?, Expr.rank?_literal hw.unscored, Option.bind_some,
      toOption_eq_none (Value.single_toOption _ _) ht] at hv
    cases hv
  | switchFails hi ht =>
    have hch := rank?_switch_literal (m := p.mutes) (c := c) he hi
    rw [ht, hv] at hch
    cases hch
  | switchDefault hi hd =>
    have hch := rank?_switch_literal (m := p.mutes) (c := c) he hi
    rw [hd, hv] at hch
    exact .ok hch.symm
  | switchBranch hi hb =>
    have hch := rank?_switch_literal (m := p.mutes) (c := c) he hi
    rw [hb, hv] at hch
    exact .ok hch.symm
  | noDefault hd =>
    rw [(Expr.every_typeswitch.mp he).1.1] at hd
    cases hd
  | vacuous hvac =>
    rw [rank?_vacuous he hr hc hvac hv]
    exact .literal Value.plain_nil.unscored
  | typeCase hf hn =>
    rw [rank?_typeswitch_literal hf] at hv
    simp only [CaseHead.bind, hn] at hv
    exact .ok hv
  | rejected ht =>
    rw [(Expr.every_external.mp he).1.1] at ht
    cases ht

/-! ## Rewriting -/

theorem Frame.mutes_place (F : Frame) (p : Place) : F.mutes p.mutes = (F.place p).mutes := by
  cases F with
  | castOperand t span => exact (p.mutes_cast t).symm
  | callArgument fn span =>
    cases fn with
    | boolean => rfl
    | not => exact p.mutes_negated.symm
  | _ => rfl

theorem Frame.Meets.focus {F : Frame} {c' : Context} (h : F.Meets L c c') :
    c'.focus = c.focus := by
  cases F with
  | typeResult o bs head cs span =>
    obtain ⟨v, _, _, rfl⟩ := h
    exact CaseHead.bind_cases (P := fun c' => c'.focus = c.focus) rfl fun _ _ => rfl
  | _ => cases h; rfl

/-- A part stands in a context as declared, in which the known variables have their values. -/
theorem Frame.Meets.graded {F : Frame} {c' : Context} (h : F.Meets L c c')
    (he : (F.plug e).Over (.graded checks L D S)) (hr : (F.plug e).Ranked R S p)
    (hc : c.Graded S D) {K : Known} (hK : K.Holds c (F.plug e)) :
    c'.Graded S D ∧ K.Holds c' e := by
  cases F with
  | typeResult o bs head cs span =>
    obtain ⟨v, hv, hadm, rfl⟩ := h
    have hmem : (head, e) ∈ bs ++ (head, e) :: cs := by simp
    exact ⟨hc.bindCase he hr hv hmem hadm, hK.bindCase hmem v⟩
  | _ =>
    cases h
    exact ⟨hc, hK.plug⟩

/-- In the result of a case its variable is known, too. -/
theorem Known.Holds.graded {K : Known} {v : Value} {cs : List (CaseHead × Expr)} {span : Span}
    {head : CaseHead} {x : Var} {r : Expr}
    (he : (Expr.typeswitch (.literal v) cs span).Over (.graded checks L D S))
    (hr : (Expr.typeswitch (.literal v) cs span).Ranked R S p) (hc : c.Graded S D)
    (hf : cs.find? (fun c => c.1.admits v) = some (head, r)) (hx : head.var = some x)
    (hK : K.Holds c (.typeswitch (.literal v) cs span)) :
    (c.bind x.id v).Graded S D ∧ Known.Holds ((x, v) :: K) (c.bind x.id v) r := by
  have hv : (Expr.literal v).rank? L false c = some v := rfl
  have hadm := List.find?_some hf
  have hgraded := hc.bindCase he hr hv (List.mem_of_find?_eq_some hf) hadm
  simp only [CaseHead.bind, hx] at hgraded
  have hcase := (Expr.every_typeswitch.mp he.regular).1.2 _ (List.mem_of_find?_eq_some hf) x hx
  exact ⟨hgraded, hK.boundCase hcase.2.2 hf hx⟩

/-- Rewriting keeps the value of a ranked expression, scores included. -/
theorem Rewrites.ranks {K : Known} {r : Except CompileError Expr} (h : Rewrites checks K e r)
    (hV : (Vocabulary.regular checks .silent D).Knows K) (he : e.Over (.graded checks L D S))
    (hr : e.Ranked (Distinct checks S) S p) (hc : c.Graded S D) (hp : c.Counts e)
    (hK : K.Holds c e) (hS : K.Within S) {v : Value} (hv : e.rank? L p.mutes c = some v) :
    Ranks L p.mutes c r v := by
  -- For every place and context, since a part is looked at in a place and a context of its own.
  induction h generalizing p c v with
  | refl => exact .ok hv
  | trans h₁ _ ih₁ ih₂ =>
    obtain ⟨e', he', hv'⟩ := ih₁ hV he hr hc hp hK hS hv
    cases he'
    have hr' := (h₁.ranked stable_distinct hS hr _ rfl).1
    exact ih₂ hV (h₁.graded hV he) hr' hc (hp.rewrites h₁) (hK.rewrites h₁) hS hv'
  | rule h => exact h.ranks he hr hc hp hv
  | inside F _ ih =>
    refine .ok (Upholds.plug (fun c' hc' w hw => ?_) v hv)
    obtain ⟨hgraded, hK'⟩ := hc'.graded he hr hc hK
    rw [F.mutes_place] at hw ⊢
    obtain ⟨e', he', hw'⟩ := ih hV (Frame.over_plug he) (Frame.ranked_plug hr) hgraded
      (hp.plug.focus hc'.focus) hK' hS hw
    cases he'
    exact hw'
  | @first K e t F hF _ ih =>
    -- Had the part a value, it could not have been refused; and without one the node has none.
    cases hw : e.rank? L (F.place p).mutes c with
    | none =>
      rw [F.rank?_first hF ((congrArg (e.rank? L · c) (F.mutes_place p)).trans hw)] at hv
      cases hv
    | some w =>
      obtain ⟨e', he', -⟩ := ih hV (Frame.over_plug he) (Frame.ranked_plug hr) hc hp.plug hK.plug
        hS hw
      cases he'
  | park _ ih =>
    obtain ⟨e', he', -⟩ := ih hV he hr hc hp hK hS hv
    cases he'
  | @known K x y w span hx hs =>
    have hid : y.id = x.id := by simpa [Var.same] using hs
    have hw := (hK.lookup _ hx).resolve_left fun hav => Expr.every_var.mp hav hs
    rw [Expr.rank?, hid, hw] at hv
    exact .ok hv
  | bound hf hx _ hav ih =>
    obtain ⟨hV', -⟩ := Vocabulary.regular_closed.bound hV hf hx he.regular
    obtain ⟨hgraded, hK'⟩ := hK.graded he hr hc hf hx
    have hmem := List.mem_of_find?_eq_some hf
    have hres := (Expr.every_typeswitch.mp he).2.2 _ hmem
    have hrank := hr.part (List.mem_map.mpr ⟨_, hmem, rfl⟩)
    rw [rank?_typeswitch_literal hf] at hv
    simp only [CaseHead.bind, hx] at hv
    obtain ⟨e', he', hv'⟩ := ih hV' hres hrank hgraded ((hp.typeResult hf).focus rfl) hK'
      (hr.within hmem hx hS) hv
    cases he'
    -- Outside of the case the variable is not bound, or to something else.
    exact .ok (Upholds.agree hav (Context.agreeOff_bind _ _) v hv')
  | boundFails hf hx _ ih =>
    obtain ⟨hV', -⟩ := Vocabulary.regular_closed.bound hV hf hx he.regular
    obtain ⟨hgraded, hK'⟩ := hK.graded he hr hc hf hx
    have hmem := List.mem_of_find?_eq_some hf
    have hres := (Expr.every_typeswitch.mp he).2.2 _ hmem
    have hrank := hr.part (List.mem_map.mpr ⟨_, hmem, rfl⟩)
    rw [rank?_typeswitch_literal hf] at hv
    simp only [CaseHead.bind, hx] at hv
    obtain ⟨e', he', -⟩ := ih hV' hres hrank hgraded ((hp.typeResult hf).focus rfl) hK'
      (hr.within hmem hx hS) hv
    cases he'

/-! ## Compilation -/

/-- Compilation keeps scores. Where a ranked expression yields something with scoring on and with a
steady host, it compiles, and what the compiled expression yields, if anything, is the same with the
same scores. -/
theorem compile_keeps_scores {σ : Type} {h : Host σ} (hh : h.Steady L)
    (he : e.Over (.graded checks L D S)) (hr : e.Ranked (Distinct checks S) S .exposed)
    (hc : c.Graded S D) (hs : c.scoring = true) (hf : ∀ f, c.focus = some f → 1 ≤ f.position)
    {s s' : σ} {v : Value}
    (hv : e.eval h c s = (.ok v, s')) (ctx : CompileContext) :
    ∃ e', (ctx.compile checks e).1 = .ok e' ∧
      ∀ t t' w, e'.eval h c t = (.ok w, t') → w = v := by
  have hvalue := Expr.rank?_of_eval hh he hr hc hs hv
  have hV : (Vocabulary.regular checks .silent D).Knows [] := fun q hq => nomatch hq
  have hS : Known.Within S [] := fun q hq => nomatch hq
  have hreach : Reaches checks [] e (e.compile checks).value := e.compile_reaches
  have hr' := hreach.rewrites
  obtain ⟨e', he', hv'⟩ := hr'.ranks hV he hr hc (.inl hf)
    ⟨fun q hq => (nomatch hq), fun q hq => (nomatch hq)⟩ hS hvalue
  refine ⟨e', he', fun t t' w hw => ?_⟩
  rw [he'] at hr'
  have hranked := (hr'.ranked stable_distinct hS hr e' rfl).1
  have hw' := Expr.rank?_of_eval hh (hr'.graded hV he) hranked hc hs hw
  exact Option.some.inj (hw'.symm.trans hv')

/-- A function that holds of everything, half as relevant as can be. -/
def matching : ExternalFn := ⟨0, "matches", .booleanOne, true⟩

def halfMatches : Library := fun _ _ => some (.ofTruth (.scored half))

/-- All that it yields may be scored. -/
def matchScorers : Scorers := ⟨fun _ => False, fun _ => True, fun _ => False⟩

def matchOf (text : String) : Expr :=
  .external matching [.literal [.string text]] false .unknown

theorem matchOf_over (text : String) : (matchOf text).Over
    (.graded (fun _ _ _ => .ok ()) halfMatches (fun _ => none) matchScorers) := by
  refine Expr.every_external.mpr ⟨⟨fun _ _ => rfl, fun vs v hv => ?_⟩, ?_⟩
  · cases hv
    exact ⟨rfl, Value.proper_ofTruth.mpr ⟨half_proper, nofun⟩, fun h => absurd trivial h⟩
  · exact List.forall_mem_singleton.mpr
      (Expr.every_literal.mpr (Value.plain_singleton.mpr trivial))

theorem matchOf_ranked (text : String) :
    (matchOf text).Ranked (Distinct (fun _ _ _ => .ok ()) matchScorers) matchScorers .exposed :=
  .external nofun (List.forall_mem_singleton.mpr .literal)

theorem empty_graded : (Context.empty true).Graded matchScorers fun _ => none :=
  ⟨fun _ _ _ h => (nomatch h), fun _ _ h => (nomatch h), fun _ _ h => (nomatch h)⟩

/-- One of two matches, and a text that is not empty. -/
def scoredAlternatives : Expr :=
  .connective .conjunction
    [.connective .disjunction [matchOf "a", matchOf "b"] .unknown,
      .call .boolean (.literal [.string "c"]) .unknown] .unknown

/-- Both matches add to the score, before compilation and after it. -/
theorem compile_keeps_scores_alternatives :
    let v : Value := .ofTruth (.scored (half.either half))
    scoredAlternatives.eval halfMatches.host (Context.empty true) () = (.ok v, ()) ∧
      ∃ e', ((CompileContext.start {} .empty).compile (fun _ _ _ => .ok ()) scoredAlternatives).1 =
        .ok e' ∧ e'.eval halfMatches.host (Context.empty true) () = (.ok v, ()) ∧
        ∀ t t' w, e'.eval halfMatches.host (Context.empty true) t = (.ok w, t') → w = v := by
  intro v
  have hv : scoredAlternatives.eval halfMatches.host (Context.empty true) () = (.ok v, ()) :=
    Prod.ext (toOption_eq_some_iff.mp (by decide +kernel)) (Subsingleton.elim _ _)
  have hover : scoredAlternatives.Over
      (.graded (fun _ _ _ => .ok ()) halfMatches (fun _ => none) matchScorers) := by
    refine Expr.every_connective.mpr ⟨trivial, List.forall_mem_cons.mpr
      ⟨Expr.every_connective.mpr ⟨trivial, ?_⟩, List.forall_mem_singleton.mpr ?_⟩⟩
    · exact List.forall_mem_cons.mpr
        ⟨matchOf_over "a", List.forall_mem_singleton.mpr (matchOf_over "b")⟩
    · exact Expr.every_call.mpr
        ⟨trivial, Expr.every_literal.mpr (Value.plain_singleton.mpr trivial)⟩
  have hranked : scoredAlternatives.Ranked (Distinct (fun _ _ _ => .ok ()) matchScorers)
      matchScorers .exposed := by
    have htext : (Expr.call .boolean (.literal [.string "c"]) .unknown).Ranked
        (Distinct (fun _ _ _ => .ok ()) matchScorers) matchScorers .exposed := .boolean .literal
    refine .connective (List.forall_mem_cons.mpr ⟨.connective (List.forall_mem_cons.mpr
      ⟨matchOf_ranked "a", List.forall_mem_singleton.mpr (matchOf_ranked "b")⟩) fun _ => ?_,
      List.forall_mem_singleton.mpr htext⟩) fun _ => ?_
    · exact List.pairwise_pair.mpr (distinct_calls (.inr (.inr ⟨0, _, _, rfl, rfl, by decide⟩)))
    · exact List.pairwise_pair.mpr (distinct_of_silent _ htext
        (Expr.silent_boolean (Expr.silent_literal _) _))
  have hfocus (f : Focus) (hf : (Context.empty true).focus = some f) : 1 ≤ f.position := nomatch hf
  obtain ⟨e', he', hkeeps⟩ := compile_keeps_scores (Library.host_steady halfMatches) hover hranked
    empty_graded rfl hfocus hv (.start {} .empty)
  refine ⟨hv, e', he', ?_, hkeeps⟩
  have hcompiled : (((CompileContext.start {} .empty).compile (fun _ _ _ => .ok ())
      scoredAlternatives).1.toOption.bind fun e =>
        (e.eval halfMatches.host (Context.empty true) ()).1.toOption) = some v := by decide +kernel
  rw [he'] at hcompiled
  exact Prod.ext (toOption_eq_some_iff.mp hcompiled) (Subsingleton.elim _ _)

/-- Two equal matches count twice before compilation, and once after it: of two equal operands one
is dropped, whatever its score. -/
theorem compile_drops_scoredMatch :
    let e : Expr := .connective .disjunction [matchOf "a", matchOf "a"] .unknown
    e.Over (.graded (fun _ _ _ => .ok ()) halfMatches (fun _ => none) matchScorers) ∧
      (Context.empty true).Graded matchScorers (fun _ => none) ∧
      e.eval halfMatches.host (Context.empty true) () =
        (.ok (.ofTruth (.scored (half.either half))), ()) ∧
      (∃ e', ((CompileContext.start {} .empty).compile (fun _ _ _ => .ok ()) e).1 = .ok e' ∧
        e'.eval halfMatches.host (Context.empty true) () = (.ok (.ofTruth (.scored half)), ())) ∧
      (half.either half).equal half = false := by
  intro e
  have hcompiled : (((CompileContext.start {} .empty).compile (fun _ _ _ => .ok ())
      e).1.toOption.map fun e => (e.eval halfMatches.host (Context.empty true) ()).1.toOption) =
        some (some (.ofTruth (.scored half))) := by decide +kernel
  obtain ⟨e', he', hv'⟩ := Option.map_eq_some_iff.mp hcompiled
  refine ⟨Expr.every_connective.mpr ⟨trivial, List.forall_mem_cons.mpr ⟨matchOf_over "a", ?_⟩⟩,
    empty_graded, Prod.ext (toOption_eq_some_iff.mp ?_) (Subsingleton.elim _ _),
    ⟨e', toOption_eq_some_iff.mp he',
      Prod.ext (toOption_eq_some_iff.mp hv') (Subsingleton.elim _ _)⟩, ?_⟩
  · exact List.forall_mem_singleton.mpr (matchOf_over "a")
  · decide +kernel
  · decide +kernel

end

end QueryExpr
