import QueryExpr.Proofs.Sources

/-!
# QueryExpr.Proofs.Places

Where scores reach the value of an expression, before and after rewriting.

* `Place`           — whether the score of a part reaches the value of the whole, or may come to
  reach it by rewriting.
* `Expr.Ranked`     — no rewriting changes which scores are combined, nor how.
* `Stable`          — what rewriting does not change in a relation between operands.
* `Rewrites.ranked` — rewriting keeps the rank of an expression, and brings in no source.
* `stable_distinct` — distinct operands stay distinct.
* `distinct_calls`  — calls that are told apart by literal arguments are distinct.
-/

namespace QueryExpr

/-! ## Places -/

/-- A place of a part. The score of a part that is `exposed` reaches the value of the whole. It does
not so where the part is `covered` by a negation. Under a second negation it is `hidden` as long as
the two are there. What is `free` is looked at without its score for good. -/
inductive Place where
  | exposed
  | covered
  | hidden
  | free
deriving DecidableEq

namespace Place

/-- The place of what is negated. -/
def negated : Place → Place
  | .exposed => .covered
  | .covered => .hidden
  | .hidden => .covered
  | .free => .free

/-- The place of what is cast. A cast to a boolean may be dropped. -/
def cast (p : Place) (t : SeqType) : Place :=
  if t.atom.isElidable then
    match p with
    | .exposed => .hidden
    | p => p
  else .free

/-- Scores do not matter in the place. -/
def mutes : Place → Bool
  | .exposed => false
  | _ => true

theorem negated_ne (p : Place) : p.negated ≠ .exposed := by cases p <;> decide

theorem mutes_negated (p : Place) : p.negated.mutes = true := by cases p <;> rfl

theorem mutes_cast (p : Place) (t : SeqType) : (p.cast t).mutes = true := by
  unfold cast
  split
  · cases p <;> rfl
  · rfl

theorem eq_exposed {p : Place} (h : p.mutes = false) : p = .exposed := by
  cases p <;> first | rfl | cases h

end Place

/-! ## Ranked expressions -/

/-- An expression in a place of which no rewriting changes which scores are combined, nor how. Where
scores matter, two operands of a connective are distinct; where they may come to matter, there are
none. The variable that a case binds to a scored value is a source. -/
inductive Expr.Ranked (R : Connective → Expr → Expr → Prop) (S : Scorers) :
    Place → Expr → Prop where
  | connective {p : Place} {k : Connective} {es : List Expr} {span : Span} :
      (∀ e ∈ es, Ranked R S p e) → (p = .exposed → es.Pairwise (R k)) →
      Ranked R S p (.connective k es span)
  | switch {p : Place} {e d : Expr} {cs : List (Expr × Expr)} {span : Span} :
      Ranked R S .free e → (∀ q ∈ cs, Ranked R S .free q.1) →
      (∀ q ∈ cs, Ranked R S p q.2) → Ranked R S p d →
      Ranked R S p (.switch e cs d span)
  | typeswitch {p : Place} {e : Expr} {cs : List (CaseHead × Expr)} {span : Span} :
      Ranked R S .exposed e → (∀ q ∈ cs, Ranked R S p q.2) →
      (∀ q ∈ cs, ∀ x, q.1.var = some x → S.bound x.id) →
      (e.Silent S ∨ ∀ q ∈ cs, ∀ x, q.1.var = some x → S.var x.id) →
      Ranked R S p (.typeswitch e cs span)
  | cast {p : Place} {e : Expr} {t : SeqType} {span : Span} :
      Ranked R S (p.cast t) e → Ranked R S p (.cast e t span)
  | boolean {p : Place} {e : Expr} {span : Span} :
      Ranked R S p e → Ranked R S p (.call .boolean e span)
  | not {p : Place} {e : Expr} {span : Span} :
      Ranked R S p.negated e → Ranked R S p (.call .not e span)
  | compare {p : Place} {op : CompareOp} {l r : Expr} {span : Span} :
      Ranked R S .free l → Ranked R S .free r → Ranked R S p (.compare op l r span)
  | range {p : Place} {b : Bounds} {e : Expr} {span : Span} :
      Ranked R S .free e → Ranked R S p (.range b e span)
  | position {p : Place} {a b : Int64} {span : Span} : Ranked R S p (.position a b span)
  | literal {p : Place} {v : Value} : Ranked R S p (.literal v)
  | var {p : Place} {x : Var} {span : Span} :
      (p = .hidden → ¬ S.var x.id) → Ranked R S p (.var x span)
  | external {p : Place} {fn : ExternalFn} {es : List Expr} {tail : Bool} {span : Span} :
      (p = .hidden → ¬ S.fn fn.name) → (∀ e ∈ es, Ranked R S .exposed e) →
      Ranked R S p (.external fn es tail span)
  | failing {p : Place} {t : CompileError} {type : SeqType} {span : Span} :
      Ranked R S p (.failing t type span)

section
variable {R : Connective → Expr → Expr → Prop} {S : Scorers} {checks : Checks} {k : Connective}
  {p : Place} {e e' : Expr}

/-- What rewriting does not change in a relation between the operands of connectives. -/
structure Stable (checks : Checks) (S : Scorers) (R : Connective → Expr → Expr → Prop) : Prop where
  follow : ∀ {k d d' e e'}, R k d e → Follows checks S k d d' → Follows checks S k e e' → R k d' e'
  hidden : ∀ {k d e}, d.Ranked R S .hidden → e.Ranked R S .hidden → R k d e

/-- Several operands in the place of one, and some of the operands behind it. -/
theorem Stable.replace (hR : Stable checks S R) {ds ys fs gs : List Expr} {x : Expr}
    (h : (ds ++ x :: fs).Pairwise (R k)) (hys : ys.Pairwise (R k))
    (hx : ∀ y ∈ ys, Follows checks S k x y) (hs : gs.Sublist fs) :
    (ds ++ (ys ++ gs)).Pairwise (R k) := by
  rw [List.pairwise_append] at h ⊢
  obtain ⟨hds, hxfs, hcross⟩ := h
  obtain ⟨hxf, hfs⟩ := List.pairwise_cons.mp hxfs
  refine ⟨hds, List.pairwise_append.mpr ⟨hys, hfs.sublist hs, fun y hy g hg => ?_⟩, ?_⟩
  · exact hR.follow (hxf g (hs.subset hg)) (hx y hy) (.refl g)
  · intro d hd y hy
    rcases List.mem_append.mp hy with hy | hy
    · exact hR.follow (hcross d hd x (List.mem_cons_self ..)) (.refl d) (hx y hy)
    · exact hcross d hd y (List.mem_cons_of_mem _ (hs.subset hy))

namespace Expr.Ranked

theorem operands {es : List Expr} {span : Span} (h : (Expr.connective k es span).Ranked R S p) :
    (∀ e ∈ es, e.Ranked R S p) ∧ (p = .exposed → es.Pairwise (R k)) := by
  cases h with
  | connective hes hd => exact ⟨hes, hd⟩

theorem part {d : Expr} (h : e.Ranked R S p) (hd : d ∈ e.scoreParts) : d.Ranked R S p := by
  cases h with
  | connective hes _ => exact hes d hd
  | switch _ _ hcs ho =>
    rcases List.mem_cons.mp hd with rfl | hd
    · exact ho
    · obtain ⟨q, hq, rfl⟩ := List.mem_map.mp hd
      exact hcs q hq
  | typeswitch _ hcs _ _ =>
    obtain ⟨q, hq, rfl⟩ := List.mem_map.mp hd
    exact hcs q hq
  | boolean he => rw [List.mem_singleton.mp hd]; exact he
  | _ => cases hd

theorem within {cs : List (CaseHead × Expr)} {span : Span} {head : CaseHead} {r : Expr} {x : Var}
    {v : Value} {K : Known} (h : (Expr.typeswitch e cs span).Ranked R S p)
    (hr : (head, r) ∈ cs) (hx : head.var = some x) (hK : K.Within S) :
    Known.Within S ((x, v) :: K) := by
  cases h with
  | typeswitch _ _ hb _ => exact List.forall_mem_cons.mpr ⟨hb _ hr x hx, hK⟩

theorem carries {s : Expr} (h : e.Ranked R S p) (hs : e.Carries s) : s.Ranked R S p := by
  induction hs with
  | self => exact h
  | part hd _ ih => exact ih (h.part hd)

/-- What is hidden has no source. -/
theorem silent (h : e.Ranked R S .hidden) : e.Silent S := by
  intro s hs hm
  cases h.carries hs with
  | var hx => exact hx rfl hm
  | external hf _ => exact hf rfl hm
  | _ => exact hm.elim

/-- What is hidden may come to light. -/
theorem exposed (hR : Stable checks S R) (h : e.Ranked R S .hidden) : e.Ranked R S .exposed := by
  generalize hp : Place.hidden = q at h
  induction h with
  | connective hes _ ih =>
    subst hp
    exact .connective (fun e he => ih e he rfl) fun _ =>
      List.pairwise_of_forall_mem_list fun d hd e he => hR.hidden (hes d hd) (hes e he)
  | switch he hv _ _ _ _ ihcs ihd => exact .switch he hv (fun q hq => ihcs q hq hp) (ihd hp)
  | typeswitch he _ hb hx _ ihcs => exact .typeswitch he (fun q hq => ihcs q hq hp) hb hx
  | @cast _ e t _ he ih =>
    subst hp
    refine .cast ?_
    have heq : Place.exposed.cast t = Place.hidden.cast t := by
      unfold Place.cast
      split <;> rfl
    rw [heq]
    exact he
  | boolean _ ih => exact .boolean (ih hp)
  | not he _ => subst hp; exact .not he
  | compare hl hr => exact .compare hl hr
  | range he => exact .range he
  | position => exact .position
  | literal => exact .literal
  | var => exact .var nofun
  | external _ hes => exact .external nofun hes
  | failing => exact .failing

/-- The operand of a cast that is dropped stands in the place of the cast. -/
theorem uncast (hR : Stable checks S R) {t : SeqType} (ht : t.atom.isElidable = true)
    (h : e.Ranked R S (p.cast t)) : e.Ranked R S p := by
  unfold Place.cast at h
  rw [if_pos ht] at h
  cases p with
  | exposed => exact h.exposed hR
  | _ => exact h

/-- So does what is negated twice. -/
theorem unnegated (hR : Stable checks S R) (h : e.Ranked R S p.negated.negated) :
    e.Ranked R S p := by
  cases p with
  | exposed => exact h.exposed hR
  | _ => exact h

end Expr.Ranked

/-! ## Frames -/

namespace Frame

/-- The place of the part, where the node stands in one. -/
def place : Frame → Place → Place
  | .operand _ _ _ _, p => p
  | .caseResult _ _ _ _ _ _, p => p
  | .switchDefault _ _ _, p => p
  | .typeResult _ _ _ _ _, p => p
  | .callArgument .boolean _, p => p
  | .callArgument .not _, p => p.negated
  | .castOperand t _, p => p.cast t
  | .typeOperand _ _, _ => .exposed
  | .argument _ _ _ _ _, _ => .exposed
  | .switchOperand _ _ _, _ => .free
  | .caseValue _ _ _ _ _ _, _ => .free
  | .left _ _ _, _ => .free
  | .right _ _ _, _ => .free
  | .rangeOperand _ _, _ => .free

/-- The score of the part in a place reaches the value of the node. -/
def Carries : Frame → Prop
  | .operand _ _ _ _ => True
  | .caseResult _ _ _ _ _ _ => True
  | .switchDefault _ _ _ => True
  | .typeResult _ _ _ _ _ => True
  | .callArgument .boolean _ => True
  | _ => False

variable {F : Frame}

theorem place_of_carries (h : F.Carries) (p : Place) : F.place p = p := by
  cases F with
  | callArgument fn span => cases fn <;> first | rfl | exact h.elim
  | _ => first | rfl | exact h.elim

theorem mem_scoreParts (h : F.Carries) (e : Expr) : e ∈ (F.plug e).scoreParts := by
  cases F with
  | callArgument fn span => cases fn <;> first | exact h.elim | exact List.mem_singleton_self e
  | _ => first | exact h.elim | simp [plug, Expr.scoreParts]

theorem scoreParts_plug {d : Expr} (h : d ∈ (F.plug e').scoreParts) :
    (F.Carries ∧ d = e') ∨ d ∈ (F.plug e).scoreParts := by
  cases F with
  | callArgument fn span =>
    cases fn with
    | boolean => exact .inl ⟨trivial, List.mem_singleton.mp h⟩
    | not => cases h
  | _ => simp [plug, Expr.scoreParts, Carries] at h ⊢ <;> grind

theorem isSource_plug (h : (F.plug e').IsSource S) : (F.plug e).IsSource S := by
  cases F <;> exact h

/-- A node without a source keeps without one if its part does. -/
theorem silent_plug (h : F.Carries → e.Silent S → e'.Silent S) (he : (F.plug e).Silent S) :
    (F.plug e').Silent S := by
  refine Expr.silent_iff.mpr ⟨fun hm => (Expr.silent_iff.mp he).1 (isSource_plug hm), ?_⟩
  intro d hd
  rcases scoreParts_plug (e := e) hd with ⟨hF, rfl⟩ | hd
  · exact h hF (he.part (mem_scoreParts hF e))
  · exact he.part hd

theorem ranked_plug (h : (F.plug e).Ranked R S p) : e.Ranked R S (F.place p) := by
  cases F with
  | operand c ds fs span => exact h.operands.1 e (by simp)
  | switchOperand cs d span => cases h; assumption
  | caseValue o bs r cs d span => cases h with | switch _ hv _ _ => exact hv (e, r) (by simp)
  | caseResult o bs v cs d span => cases h with | switch _ _ hr _ => exact hr (v, e) (by simp)
  | switchDefault o cs span => cases h; assumption
  | typeOperand cs span => cases h; assumption
  | typeResult o bs head cs span =>
    cases h with | typeswitch _ hr _ _ => exact hr (head, e) (by simp)
  | castOperand t span => cases h; assumption
  | callArgument fn span => cases fn <;> cases h <;> assumption
  | left op r span => cases h; assumption
  | right op l span => cases h; assumption
  | rangeOperand b span => cases h; assumption
  | argument fn ds fs tail span => cases h with | external _ hes => exact hes e (by simp)

/-- What a part is rewritten to may stand in its place. -/
theorem ranked_replace {K : Known} (hR : Stable checks S R) (h : (F.plug e).Ranked R S p)
    (hK : K.Within S) (hr : Rewrites checks K e (.ok e')) (he' : e'.Ranked R S (F.place p))
    (hs : F.place p = .exposed → e.Silent S → e'.Silent S) : (F.plug e').Ranked R S p := by
  have hmem {α : Type} {P : α → Prop} {as bs : List α} {a b : α} (h : ∀ x ∈ as ++ a :: bs, P x)
      (hb : P b) : ∀ x ∈ as ++ b :: bs, P x := by
    simp only [List.forall_mem_append, List.forall_mem_cons] at h ⊢
    exact ⟨h.1, hb, h.2.2⟩
  cases F with
  | operand c ds fs span =>
    obtain ⟨hes, hd⟩ := h.operands
    refine .connective (hmem hes he') fun hp => ?_
    have hone : [e'].Pairwise (R c) := List.pairwise_singleton _ _
    have hfollows : Follows checks S c e e' := ⟨hs hp, fun x hx => .inl (.rewrites hK hr hx)⟩
    exact hR.replace (hd hp) hone (List.forall_mem_singleton.mpr hfollows)
      (List.Sublist.refl fs)
  | switchOperand cs d span => cases h with | switch _ hv hr hd => exact .switch he' hv hr hd
  | caseValue o bs r cs d span =>
    cases h with
    | switch ho hv hr hd => exact .switch ho (hmem hv he') (hmem hr (hr (e, r) (by simp))) hd
  | caseResult o bs v cs d span =>
    cases h with
    | switch ho hv hr hd => exact .switch ho (hmem hv (hv (v, e) (by simp))) (hmem hr he') hd
  | switchDefault o cs span => cases h with | switch ho hv hr _ => exact .switch ho hv hr he'
  | typeOperand cs span =>
    cases h with
    | typeswitch _ hr hb hx => exact .typeswitch he' hr hb (hx.imp_left (hs rfl))
  | typeResult o bs head cs span =>
    cases h with
    | typeswitch ho hr hb hx =>
      exact .typeswitch ho (hmem hr he') (hmem hb (hb (head, e) (by simp)))
        (hx.imp_right fun hx => hmem hx (hx (head, e) (by simp)))
  | castOperand t span => exact .cast he'
  | callArgument fn span =>
    cases fn with
    | boolean => exact .boolean he'
    | not => exact .not he'
  | left op r span => cases h with | compare _ hr => exact .compare he' hr
  | right op l span => cases h with | compare hl _ => exact .compare hl he'
  | rangeOperand b span => exact .range he'
  | argument fn ds fs tail span =>
    cases h with
    | external hf hes => exact .external hf (hmem hes he')

end Frame

/-! ## Rules -/

theorem merge?_blank {d : Expr} {m : Noted Expr} (h : d.merge? k e = some m) : m.value.Blank := by
  rcases merge?_cases h with ⟨a, b, s, a', b', s', lo, hi, rfl, rfl, rfl, _, _, hm⟩ |
    ⟨b, d', s, b', e', s', rfl, rfl, rfl, _, _, _, hm⟩ |
    ⟨l, v, s, l', w, s', rfl, rfl, rfl, _, _, hm⟩
  · rw [hm]
    split <;> trivial
  · rw [hm]
    split <;> trivial
  · rw [hm]
    trivial

theorem merge?_ranked {d : Expr} {m : Noted Expr} (hd : d.Ranked R S p)
    (h : d.merge? k e = some m) : m.value.Ranked R S p := by
  rcases merge?_cases h with ⟨a, b, s, a', b', s', lo, hi, rfl, rfl, rfl, _, _, hm⟩ |
    ⟨b, d', s, b', e', s', rfl, rfl, rfl, _, _, _, hm⟩ |
    ⟨l, v, s, l', w, s', rfl, rfl, rfl, _, _, hm⟩
  · rw [hm]
    split
    · exact .literal
    · exact .position
  · rw [hm]
    cases hd with
    | range he =>
      split
      · exact .literal
      · exact .range he
  · rw [hm]
    cases hd with
    | compare hl _ => exact .compare hl .literal

theorem negated?_args {q : Expr → Prop} {es args : List Expr} (h : negated? es = some args)
    (hes : ∀ arg s, .call .not arg s ∈ es → q arg) : ∀ e ∈ args, q e := by
  induction es generalizing args with
  | nil => cases h; exact nofun
  | cons e es ih =>
    obtain ⟨arg, s, args', rfl, ha, rfl⟩ := negated?_cons h
    refine List.forall_mem_cons.mpr ⟨hes arg s (List.mem_cons_self ..), ih ha fun a s' h => ?_⟩
    exact hes a s' (List.mem_cons_of_mem _ h)

/-- A rule inside the operands of a connective puts the parts of an operand in its place, or
nothing, or what is blank, and drops operands behind it. -/
theorem OperandRule.replaces {span : Span} {es fs : List Expr} (h : OperandRule k span es fs) :
    ∃ ds x ys gs hs, es = ds ++ x :: gs ∧ fs = ds ++ (ys ++ hs) ∧ hs.Sublist gs ∧
      ((∃ s, x = .connective k ys s) ∨ (∃ y s, x = .call .boolean y s ∧ ys = [y]) ∨
        ys = [] ∨ ∃ y, ys = [y] ∧ y.Blank) := by
  cases h with
  | @unwrap ds fs e s =>
    exact ⟨ds, _, [e], fs, fs, rfl, rfl, .refl _, .inr (.inl ⟨e, s, rfl, rfl⟩)⟩
  | @splice ds es fs s =>
    exact ⟨ds, _, es, fs, fs, rfl, List.append_assoc .., .refl _, .inl ⟨s, rfl⟩⟩
  | @neutral ds fs v b => exact ⟨ds, _, [], fs, fs, rfl, rfl, .refl _, .inr (.inr (.inl rfl))⟩
  | @decided ds fs v b =>
    refine ⟨ds, _, [_], fs, [], rfl, rfl, List.nil_sublist _, .inr (.inr (.inr ⟨_, rfl, trivial⟩))⟩
  | @undefined ds fs v t =>
    refine ⟨ds, _, [_], fs, [], rfl, rfl, List.nil_sublist _, .inr (.inr (.inr ⟨_, rfl, trivial⟩))⟩
  | @unreached ds fs t type s =>
    refine ⟨ds, _, [_], fs, [], rfl, rfl, List.nil_sublist _, .inr (.inr (.inr ⟨_, rfl, trivial⟩))⟩
  | @duplicate ds fs d e => exact ⟨ds, _, [], fs, fs, rfl, rfl, .refl _, .inr (.inr (.inl rfl))⟩
  | @merged ds fs d e m _ _ hm =>
    refine ⟨ds, d, [m.value], e :: fs, fs, rfl, rfl, List.sublist_cons_self .., .inr (.inr ?_)⟩
    exact .inr ⟨_, rfl, merge?_blank hm⟩

theorem OperandRule.ranked {span : Span} {es fs : List Expr} (hR : Stable checks S R)
    (h : OperandRule k span es fs) (he : (Expr.connective k es span).Ranked R S p) :
    (Expr.connective k fs span).Ranked R S p ∧
      ((Expr.connective k es span).Silent S → (Expr.connective k fs span).Silent S) := by
  obtain ⟨hes, hd⟩ := he.operands
  have hfs : ∀ e ∈ fs, e.Ranked R S p := by
    refine h.forall_mem (P := fun e => e.Ranked R S p) (fun e s he => ?_) (fun ds s hd => ?_)
      .literal (fun _ _ _ => .failing) (fun d e m hd _ hm => merge?_ranked hd hm) hes
    · exact he.part (List.mem_singleton_self e)
    · exact hd.operands.1
  obtain ⟨ds, x, ys, gs, hs, rfl, rfl, hsub, hys⟩ := h.replaces
  have hx : x ∈ (Expr.connective k (ds ++ x :: gs) span).scoreParts := by simp [Expr.scoreParts]
  have hfollows : ∀ y ∈ ys, Follows checks S k x y := by
    rcases hys with ⟨s, rfl⟩ | ⟨y, s, rfl, rfl⟩ | rfl | ⟨y, rfl, hy⟩
    · exact fun y hy => .operand hy s
    · exact List.forall_mem_singleton.mpr (.argument y s)
    · exact nofun
    · exact List.forall_mem_singleton.mpr (.of_blank hy)
  have hdistinct (hp : p = .exposed) : ys.Pairwise (R k) := by
    rcases hys with ⟨s, rfl⟩ | ⟨y, s, rfl, rfl⟩ | rfl | ⟨y, rfl, hy⟩
    · exact (he.part hx).operands.2 hp
    · exact List.pairwise_singleton _ _
    · exact .nil
    · exact List.pairwise_singleton _ _
  refine ⟨.connective hfs fun hp => hR.replace (hd hp) (hdistinct hp) hfollows hsub, ?_⟩
  intro hsilent
  refine Expr.silent_iff.mpr ⟨id, fun y hy => ?_⟩
  simp only [Expr.scoreParts, List.mem_append] at hy
  rcases hy with hy | hy | hy
  · exact hsilent.part (by simp [Expr.scoreParts, hy])
  · exact (hfollows y hy).silent (hsilent.part hx)
  · exact hsilent.part (by simp [Expr.scoreParts, hsub.subset hy])

/-- A rule at the root keeps the rank of an expression, and where scores matter, it brings in no
source. -/
theorem Rule.ranked (hR : Stable checks S R) (h : Rule checks e (.ok e')) (he : e.Ranked R S p) :
    e'.Ranked R S p ∧ (p = .exposed → e.Silent S → e'.Silent S) := by
  have literal (v : Value) : (Expr.literal v).Ranked R S p ∧
      (p = .exposed → e.Silent S → (Expr.literal v).Silent S) :=
    ⟨.literal, fun _ _ => Expr.silent_literal v⟩
  have part {d : Expr} (hd : d ∈ e.scoreParts) :
      d.Ranked R S p ∧ (p = .exposed → e.Silent S → d.Silent S) :=
    ⟨he.part hd, fun _ h => h.part hd⟩
  cases h with
  | operands h =>
    obtain ⟨hr, hs⟩ := h.ranked hR he
    exact ⟨hr, fun _ => hs⟩
  | noOperand => exact literal _
  | decidedOperand => exact literal _
  | @singleOperand k d span =>
    have hd : d ∈ (Expr.connective k [d] span).scoreParts := List.mem_singleton_self d
    exact ⟨.boolean (he.part hd), fun _ h => Expr.silent_boolean (h.part hd) span⟩
  | @negations k es args span _ hn =>
    have hargs : ∀ a ∈ args, a.Ranked R S p.negated :=
      negated?_args hn fun a s ha => by cases he.operands.1 _ ha; assumption
    exact ⟨.not (.connective hargs fun hp => absurd hp p.negated_ne),
      fun _ _ => Expr.silent_not _ _⟩
  | @core fn d s span =>
    have hd : d ∈ (Expr.call .boolean d s).scoreParts := List.mem_singleton_self d
    cases fn with
    | boolean =>
      cases he with
      | boolean he =>
        refine ⟨.boolean (he.part hd), fun _ h => Expr.silent_boolean (Expr.Silent.part ?_ hd) span⟩
        exact h.part (List.mem_singleton_self _)
    | not =>
      cases he with
      | not he => exact ⟨.not (he.part hd), fun _ _ => Expr.silent_not _ _⟩
  | booleanLiteral => exact literal _
  | notLiteral => exact literal _
  | isBoolean => exact part (List.mem_singleton_self _)
  | @doubleNegation d s span =>
    cases he with
    | not he =>
      cases he with
      | not he =>
        refine ⟨.boolean (he.unnegated hR), fun hp _ => ?_⟩
        subst hp
        have hd : d.Silent S := he.silent
        exact Expr.silent_boolean hd span
  | castLiteral => exact literal _
  | castVoid hv =>
    have ht : _ = true := (Bool.and_eq_true_iff.mp hv).1
    cases he with
    | cast he =>
      refine ⟨he.uncast hR ht, fun hp _ => ?_⟩
      subst hp
      rw [Place.cast, if_pos ht] at he
      exact he.silent
  | compareLiterals => exact literal _
  | rangeEmpty => exact literal _
  | rangeLiteral => exact literal _
  | positionConstant => exact literal _
  | switchDefault => exact part (List.mem_cons_self ..)
  | switchBranch _ hc =>
    obtain ⟨v, hv⟩ := chooseCase_branch hc
    exact part (List.mem_cons_of_mem _ (List.mem_map.mpr ⟨_, hv, rfl⟩))
  | vacuous => exact literal _
  | typeCase hf => exact part (List.mem_map.mpr ⟨_, List.mem_of_find?_eq_some hf, rfl⟩)

/-! ## Rewriting -/

/-- Nothing becomes of a literal. -/
theorem Rewrites.of_literal {K : Known} {v : Value} {r : Except CompileError Expr}
    (h : Rewrites checks K (.literal v) r) : r = .ok (.literal v) := by
  generalize hl : Expr.literal v = l at h
  induction h with
  | refl => rfl
  | trans _ _ ih₁ ih₂ => cases ih₁ hl; exact ih₂ hl
  | rule h => subst hl; cases h
  | inside F => cases F <;> cases hl
  | first F => cases F <;> cases hl
  | park _ ih => cases ih hl
  | known => cases hl
  | bound => cases hl
  | boundFails => cases hl

/-- Rewriting keeps the rank of an expression, and where scores matter, it brings in no source. -/
theorem Rewrites.ranked {K : Known} {r : Except CompileError Expr} (hR : Stable checks S R)
    (h : Rewrites checks K e r) (hK : K.Within S) (he : e.Ranked R S p) : ∀ e', r = .ok e' →
      e'.Ranked R S p ∧ (p = .exposed → e.Silent S → e'.Silent S) := by
  induction h generalizing p with
  | refl => intro e' h; cases h; exact ⟨he, fun _ => id⟩
  | trans _ _ ih₁ ih₂ =>
    intro e' hr
    obtain ⟨h₁, hs₁⟩ := ih₁ hK he _ rfl
    obtain ⟨h₂, hs₂⟩ := ih₂ hK h₁ e' hr
    exact ⟨h₂, fun hp => hs₂ hp ∘ hs₁ hp⟩
  | rule h => intro e' hr; subst hr; exact h.ranked hR he
  | inside F h ih =>
    intro e' hr
    cases hr
    obtain ⟨h', hs⟩ := ih hK (Frame.ranked_plug he) _ rfl
    exact ⟨Frame.ranked_replace hR he hK h h' hs, fun hp =>
      Frame.silent_plug fun hF => hs ((Frame.place_of_carries hF p).trans hp)⟩
  | first => intro e' hr; cases hr
  | park => intro e' hr; cases hr; exact ⟨.failing, fun _ _ => Expr.silent_failing _ _ _⟩
  | known => intro e' hr; cases hr; exact ⟨.literal, fun _ _ => Expr.silent_literal _⟩
  | @bound K v cs span head x r r' hf hx _ _ ih =>
    intro e' hr
    have hmem := List.mem_of_find?_eq_some hf
    have hpart : r ∈ (Expr.typeswitch (.literal v) cs span).scoreParts :=
      List.mem_map.mpr ⟨_, hmem, rfl⟩
    obtain ⟨h', hs⟩ := ih (he.within hmem hx hK) (he.part hpart) e' hr
    exact ⟨h', fun hp h => hs hp (h.part hpart)⟩
  | boundFails => intro e' hr; cases hr

/-! ## Distinct operands -/

theorem Expr.Ranked.mono {R' : Connective → Expr → Expr → Prop} (h : e.Ranked R S p)
    (hR : ∀ k d e, R k d e → R' k d e) : e.Ranked R' S p := by
  induction h with
  | connective _ hd ih => exact .connective ih fun hp => (hd hp).imp (hR _ _ _)
  | switch _ _ _ _ ihe ihv ihr ihd => exact .switch ihe ihv ihr ihd
  | typeswitch _ _ hb hx ihe ihr => exact .typeswitch ihe ihr hb hx
  | cast _ ih => exact .cast ih
  | boolean _ ih => exact .boolean ih
  | not _ ih => exact .not ih
  | compare _ _ ihl ihr => exact .compare ihl ihr
  | range _ ih => exact .range ih
  | position => exact .position
  | literal => exact .literal
  | var hx => exact .var hx
  | external hf _ ih => exact .external hf ih
  | failing => exact .failing

/-- The places alone, whatever the operands of connectives are. -/
theorem stable_places : Stable checks S fun _ _ _ => True :=
  ⟨fun _ _ _ => trivial, fun _ _ => trivial⟩

theorem Expr.Ranked.becomes (hR : Stable checks S R) {x : Expr} (h : e.Becomes checks S k x)
    (he : e.Ranked R S p) : x.Ranked R S p ∧ (p = .exposed → e.Silent S → x.Silent S) := by
  induction h with
  | refl => exact ⟨he, fun _ => id⟩
  | rewrites hK hr _ ih =>
    obtain ⟨h₁, hs₁⟩ := hr.ranked hR hK he _ rfl
    obtain ⟨h₂, hs₂⟩ := ih h₁
    exact ⟨h₂, fun hp => hs₂ hp ∘ hs₁ hp⟩
  | operand hm _ ih =>
    obtain ⟨h, hs⟩ := ih (he.part hm)
    exact ⟨h, fun hp he => hs hp (he.part hm)⟩
  | argument _ ih =>
    obtain ⟨h, hs⟩ := ih (he.part (List.mem_singleton_self _))
    exact ⟨h, fun hp he => hs hp (he.part (List.mem_singleton_self _))⟩

/-- A second operand without a source is distinct from any first one. -/
theorem Distinct.of_silent (d : Expr) (h : ∀ x, e.Becomes checks S k x → x.Silent S) :
    Distinct checks S k d e :=
  ⟨fun _ y _ hy _ _ => h y hy, .inr fun _ _ h' => h _ h'⟩

theorem distinct_of_silent (d : Expr) (he : e.Ranked R S .exposed) (h : e.Silent S) :
    Distinct checks S k d e :=
  .of_silent d fun _ hx =>
    (Expr.Ranked.becomes stable_places hx (he.mono fun _ _ _ _ => trivial)).2 rfl h

/-- Rewriting keeps distinct operands distinct. -/
theorem stable_distinct : Stable checks S (Distinct checks S) := by
  refine ⟨fun h hd he => h.follow hd he, fun {k d e} _ he => .of_silent d fun x hx => ?_⟩
  exact (Expr.Ranked.becomes stable_places hx (he.mono fun _ _ _ _ => trivial)).1.silent

/-! ## Calls -/

/-- A call that is not refused stays a call of the function, and its literal arguments stay. -/
theorem Rewrites.of_call {K : Known} {fn : ExternalFn} {es : List Expr} {tail : Bool} {span : Span}
    {r : Except CompileError Expr} (h : Rewrites checks K (.external fn es tail span) r) :
    ∀ e', r = .ok e' → e'.Blank ∨ ∃ ds, e' = .external fn ds tail span ∧ ds.length = es.length ∧
      ∀ (i : Nat) (v : Value), es[i]? = some (.literal v) → ds[i]? = some (.literal v) := by
  generalize hc : Expr.external fn es tail span = c at h
  induction h generalizing es with
  | refl => subst hc; intro e' h; cases h; exact .inr ⟨es, rfl, rfl, fun _ _ h => h⟩
  | trans _ h₂ ih₁ ih₂ =>
    intro e' hr
    rcases ih₁ hc _ rfl with hb | ⟨ds, rfl, hlen, hds⟩
    · exact .inl (h₂.blank hb e' hr)
    · refine (ih₂ rfl e' hr).imp_right fun ⟨fs, he, hlen', hfs⟩ => ?_
      exact ⟨fs, he, hlen'.trans hlen, fun i v hv => hfs i v (hds i v hv)⟩
  | rule h => subst hc; intro e' hr; subst hr; cases h
  | inside F h _ =>
    intro e' hr
    cases hr
    cases F with
    | argument fn ds fs tail span =>
      cases hc
      refine .inr ⟨_, rfl, by simp, fun i v hv => ?_⟩
      rw [List.getElem?_append, List.getElem?_cons] at hv ⊢
      by_cases hi : i < ds.length
      · rwa [if_pos hi] at hv ⊢
      rw [if_neg hi] at hv ⊢
      by_cases hz : i - ds.length = 0
      · rw [if_pos hz] at hv ⊢
        cases hv
        cases h.of_literal
        rfl
      · rwa [if_neg hz] at hv ⊢
    | _ => cases hc
  | first => intro e' hr; cases hr
  | park => intro e' hr; cases hr; exact .inl trivial
  | known => cases hc
  | bound => cases hc
  | boundFails => cases hc

theorem Expr.Becomes.of_call {fn : ExternalFn} {es : List Expr} {tail : Bool} {span : Span}
    {x : Expr} (h : (Expr.external fn es tail span).Becomes checks S k x) :
    x.Blank ∨ ∃ ds, x = .external fn ds tail span ∧ ds.length = es.length ∧
      ∀ (i : Nat) (v : Value), es[i]? = some (.literal v) → ds[i]? = some (.literal v) := by
  generalize hc : Expr.external fn es tail span = c at h
  induction h generalizing es with
  | refl => exact .inr ⟨es, hc.symm, rfl, fun _ _ h => h⟩
  | rewrites _ hr hx ih =>
    subst hc
    rcases hr.of_call _ rfl with hb | ⟨ds, rfl, hlen, hds⟩
    · exact .inl (hx.blank hb)
    · refine (ih rfl).imp_right fun ⟨fs, he, hlen', hfs⟩ => ?_
      exact ⟨fs, he, hlen'.trans hlen, fun i v hv => hfs i v (hds i v hv)⟩
  | operand => cases hc
  | argument => cases hc

/-- Two calls are distinct if they differ in the function, the number of arguments, or an argument
that is a literal in both. -/
theorem distinct_calls {fn fn' : ExternalFn} {es ds : List Expr} {t t' : Bool} {s s' : Span}
    (h : fn.name ≠ fn'.name ∨ es.length ≠ ds.length ∨ ∃ (i : Nat) (v w : Value),
      es[i]? = some (.literal v) ∧ ds[i]? = some (.literal w) ∧ w.same v = false) :
    Distinct checks S k (.external fn es t s) (.external fn' ds t' s') := by
  refine ⟨fun x y hx hy _ hs => ?_, .inr fun fs span hc => ?_⟩
  · rcases hy.of_call with hb | ⟨ds', rfl, hlen', hds⟩
    · exact hb.silent
    rcases hx.of_call with hb | ⟨es', rfl, hlen, hes⟩
    · exact hb.silent.same hs
    simp only [Expr.same, Bool.and_eq_true, beq_iff_eq] at hs
    have hargs := sameList_forall₂ hs.2 fun _ _ _ _ h => h
    rcases h with hne | hne | ⟨i, v, w, hv, hw, hvw⟩
    · exact absurd hs.1.symm hne
    · rw [← hlen, ← hlen'] at hne
      exact absurd hargs.length_eq.symm hne
    · obtain ⟨hi, hv⟩ := List.getElem?_eq_some_iff.mp (hes i v hv)
      obtain ⟨hi', hw⟩ := List.getElem?_eq_some_iff.mp (hds i w hw)
      have hsame : w.same v = true := by
        have := hargs.get hi' hi
        rw [List.get_eq_getElem, List.get_eq_getElem, hv, hw] at this
        exact this
      rw [hvw] at hsame
      cases hsame
  · rcases hc.of_call with hb | ⟨ds', he, _⟩
    · exact hb.elim
    · cases he

end

end QueryExpr
