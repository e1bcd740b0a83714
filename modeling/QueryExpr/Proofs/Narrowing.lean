import QueryExpr.Proofs.NormalForm
import QueryExpr.Proofs.Soundness

/-!
# QueryExpr.Proofs.Narrowing

Rewriting narrows static types.

* `Narrowing`          — a property of types that holds of a join if and only if it holds of both
  parts, and that folding and substitution keep.
* `Rewrites.narrows`   — such a property of the type of an expression holds after rewriting.
* `static_types_sound` — static types are sound, and compilation only narrows them.
-/

namespace QueryExpr

/-- A property of types that all steps of a rewriting keep. -/
structure Narrowing (V : Vocabulary) (P : SeqType → Prop) : Prop where
  join : ∀ {s t : SeqType}, P (s.join t) ↔ P s ∧ P t
  empty : ∀ {e : Expr}, e.Over V → e.type.isEmpty = true → P e.type → P .empty
  known : ∀ {x y : Var} {v : Value}, V.known x v → V.var y → y.same x = true → P y.seqType →
    P v.type
  cast : ∀ {v w : Value} {t : SeqType} {span : Span}, V.target t → v.cast t span = .ok w → P t →
    P w.type
  void : ∀ {s t : SeqType}, V.target t → castIsVoid s t = true → P t → P s

section
variable {V : Vocabulary} {P : SeqType → Prop} {checks : Checks}

theorem Expr.isEmpty_of_isVacuous {e : Expr} (h : e.isVacuous = true) : e.type.isEmpty = true := by
  cases e with
  | literal v =>
    obtain rfl : v = [] := List.isEmpty_iff.mp h
    rfl
  | failing cause type span => cases h
  | _ => simp only [Expr.isVacuous, Bool.and_eq_true] at h; exact h.1

namespace Narrowing

theorem switchType (hN : Narrowing V P) {t : SeqType} {cs : List (Expr × Expr)} :
    P (switchType t cs) ↔ P t ∧ ∀ p ∈ cs, P p.2.type := by
  induction cs generalizing t with
  | nil => simp [QueryExpr.switchType]
  | cons p cs ih =>
    rw [QueryExpr.switchType, ih, hN.join, List.forall_mem_cons, and_assoc]

theorem typeswitchType_some (hN : Narrowing V P) {t : SeqType} {cs : List (CaseHead × Expr)} :
    P (typeswitchType (some t) cs) ↔ P t ∧ ∀ p ∈ cs, P p.2.type := by
  induction cs generalizing t with
  | nil => simp [typeswitchType]
  | cons p cs ih =>
    rw [typeswitchType, ih, hN.join, List.forall_mem_cons, and_assoc]

theorem typeswitchType (hN : Narrowing V P) {p : CaseHead × Expr}
    {cs : List (CaseHead × Expr)} :
    P (typeswitchType none (p :: cs)) ↔ ∀ q ∈ p :: cs, P q.2.type := by
  rw [QueryExpr.typeswitchType, hN.typeswitchType_some, List.forall_mem_cons]

theorem typeCase (hN : Narrowing V P) {cs : List (CaseHead × Expr)} {p : CaseHead × Expr}
    (hp : p ∈ cs) (h : P (QueryExpr.typeswitchType none cs)) : P p.2.type := by
  cases cs with
  | nil => cases hp
  | cons q cs => exact hN.typeswitchType.mp h p hp

theorem vacuous (hN : Narrowing V P) {cs : List (CaseHead × Expr)}
    (hcs : ∀ p ∈ cs, p.2.Over V) (hv : ∀ p ∈ cs, p.2.isVacuous = true)
    (h : P (QueryExpr.typeswitchType none cs)) : P .empty := by
  cases cs with
  | nil => exact h
  | cons p cs =>
    have hp := hN.typeCase (List.mem_cons_self ..) h
    refine hN.empty (hcs p (List.mem_cons_self ..)) ?_ hp
    exact Expr.isEmpty_of_isVacuous (hv p (List.mem_cons_self ..))

/-! ## Rules -/

theorem rule (hN : Narrowing V P) {e e' : Expr} (h : Rule checks e (.ok e')) (he : e.Over V)
    (hP : P e.type) : P e'.type := by
  cases h with
  | isBoolean ht => rw [ht]; exact hP
  | castLiteral hw => exact hN.cast (Expr.every_cast.mp he).1 hw hP
  | castVoid hv => exact hN.void (Expr.every_cast.mp he).1 hv hP
  | switchDefault => exact (hN.switchType.mp hP).1
  | switchBranch _ hc =>
    obtain ⟨v, hv⟩ := chooseCase_branch hc
    exact (hN.switchType.mp hP).2 _ hv
  | vacuous hv => exact hN.vacuous (Expr.every_typeswitch.mp he).2.2 hv hP
  | typeCase hf => exact hN.typeCase (List.mem_of_find?_eq_some hf) hP
  | _ => exact hP

theorem plug (hN : Narrowing V P) {F : Frame} {e e' : Expr} (h : P e.type → P e'.type)
    (hP : P (F.plug e).type) : P (F.plug e').type := by
  cases F with
  | caseResult o bs v cs d span =>
    have hP := hN.switchType.mp hP
    exact hN.switchType.mpr ⟨hP.1, forall_mem_replace hP.2 h⟩
  | caseValue o bs r cs d span =>
    have hP := hN.switchType.mp hP
    exact hN.switchType.mpr ⟨hP.1, forall_mem_replace hP.2 id⟩
  | switchDefault o cs span =>
    have hP := hN.switchType.mp hP
    exact hN.switchType.mpr ⟨h hP.1, hP.2⟩
  | typeResult o bs head cs span =>
    simp only [Frame.plug, Expr.type] at hP ⊢
    cases bs with
    | nil =>
      simp only [List.nil_append, hN.typeswitchType, List.forall_mem_cons] at hP ⊢
      exact ⟨h hP.1, hP.2⟩
    | cons b bs =>
      simp only [List.cons_append, hN.typeswitchType, List.forall_mem_cons,
        List.forall_mem_append] at hP ⊢
      exact ⟨hP.1, hP.2.1, h hP.2.2.1, hP.2.2.2⟩
  | _ => exact hP

end Narrowing

/-- A property that all steps keep holds of the type after rewriting. -/
theorem Rewrites.narrows (hV : V.Closed checks) (hN : Narrowing V P) {K : Known} {e : Expr}
    {r : Except CompileError Expr} (h : Rewrites checks K e r) (hK : V.Knows K) (he : e.Over V) :
    ∀ e', r = .ok e' → P e.type → P e'.type := by
  induction h with
  | refl => intro e' hr hP; cases hr; exact hP
  | trans h₁ _ ih₁ ih₂ =>
    intro e' hr hP
    exact ih₂ hK (h₁.over hV hK he _ rfl) e' hr (ih₁ hK he _ rfl hP)
  | rule h => intro e' hr hP; subst hr; exact hN.rule h he hP
  | inside F _ ih =>
    intro e' hr hP
    cases hr
    exact hN.plug (ih hK (Frame.over_plug he) _ rfl) hP
  | first => intro e' hr; cases hr
  | park => intro e' hr hP; cases hr; exact hP
  | known hx hs =>
    intro e' hr hP
    cases hr
    exact hN.known (hK _ hx) (Expr.every_var.mp he) hs hP
  | bound hf hx _ _ ih =>
    intro e' hr hP
    obtain ⟨hK', hr'⟩ := hV.bound hK hf hx he
    exact ih hK' hr' e' hr (hN.typeCase (List.mem_of_find?_eq_some hf) hP)
  | boundFails => intro e' hr; cases hr

end

/-! ## Declared types -/

/-- A variable that is bound by a case to a value. -/
def Declarations.Binds (D : Declarations) (x : Var) (v : Value) : Prop :=
  x.type = D x.id ∧ ∀ t, x.type = some t → t.admits v = true

/-- The expressions in which variables of one number share one declaration, the variable of a case
has no declared type or one that admits what the case admits, casts are to castable types with one
or at most one item, and declared types have bounds with a name. -/
def Vocabulary.declared (D : Declarations) : Vocabulary where
  var x := x.type = D x.id ∧ x.seqType.occurs.Named
  fn f := f.type.occurs.Named
  cases cs := ∀ p ∈ cs, ∀ x, p.1.var = some x → x.type = D x.id ∧
    ∀ t v, x.type = some t → p.1.admits v = true → t.admits v = true
  left _ _ := True
  target t := t.isCastTarget = true
  value _ := True
  known := D.Binds
  parked t := t.occurs.Named

/-- The same, with declared types that have bounds of any choice. -/
def Vocabulary.bounded (D : Declarations) (P : Occurrence → Prop) : Vocabulary :=
  { Vocabulary.declared D with
    var := fun x => x.type = D x.id ∧ P x.seqType.occurs
    fn := fun f => P f.type.occurs
    parked := fun t => P t.occurs }

/-- The results of the functions that an expression calls are instances of their types. -/
def Host.Conforms {σ : Type} (h : Host σ) (e : Expr) : Prop :=
  ∀ f es tail span, (Expr.external f es tail span).OccursIn e →
    ∀ vs info s v s', h.invoke f vs info s = (.ok v, s') → f.type.admits v = true

section
variable {D : Declarations} {B : Occurrence → Prop}

theorem switchType_bounded (hB : Occurrence.Family B) {t : SeqType} {cs : List (Expr × Expr)}
    (ht : B t.occurs) (hcs : ∀ p ∈ cs, B p.2.type.occurs) : B (switchType t cs).occurs := by
  induction cs generalizing t with
  | nil => exact ht
  | cons p cs ih =>
    obtain ⟨hp, hcs⟩ := List.forall_mem_cons.mp hcs
    exact ih (hB.join ht hp) hcs

theorem typeswitchType_bounded (hB : Occurrence.Family B) {o : Option SeqType}
    {cs : List (CaseHead × Expr)} (ho : ∀ t, o = some t → B t.occurs)
    (hcs : ∀ p ∈ cs, B p.2.type.occurs) : B (typeswitchType o cs).occurs := by
  induction cs generalizing o with
  | nil =>
    cases o with
    | none => exact hB.named (.inl rfl)
    | some t => exact ho t rfl
  | cons p cs ih =>
    obtain ⟨head, r⟩ := p
    obtain ⟨hr, hcs⟩ := List.forall_mem_cons.mp hcs
    cases o with
    | none => exact ih (fun t h => by cases h; exact hr) hcs
    | some t => exact ih (fun u h => by cases h; exact hB.join (ho t rfl) hr) hcs

/-- Static types have bounds of a choice if the declared types have. -/
theorem Expr.type_bounded (hB : Occurrence.Family B) {e : Expr} (he : e.Over (.bounded D B)) :
    B e.type.occurs := by
  induction e with
  | switch e cs d span _ ihcs ihd =>
    obtain ⟨-, -, hcs, hd⟩ := Expr.every_switch.mp he
    exact switchType_bounded hB (ihd hd) fun p hp => (ihcs p hp).2 (hcs p hp).2
  | typeswitch e cs span _ ihcs =>
    obtain ⟨-, -, hcs⟩ := Expr.every_typeswitch.mp he
    exact typeswitchType_bounded hB (fun t h => nomatch h) fun p hp => ihcs p hp (hcs p hp)
  | cast e t span _ => exact hB.named (SeqType.castTarget_named (Expr.every_cast.mp he).1)
  | literal v => exact hB.named v.type_named
  | var x span => exact (Expr.every_var.mp he).2
  | external f es tail span _ => exact (Expr.every_external.mp he).1
  | failing cause t span => exact Expr.every_failing.mp he
  | _ => exact hB.named (.inr (.inl rfl))

theorem Expr.type_named {e : Expr} (he : e.Over (.declared D)) : e.type.occurs.Named :=
  type_bounded Occurrence.family_named he

theorem Vocabulary.bounded_closed (hB : Occurrence.Family B) {checks : Checks} :
    (Vocabulary.bounded D B).Closed checks where
  empty := trivial
  ofBool _ := trivial
  truth _ _ := trivial
  append _ _ := trivial
  cast _ _ _ := trivial
  parked he := Expr.type_bounded hB he
  known _ := trivial
  binds hcs hp hx hadm _ := by
    obtain ⟨hd, hc⟩ := hcs _ hp _ hx
    exact ⟨hd, fun t ht => hc t _ ht hadm⟩
  left _ _ _ _ := trivial
  case _ _ _ hcs := forall_mem_replace hcs id

theorem Vocabulary.declared_closed {checks : Checks} :
    (Vocabulary.declared D).Closed checks :=
  bounded_closed Occurrence.family_named

theorem Declarations.Binds.seqType {x y : Var} {v : Value} (h : D.Binds x v)
    (hy : y.type = D y.id) (hs : y.same x = true) : y.seqType.admits v = true := by
  have hid : y.id = x.id := by simpa [Var.same] using hs
  unfold Var.seqType
  rw [hy, hid, ← h.1]
  cases hx : x.type with
  | none => exact SeqType.anyItems_admits v
  | some t => exact h.2 t hx

/-- To lie within a type is kept by rewriting. -/
theorem narrowing_within (u : SeqType) :
    Narrowing (.declared D) fun t => t.Within u where
  join := SeqType.join_within
  empty := by
    intro e he hz hu
    have hmin := hu.occurs.min
    rw [(Expr.type_named he).zero (SeqType.isEmpty_iff.mp hz)] at hmin
    exact ⟨⟨hmin, fun n hn => ⟨0, rfl, Nat.zero_le n⟩⟩, .inl rfl⟩
  known := by
    intro x y v hb hy hs hu
    exact (Value.type_within hy.2 (hb.seqType hy.1 hs)).trans hu
  cast := by
    intro v w t span ht hw hu
    have hadm := SeqType.castTarget_admits ht hw
    exact (Value.type_within (SeqType.castTarget_named ht) hadm).trans hu
  void := by
    intro s t ht hv hu
    exact (SeqType.castIsVoid_within ht hv).trans hu

theorem Vocabulary.declared_sound {σ : Type} {h : Host σ} {e : Expr} (he : e.Over (.declared D))
    (hh : h.Conforms e) :
    ∃ V : Vocabulary, e.Over V ∧ V.Sound D h := by
  refine ⟨{ Vocabulary.declared D with
    fn := fun f => ∀ vs info s v s', h.invoke f vs info s = (.ok v, s') → f.type.admits v = true },
    fun n hn => ?_, ?_, ?_, ?_, ?_⟩
  · have := he n hn
    cases n with
    | external f es tail span => exact hh f es tail span hn
    | _ => exact this
  · exact fun hx => hx.1
  · exact fun hf hv => hf _ _ _ _ _ hv
  · intro cs p x v t hcs hp hx hadm ht
    obtain ⟨hd, hc⟩ := hcs p hp x hx
    exact hc t v (hd.trans ht) hadm
  · exact id

/-- Static types are sound, and compilation only narrows them. -/
theorem static_types_sound {e : Expr} (he : e.Over (.declared D)) :
    (∀ (σ : Type) (h : Host σ) (c : Context) (s s' : σ) (v : Value), h.Conforms e →
      c.Conforms D → e.eval h c s = (.ok v, s') → e.type.admits v = true) ∧
    ∀ (ctx : CompileContext) (checks : Checks) (e' : Expr), (ctx.compile checks e).1 = .ok e' →
      ∀ v, e'.type.admits v = true → e.type.admits v = true := by
  constructor
  · intro σ h c s s' v hh hc hv
    obtain ⟨V, he, hV⟩ := Vocabulary.declared_sound he hh
    exact Expr.eval_admits hV he hc hv
  · intro ctx checks e' h v hv
    have hr : Reaches checks [] e (e.compile checks).value := e.compile_reaches
    have hw : e'.type.Within e.type :=
      hr.rewrites.narrows Vocabulary.declared_closed (narrowing_within e.type)
        (fun p hp => nomatch hp) he e' h e.type.within_self
    exact hw.admits hv

/-- A typeswitch on an integer with a case for integers and a text for everything else. -/
def integerCase : Expr :=
  .typeswitch (.literal [.integer 5])
    [(⟨some ⟨0, "x", some (.one .integer)⟩, some (.one .integer)⟩,
        .var ⟨0, "x", some (.one .integer)⟩ .unknown),
      (⟨none, none⟩, .literal [.string "a"])] .unknown

/-- The integer alone is left after compilation. -/
theorem static_types_sound_integerCase :
    ((CompileContext.start {} .empty).compile (fun _ _ _ => .ok ()) integerCase).1 =
      .ok (.literal [.integer 5]) ∧
    integerCase.type = .one .anyAtomic ∧
    ∀ v, (Expr.literal [.integer 5]).type.admits v = true → integerCase.type.admits v = true := by
  have he : integerCase.Over (.declared fun _ => some (.one .integer)) := by
    refine Expr.every_typeswitch.mpr ⟨?_, Expr.every_literal.mpr trivial, ?_⟩
    · intro p hp x hx
      simp only [List.mem_cons, List.not_mem_nil, or_false] at hp
      rcases hp with rfl | rfl
      · cases hx
        refine ⟨rfl, fun t v ht hv => ?_⟩
        cases ht
        exact hv
      · cases hx
    · refine List.forall_mem_cons.mpr ⟨Expr.every_var.mpr ⟨rfl, .inr (.inl rfl)⟩, ?_⟩
      exact List.forall_mem_cons.mpr ⟨Expr.every_literal.mpr trivial, by simp⟩
  refine ⟨?h, rfl, (static_types_sound he).2 _ _ _ ?h⟩
  rfl

end

end QueryExpr
