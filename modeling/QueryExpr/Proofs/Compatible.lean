import QueryExpr.Proofs.Interval
import QueryExpr.Proofs.Rules
import QueryExpr.Proofs.Same

/-!
# QueryExpr.Proofs.Compatible

Relations between expressions, each in a context of its own, that every kind of node keeps.

* `Compatible`         — the relation holds of nodes if it holds of their parts.
* `Compatible.plug`    — so it is enough to relate one part in its place.
* `Compatible.agree`   — bindings of a variable that is not referred to do not matter.
* `Compatible.of_same` — structurally equal expressions are related.

A relation may differ where the scores of the parts do not matter: it is a family over a flag.
-/

namespace QueryExpr

/-! ## Bindings -/

section
variable {c c' : Context}

/-- Two contexts differ in the bindings of one variable at most. -/
structure Context.AgreeOff (x : Var) (c c' : Context) : Prop where
  focus : c.focus = c'.focus
  lookup : ∀ id, id ≠ x.id → c.lookup id = c'.lookup id

theorem Context.AgreeOff.symm {x : Var} (h : c.AgreeOff x c') : c'.AgreeOff x c :=
  ⟨h.focus.symm, fun id hid => (h.lookup id hid).symm⟩

theorem Context.AgreeOff.bind {x : Var} (h : c.AgreeOff x c') (head : CaseHead) (v : Value) :
    (head.bind v c).AgreeOff x (head.bind v c') := by
  unfold CaseHead.bind
  split
  · exact h
  · rename_i y hy
    refine ⟨h.focus, fun id hid => ?_⟩
    rw [Context.lookup_bind, Context.lookup_bind, h.lookup id hid]

theorem Context.agreeOff_bind (x : Var) (v : Value) : (c.bind x.id v).AgreeOff x c := by
  refine ⟨rfl, fun id hid => ?_⟩
  rw [Context.lookup_bind, if_neg hid.symm]

end

/-! ## Places -/

/-- Whether the scores of the part in a place do not matter, where those of the node matter or (if
`m`) do not. -/
def Frame.mutes : Frame → Bool → Bool
  | .operand _ _ _ _, m => m
  | .caseResult _ _ _ _ _ _, m => m
  | .switchDefault _ _ _, m => m
  | .typeResult _ _ _ _ _, m => m
  | .callArgument .boolean _, m => m
  | .typeOperand _ _, _ => false
  | .argument _ _ _ _ _, _ => false
  | .switchOperand _ _ _, _ => true
  | .caseValue _ _ _ _ _ _, _ => true
  | .castOperand _ _, _ => true
  | .callArgument .not _, _ => true
  | .left _ _ _, _ => true
  | .right _ _ _, _ => true
  | .rangeOperand _ _, _ => true

/-- The contexts in which the part in a place is evaluated, where the node is evaluated in one,
given what the operand of a type switch yields. -/
def Frame.Reaches (yields : Expr → Context → Value → Prop) (F : Frame) (c : Context) :
    Context → Prop :=
  match F with
  | .typeResult o _ head _ _ => fun c' =>
    ∃ v, yields o c v ∧ head.admits v = true ∧ c' = head.bind v c
  | _ => fun c' => c' = c

theorem forall₂_replace {α : Type} {R : α → α → Prop} (hrefl : ∀ a, R a a) {a b : α}
    (h : R a b) (as bs : List α) : List.Forall₂ R (as ++ a :: bs) (as ++ b :: bs) := by
  induction as with
  | nil => exact .cons h (List.forall₂_same.mpr fun x _ => hrefl x)
  | cons x as ih => exact .cons (hrefl x) ih

/-! ## Compatible relations -/

/-- A relation that nodes inherit from their parts. The results of a type switch must be related
for the values only that the operand `yields`. -/
structure Compatible (R : Bool → Expr → Context → Expr → Context → Prop)
    (yields : Expr → Context → Value → Prop) : Prop where
  refl : ∀ {m e c}, R m e c e c
  connective : ∀ {m k es ds s s' c c'}, List.Forall₂ (fun e d => R m e c d c') es ds →
    R m (.connective k es s) c (.connective k ds s') c'
  switch : ∀ {m e d cs ds o o' s s' c c'}, R true e c d c' →
    List.Forall₂ (fun p q => R true p.1 c q.1 c' ∧ R m p.2 c q.2 c') cs ds → R m o c o' c' →
    R m (.switch e cs o s) c (.switch d ds o' s') c'
  typeswitch : ∀ {m e d cs ds s s' c c'}, R false e c d c' →
    (∀ v, yields e c v → List.Forall₂ (fun p q => p.1.admits v = q.1.admits v ∧
      (p.1.admits v = true → R m p.2 (p.1.bind v c) q.2 (q.1.bind v c'))) cs ds) →
    R m (.typeswitch e cs s) c (.typeswitch d ds s') c'
  cast : ∀ {m e d t s s' c c'}, R true e c d c' → R m (.cast e t s) c (.cast d t s') c'
  boolean : ∀ {m e d s s' c c'}, R m e c d c' → R m (.call .boolean e s) c (.call .boolean d s') c'
  not : ∀ {m e d s s' c c'}, R true e c d c' → R m (.call .not e s) c (.call .not d s') c'
  compare : ∀ {m op l l' r r' s s' c c'}, R true l c l' c' → R true r c r' c' →
    R m (.compare op l r s) c (.compare op l' r' s') c'
  range : ∀ {m b b' e d s s' c c'}, (∀ v, b.test? v = b'.test? v) → R true e c d c' →
    R m (.range b e s) c (.range b' d s') c'
  position : ∀ {m i j s s' c c'}, c.focus = c'.focus →
    R m (.position i j s) c (.position i j s') c'
  literal : ∀ {m v c c'}, R m (.literal v) c (.literal v) c'
  var : ∀ {m x y s s' c c'}, c.lookup x.id = c'.lookup y.id → R m (.var x s) c (.var y s') c'
  external : ∀ {m fn fn' es ds t t' s s' c c'}, fn.name = fn'.name →
    List.Forall₂ (fun e d => R false e c d c') es ds →
    R m (.external fn es t s) c (.external fn' ds t' s') c'
  failing : ∀ {m t t' type type' s s' c c'},
    R m (.failing t type s) c (.failing t' type' s') c'

namespace Compatible

section
variable {R : Bool → Expr → Context → Expr → Context → Prop}
  {yields : Expr → Context → Value → Prop} {m : Bool} {c c' : Context}

/-- To relate a part is to relate the node. -/
theorem plug (hR : Compatible R yields) {F : Frame} {e d : Expr}
    (h : ∀ c', F.Reaches yields c c' → R (F.mutes m) e c' d c') :
    R m (F.plug e) c (F.plug d) c := by
  have hrefl (m : Bool) (e : Expr) : R m e c e c := hR.refl
  have hpair (p : Expr × Expr) : R true p.1 c p.1 c ∧ R m p.2 c p.2 c := ⟨hR.refl, hR.refl⟩
  cases F with
  | operand k ds fs span => exact hR.connective (forall₂_replace (hrefl m) (h c rfl) ds fs)
  | switchOperand cs o span =>
    exact hR.switch (h c rfl) (List.forall₂_same.mpr fun p _ => hpair p) hR.refl
  | caseValue o bs r cs o' span =>
    exact hR.switch hR.refl (forall₂_replace hpair ⟨h c rfl, hR.refl⟩ bs cs) hR.refl
  | caseResult o bs v cs o' span =>
    exact hR.switch hR.refl (forall₂_replace hpair ⟨hR.refl, h c rfl⟩ bs cs) hR.refl
  | switchDefault o cs span =>
    exact hR.switch hR.refl (List.forall₂_same.mpr fun p _ => hpair p) (h c rfl)
  | typeOperand cs span =>
    refine hR.typeswitch (h c rfl) fun v _ => ?_
    exact List.forall₂_same.mpr fun p _ => ⟨rfl, fun _ => hR.refl⟩
  | typeResult o bs head cs span =>
    refine hR.typeswitch hR.refl fun v hv => ?_
    refine forall₂_replace (fun p => ⟨rfl, fun _ => hR.refl⟩) ⟨rfl, fun hadm => ?_⟩ bs cs
    exact h _ ⟨v, hv, hadm, rfl⟩
  | castOperand t span => exact hR.cast (h c rfl)
  | callArgument fn span =>
    cases fn with
    | boolean => exact hR.boolean (h c rfl)
    | not => exact hR.not (h c rfl)
  | left op r span => exact hR.compare (h c rfl) hR.refl
  | right op l span => exact hR.compare hR.refl (h c rfl)
  | rangeOperand b span => exact hR.range (fun _ => rfl) (h c rfl)
  | argument fn ds fs tail span =>
    exact hR.external rfl (forall₂_replace (hrefl false) (h c rfl) ds fs)

/-- An expression is related to itself in contexts that differ in a variable that it does not refer
to. -/
theorem agree (hR : Compatible R yields) {x : Var} {e : Expr} (he : e.Avoids x)
    (h : c.AgreeOff x c') : R m e c e c' := by
  induction e generalizing m c c' with
  | connective k es span ih =>
    have hes := (Expr.every_connective.mp he).2
    exact hR.connective (List.forall₂_same.mpr fun e hm => ih e hm (hes e hm) h)
  | switch e cs d span ihe ihcs ihd =>
    obtain ⟨-, he, hcs, hd⟩ := Expr.every_switch.mp he
    refine hR.switch (ihe he h) (List.forall₂_same.mpr fun p hp => ?_) (ihd hd h)
    exact ⟨(ihcs p hp).1 (hcs p hp).1 h, (ihcs p hp).2 (hcs p hp).2 h⟩
  | typeswitch e cs span ihe ihcs =>
    obtain ⟨-, he, hcs⟩ := Expr.every_typeswitch.mp he
    refine hR.typeswitch (ihe he h) fun v _ => ?_
    refine List.forall₂_same.mpr fun p hp => ⟨rfl, fun _ => ?_⟩
    exact ihcs p hp (hcs p hp) (h.bind p.1 v)
  | cast e t span ih => exact hR.cast (ih (Expr.every_cast.mp he).2 h)
  | call fn e span ih =>
    have he' := (Expr.every_call.mp he).2
    cases fn with
    | boolean => exact hR.boolean (ih he' h)
    | not => exact hR.not (ih he' h)
  | compare op l r span ihl ihr =>
    obtain ⟨-, hl, hr⟩ := Expr.every_compare.mp he
    exact hR.compare (ihl hl h) (ihr hr h)
  | range b e span ih => exact hR.range (fun _ => rfl) (ih (Expr.every_range.mp he).2 h)
  | position a b span => exact hR.position h.focus
  | literal v => exact hR.literal
  | var y span =>
    have hid : y.id ≠ x.id := by simpa [Expr.RefersTo, Var.same] using Expr.every_var.mp he
    exact hR.var (h.lookup _ hid)
  | external fn es tail span ih =>
    have hes := (Expr.every_external.mp he).2
    exact hR.external rfl (List.forall₂_same.mpr fun e hm => ih e hm (hes e hm) h)
  | failing t type span => exact hR.failing

/-- Structurally equal expressions are related, unless literals are equal and yet differ. -/
theorem of_same (hR : Compatible R yields) {p q : Expr → Prop}
    (hlit : ∀ {v w}, p (.literal v) → q (.literal w) → v.same w = true → v = w) {e d : Expr}
    (he : e.Every p) (hd : d.Every q) (h : e.same d = true) : R m e c d c := by
  have hall : ∀ m c, R m e c d c := by
    refine Expr.same_induction (motive := fun e d => ∀ m c, R m e c d c) ?connective ?switch
      ?typeswitch ?cast ?call ?compare ?range ?position ?literal ?var ?external ?failing he hd h
    case connective =>
      intro k es ds s s' h m c
      exact hR.connective (h.imp fun _ _ h => h m c)
    case switch =>
      intro e d cs ds o o' s s' he hcs ho m c
      exact hR.switch (he true c) (hcs.imp fun _ _ h => ⟨h.1 true c, h.2 m c⟩) (ho m c)
    case typeswitch =>
      intro e d cs ds s s' he hcs m c
      refine hR.typeswitch (he false c) fun v _ => ?_
      refine hcs.imp fun p q h => ⟨CaseHead.admits_of_same h.1 v, fun _ => ?_⟩
      rw [CaseHead.bind_of_same h.1]
      exact h.2 m _
    case cast => exact fun he m c => hR.cast (he true c)
    case call =>
      intro fn e d s s' he m c
      cases fn with
      | boolean => exact hR.boolean (he m c)
      | not => exact hR.not (he true c)
    case compare => exact fun hl hr m c => hR.compare (hl true c) (hr true c)
    case range => exact fun hb he m c => hR.range (Bounds.test?_of_same hb) (he true c)
    case position => exact fun m c => hR.position rfl
    case literal =>
      intro v w hv hw h m c
      rw [hlit hv hw h]
      exact hR.literal
    case var => exact fun hid m c => hR.var (by rw [hid])
    case external =>
      intro fn fn' es ds t t' s s' _ _ hfn h m c
      exact hR.external hfn (h.imp fun _ _ h => h false c)
    case failing => exact fun _ m c => hR.failing
  exact hall m c

end

end Compatible

end QueryExpr
