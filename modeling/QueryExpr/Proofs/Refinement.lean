import QueryExpr.Proofs.Compatible
import QueryExpr.Proofs.Meaning

/-!
# QueryExpr.Proofs.Refinement

One expression refines another if it yields whatever the other yields. Failures need not be kept.

* `Refines`            — between two expressions, each in a context of its own.
* `Refines.connective` … `Refines.external` — refinement of the parts is refinement of the node.
* `Refines.plug`       — so it is enough to refine one part in its place.
* `Refines.agree`      — bindings of a variable that is not referred to do not matter.
* `Expr.value?_same`   — structurally equal expressions yield the same, or nothing.
-/

namespace QueryExpr

/-- What one expression yields, the other one yields, too. -/
def Refines (L : Library) (e : Expr) (c : Context) (d : Expr) (c' : Context) : Prop :=
  ∀ v, e.value? L c = some v → d.value? L c' = some v

section
variable {L : Library} {c c' : Context}

/-! ## Lists of parts -/

theorem truth?_refines {k : Connective} {es ds : List Expr}
    (h : List.Forall₂ (fun e d => Refines L e c d c') es ds) {b : Bool}
    (hb : truth? L k es c = some b) : truth? L k ds c' = some b := by
  induction h with
  | nil => exact hb
  | cons he _ ih =>
    rw [truth?] at hb ⊢
    obtain ⟨a, ha, hb⟩ := Option.bind_eq_some_iff.mp hb
    obtain ⟨v, hv, ha⟩ := Option.bind_eq_some_iff.mp ha
    rw [he v hv, Option.bind_some, ha, Option.bind_some]
    split at hb
    · rename_i hk; rw [if_pos hk]; exact hb
    · rename_i hk; rw [if_neg hk]; exact ih hb

theorem argValues?_refines {es ds : List Expr}
    (h : List.Forall₂ (fun e d => Refines L e c d c') es ds) {vs : List Value}
    (hvs : argValues? L es c = some vs) : argValues? L ds c' = some vs := by
  induction h generalizing vs with
  | nil => exact hvs
  | cons he _ ih =>
    rw [argValues?] at hvs ⊢
    obtain ⟨v, hv, hvs⟩ := Option.bind_eq_some_iff.mp hvs
    obtain ⟨ws, hws, rfl⟩ := Option.map_eq_some_iff.mp hvs
    rw [he v hv, Option.bind_some, ih hws, Option.map_some]

theorem caseValue?_refines {i : Option Item} {o o' : Option Value} {cs ds : List (Expr × Expr)}
    (ho : ∀ v, o = some v → o' = some v)
    (h : List.Forall₂ (fun p q => Refines L p.1 c q.1 c' ∧ Refines L p.2 c q.2 c') cs ds)
    {v : Value} (hv : caseValue? L i o cs c = some v) : caseValue? L i o' ds c' = some v := by
  induction h with
  | nil => exact ho v hv
  | cons hp _ ih =>
    rw [caseValue?] at hv ⊢
    obtain ⟨j, hj, hv⟩ := Option.bind_eq_some_iff.mp hv
    obtain ⟨w, hw, hj⟩ := Option.bind_eq_some_iff.mp hj
    rw [hp.1 w hw, Option.bind_some, hj, Option.bind_some]
    split at hv
    · rename_i hm; rw [if_pos hm]; exact hp.2 v hv
    · rename_i hm; rw [if_neg hm]; exact ih hv

theorem typeCaseValue?_refines {v : Value} {cs ds : List (CaseHead × Expr)}
    (h : List.Forall₂ (fun p q => p.1.admits v = q.1.admits v ∧ (p.1.admits v = true →
      Refines L p.2 (p.1.bind v c) q.2 (q.1.bind v c'))) cs ds)
    {w : Value} (hw : typeCaseValue? L v cs c = some w) :
    typeCaseValue? L v ds c' = some w := by
  induction h with
  | nil => exact hw
  | cons hp _ ih =>
    rw [typeCaseValue?] at hw ⊢
    split at hw
    · rename_i hadm; rw [if_pos (hp.1 ▸ hadm)]; exact hp.2 hadm w hw
    · rename_i hadm; rw [if_neg (hp.1 ▸ hadm)]; exact ih hw

/-! ## Nodes -/

namespace Refines

theorem refl (e : Expr) : Refines L e c e c := fun _ h => h

theorem connective {k : Connective} {es ds : List Expr} {s s' : Span}
    (h : List.Forall₂ (fun e d => Refines L e c d c') es ds) :
    Refines L (.connective k es s) c (.connective k ds s') c' := by
  intro v hv
  obtain ⟨b, hb, rfl⟩ := Option.map_eq_some_iff.mp hv
  rw [Expr.value?, truth?_refines h hb, Option.map_some]

theorem switch {e d o o' : Expr} {cs ds : List (Expr × Expr)} {s s' : Span}
    (he : Refines L e c d c')
    (hcs : List.Forall₂ (fun p q => Refines L p.1 c q.1 c' ∧ Refines L p.2 c q.2 c') cs ds)
    (ho : Refines L o c o' c') : Refines L (.switch e cs o s) c (.switch d ds o' s') c' := by
  intro v hv
  rw [Expr.value?] at hv ⊢
  obtain ⟨w, hw, hv⟩ := Option.bind_eq_some_iff.mp hv
  obtain ⟨i, hi, hv⟩ := Option.bind_eq_some_iff.mp hv
  rw [he w hw, Option.bind_some, hi, Option.bind_some]
  exact caseValue?_refines ho hcs hv

theorem typeswitch {e d : Expr} {cs ds : List (CaseHead × Expr)} {s s' : Span}
    (he : Refines L e c d c')
    (hcs : ∀ v, e.value? L c = some v → List.Forall₂ (fun p q => p.1.admits v = q.1.admits v ∧
      (p.1.admits v = true → Refines L p.2 (p.1.bind v c) q.2 (q.1.bind v c'))) cs ds) :
    Refines L (.typeswitch e cs s) c (.typeswitch d ds s') c' := by
  intro v hv
  rw [Expr.value?] at hv ⊢
  obtain ⟨w, hw, hv⟩ := Option.bind_eq_some_iff.mp hv
  rw [he w hw, Option.bind_some]
  exact typeCaseValue?_refines (hcs w hw) hv

theorem cast {e d : Expr} {t : SeqType} {s s' : Span} (he : Refines L e c d c') :
    Refines L (.cast e t s) c (.cast d t s') c' := by
  intro v hv
  rw [Expr.value?] at hv ⊢
  obtain ⟨w, hw, hv⟩ := Option.bind_eq_some_iff.mp hv
  rw [he w hw, Option.bind_some, hv]

theorem call {fn : Builtin} {e d : Expr} {s s' : Span} (he : Refines L e c d c') :
    Refines L (.call fn e s) c (.call fn d s') c' := by
  intro v hv
  rw [Expr.value?] at hv ⊢
  obtain ⟨w, hw, hv⟩ := Option.bind_eq_some_iff.mp hv
  rw [he w hw, Option.bind_some, hv]

theorem compare {op : CompareOp} {l l' r r' : Expr} {s s' : Span} (hl : Refines L l c l' c')
    (hr : Refines L r c r' c') : Refines L (.compare op l r s) c (.compare op l' r' s') c' := by
  intro v hv
  rw [Expr.value?] at hv ⊢
  obtain ⟨w, hw, hv⟩ := Option.bind_eq_some_iff.mp hv
  obtain ⟨u, hu, hv⟩ := Option.bind_eq_some_iff.mp hv
  rw [hl w hw, Option.bind_some, hr u hu, Option.bind_some, hv]

theorem range {b b' : Bounds} {e d : Expr} {s s' : Span} (hb : ∀ v, b.test? v = b'.test? v)
    (he : Refines L e c d c') : Refines L (.range b e s) c (.range b' d s') c' := by
  intro v hv
  rw [Expr.value?] at hv ⊢
  obtain ⟨w, hw, hv⟩ := Option.bind_eq_some_iff.mp hv
  rw [he w hw, Option.bind_some, ← hb, hv]

theorem external {fn fn' : ExternalFn} {es ds : List Expr} {t t' : Bool} {s s' : Span}
    (hfn : fn.name = fn'.name) (h : List.Forall₂ (fun e d => Refines L e c d c') es ds) :
    Refines L (.external fn es t s) c (.external fn' ds t' s') c' := by
  intro v hv
  rw [Expr.value?] at hv ⊢
  obtain ⟨vs, hvs, hv⟩ := Option.bind_eq_some_iff.mp hv
  rw [argValues?_refines h hvs, Option.bind_some, ← hfn, hv]

/-- Every kind of node refines if its parts do. -/
theorem compatible (L : Library) :
    Compatible (fun _ => Refines L) fun e c v => e.value? L c = some v where
  refl := .refl _
  connective := .connective
  switch := .switch
  typeswitch := .typeswitch
  cast := .cast
  boolean := .call
  not := .call
  compare := .compare
  range := .range
  position hf v hv := by rwa [Expr.value?, ← hf]
  literal _ hv := hv
  var hx v hv := by rwa [Expr.value?, ← hx]
  external := .external
  failing _ hv := by cases hv

end Refines

/-! ## One part -/

/-- The contexts in which the part in a place is evaluated, where the node is evaluated in one. -/
def Frame.Enters (L : Library) (F : Frame) (c : Context) : Context → Prop :=
  match F with
  | .typeResult o _ head _ _ => fun c' =>
    ∃ v, o.value? L c = some v ∧ head.admits v = true ∧ c' = head.bind v c
  | _ => fun c' => c' = c

/-- To refine a part is to refine the node. -/
theorem Refines.plug {F : Frame} {e d : Expr}
    (h : ∀ c', F.Enters L c c' → Refines L e c' d c') :
    Refines L (F.plug e) c (F.plug d) c := by
  refine (compatible L).plug (m := false) fun c' hc' => h c' ?_
  cases F <;> exact hc'

/-- What an expression yields does not depend on a variable that it does not refer to. -/
theorem Refines.agree {x : Var} {e : Expr} (he : e.Avoids x) (h : c.AgreeOff x c') :
    Refines L e c e c' :=
  (compatible L).agree (m := false) he h

/-- A node yields nothing if what is evaluated first yields nothing. -/
theorem Frame.value?_first {F : Frame} (hF : F.IsFirst) {e : Expr} (he : e.value? L c = none) :
    (F.plug e).value? L c = none := by
  cases F with
  | operand k ds fs span =>
    obtain rfl : ds = [] := hF
    simp [Frame.plug, Expr.value?, truth?, he]
  | argument fn ds fs tail span =>
    obtain rfl : ds = [] := hF
    simp [Frame.plug, Expr.value?, argValues?, he]
  | caseValue | caseResult | switchDefault | typeResult | right => exact hF.elim
  | _ => simp [Frame.plug, Expr.value?, he]

/-! ## Equal values -/

theorem truth?_forall₂ {k : Connective} {es ds : List Expr}
    (h : List.Forall₂ (fun e d => e.value? L c = d.value? L c') es ds) :
    truth? L k es c = truth? L k ds c' := by
  induction h with
  | nil => rfl
  | cons he _ ih => rw [truth?, truth?, he, ih]

theorem argValues?_forall₂ {es ds : List Expr}
    (h : List.Forall₂ (fun e d => e.value? L c = d.value? L c') es ds) :
    argValues? L es c = argValues? L ds c' := by
  induction h with
  | nil => rfl
  | cons he _ ih => rw [argValues?, argValues?, he, ih]

theorem caseValue?_forall₂ {i : Option Item} {o : Option Value} {cs ds : List (Expr × Expr)}
    (h : List.Forall₂ (fun p q => p.1.value? L c = q.1.value? L c' ∧
      p.2.value? L c = q.2.value? L c') cs ds) :
    caseValue? L i o cs c = caseValue? L i o ds c' := by
  induction h with
  | nil => rfl
  | cons hp _ ih => rw [caseValue?, caseValue?, hp.1, hp.2, ih]

theorem typeCaseValue?_forall₂ {v : Value} {cs ds : List (CaseHead × Expr)}
    (h : List.Forall₂ (fun p q => p.1.admits v = q.1.admits v ∧ (p.1.admits v = true →
      p.2.value? L (p.1.bind v c) = q.2.value? L (q.1.bind v c'))) cs ds) :
    typeCaseValue? L v cs c = typeCaseValue? L v ds c' := by
  induction h with
  | nil => rfl
  | cons hp _ ih =>
    rw [typeCaseValue?, typeCaseValue?, ← hp.1, ih]
    split
    · rename_i hadm; exact hp.2 hadm
    · rfl

/-- Every kind of node yields the same, or nothing, if its parts do. -/
theorem Expr.value?_compatible (L : Library) :
    Compatible (fun _ e c d c' => e.value? L c = d.value? L c')
      fun e c v => e.value? L c = some v where
  refl := rfl
  connective h := by rw [value?, value?, truth?_forall₂ h]
  switch he hcs ho := by
    rw [value?, value?, he, ho]
    congr 1; funext v; congr 1; funext i
    exact caseValue?_forall₂ hcs
  typeswitch {_ e _ _ _ _ _ c _} he hcs := by
    rw [value?, value?, ← he]
    cases hv : e.value? L c with
    | none => rfl
    | some v => exact typeCaseValue?_forall₂ (hcs v hv)
  cast he := by rw [value?, value?, he]
  boolean he := by rw [value?, value?, he]
  not he := by rw [value?, value?, he]
  compare hl hr := by rw [value?, value?, hl, hr]
  range hb he := by simp only [value?, he, hb]
  position hf := by rw [value?, value?, hf]
  literal := rfl
  var hx := hx
  external hfn h := by rw [value?, value?, hfn, argValues?_forall₂ h]
  failing := rfl

/-- Two structurally equal expressions of plain literals yield the same, or nothing. -/
theorem Expr.value?_same {V : Vocabulary} (hV : V.YieldsPlain L) {e d : Expr}
    (he : e.Over V) (hd : d.Over V) (h : e.same d = true) (c : Context) :
    e.value? L c = d.value? L c :=
  (value?_compatible L).of_same (m := false)
    (fun hv hw h => Value.eq_of_same (hV.value hv) (hV.value hw) h) he hd h

end

end QueryExpr
