import Mathlib.Data.List.Forall2
import QueryExpr.Expr.Equality
import QueryExpr.Proofs.Soundness
import QueryExpr.Proofs.Tree

/-!
# QueryExpr.Proofs.Same

Expressions that are structurally equal may differ in spans, tail marks, names of variables, and
everything but the names of external functions.

* `sameList_forall₂` …   — equal lists of parts have equal parts in corresponding places.
* `Expr.same_induction` — induction over two equal expressions, side by side.
-/

namespace QueryExpr

/-! ## Case heads -/

namespace CaseHead

variable {p q : CaseHead}

theorem admits_of_same (h : p.same q = true) (v : Value) : p.admits v = q.admits v := by
  simp only [same, Bool.and_eq_true, beq_iff_eq] at h
  simp only [admits, h.2]

theorem bind_of_same (h : p.same q = true) (v : Value) (c : Context) :
    p.bind v c = q.bind v c := by
  simp only [same, Bool.and_eq_true] at h
  have hv := h.1
  unfold sameVar? at hv
  split at hv
  · rename_i hp hq
    simp only [bind, hp, hq]
  · rename_i x y hp hq
    have hid : x.id = y.id := by simpa [Var.same] using hv
    simp only [bind, hp, hq, hid]
  · cases hv

end CaseHead

/-! ## Lists of parts -/

theorem sameList_forall₂ {R : Expr → Expr → Prop} {es ds : List Expr}
    (h : sameList es ds = true) (hR : ∀ e ∈ es, ∀ d ∈ ds, e.same d = true → R e d) :
    List.Forall₂ R es ds := by
  induction es generalizing ds with
  | nil =>
    cases ds with
    | nil => exact .nil
    | cons d ds => simp [sameList] at h
  | cons e es ih =>
    cases ds with
    | nil => simp [sameList] at h
    | cons d ds =>
      simp only [sameList, Bool.and_eq_true] at h
      refine .cons (hR e (List.mem_cons_self ..) d (List.mem_cons_self ..) h.1) (ih h.2 ?_)
      exact fun a ha b hb => hR a (List.mem_cons_of_mem _ ha) b (List.mem_cons_of_mem _ hb)

theorem sameCases_forall₂ {R : Expr × Expr → Expr × Expr → Prop} {cs ds : List (Expr × Expr)}
    (h : sameCases cs ds = true)
    (hR : ∀ p ∈ cs, ∀ q ∈ ds, p.1.same q.1 = true → p.2.same q.2 = true → R p q) :
    List.Forall₂ R cs ds := by
  induction cs generalizing ds with
  | nil =>
    cases ds with
    | nil => exact .nil
    | cons q ds => simp [sameCases] at h
  | cons p cs ih =>
    cases ds with
    | nil => simp [sameCases] at h
    | cons q ds =>
      simp only [sameCases, Bool.and_eq_true] at h
      refine .cons (hR p (List.mem_cons_self ..) q (List.mem_cons_self ..) h.1.1 h.1.2) (ih h.2 ?_)
      exact fun a ha b hb => hR a (List.mem_cons_of_mem _ ha) b (List.mem_cons_of_mem _ hb)

theorem sameTypeCases_forall₂ {R : CaseHead × Expr → CaseHead × Expr → Prop}
    {cs ds : List (CaseHead × Expr)} (h : sameTypeCases cs ds = true)
    (hR : ∀ p ∈ cs, ∀ q ∈ ds, p.1.same q.1 = true → p.2.same q.2 = true → R p q) :
    List.Forall₂ R cs ds := by
  induction cs generalizing ds with
  | nil =>
    cases ds with
    | nil => exact .nil
    | cons q ds => simp [sameTypeCases] at h
  | cons p cs ih =>
    cases ds with
    | nil => simp [sameTypeCases] at h
    | cons q ds =>
      simp only [sameTypeCases, Bool.and_eq_true] at h
      refine .cons (hR p (List.mem_cons_self ..) q (List.mem_cons_self ..) h.1.1 h.1.2) (ih h.2 ?_)
      exact fun a ha b hb => hR a (List.mem_cons_of_mem _ ha) b (List.mem_cons_of_mem _ hb)

/-! ## Expressions -/

/-- Equal expressions are of one kind. -/
theorem Expr.kind_of_same {d e : Expr} (h : d.same e = true) : d.kind = e.kind := by
  cases d <;> cases e <;>
    simp only [Expr.same, Bool.and_eq_true, beq_iff_eq, Bool.false_eq_true] at h
  all_goals first
    | rfl
    | (rw [Expr.kind, Expr.kind, h.1])

/-- Induction over two equal expressions, side by side: what holds of corresponding parts holds of
the nodes over them. A property of all nodes of each expression is at hand for the nodes. -/
theorem Expr.same_induction {p q : Expr → Prop} {motive : Expr → Expr → Prop}
    (connective : ∀ {k es ds s s'}, List.Forall₂ motive es ds →
      motive (.connective k es s) (.connective k ds s'))
    (switch : ∀ {e d cs ds o o' s s'}, motive e d →
      List.Forall₂ (fun p q => motive p.1 q.1 ∧ motive p.2 q.2) cs ds → motive o o' →
      motive (.switch e cs o s) (.switch d ds o' s'))
    (typeswitch : ∀ {e d cs ds s s'}, motive e d →
      List.Forall₂ (fun p q => p.1.same q.1 = true ∧ motive p.2 q.2) cs ds →
      motive (.typeswitch e cs s) (.typeswitch d ds s'))
    (cast : ∀ {e d t s s'}, motive e d → motive (.cast e t s) (.cast d t s'))
    (call : ∀ {fn e d s s'}, motive e d → motive (.call fn e s) (.call fn d s'))
    (compare : ∀ {op l l' r r' s s'}, motive l l' → motive r r' →
      motive (.compare op l r s) (.compare op l' r' s'))
    (range : ∀ {b b' e d s s'}, b.same b' = true → motive e d →
      motive (.range b e s) (.range b' d s'))
    (position : ∀ {i j s s'}, motive (.position i j s) (.position i j s'))
    (literal : ∀ {v w}, p (.literal v) → q (.literal w) → v.same w = true →
      motive (.literal v) (.literal w))
    (var : ∀ {x y s s'}, x.id = y.id → motive (.var x s) (.var y s'))
    (external : ∀ {fn fn' es ds t t' s s'}, p (.external fn es t s) →
      q (.external fn' ds t' s') → fn.name = fn'.name → List.Forall₂ motive es ds →
      motive (.external fn es t s) (.external fn' ds t' s'))
    (failing : ∀ {t t' type type' s s'}, t.same t' = true →
      motive (.failing t type s) (.failing t' type' s'))
    {e d : Expr} (he : e.Every p) (hd : d.Every q) (h : e.same d = true) : motive e d := by
  induction e generalizing d with
  | connective k es s ih =>
    cases d with
    | connective k' ds s' =>
      simp only [same, Bool.and_eq_true, beq_iff_eq] at h
      obtain ⟨rfl, h⟩ := h
      have hes := (every_connective.mp he).2
      have hds := (every_connective.mp hd).2
      exact connective (sameList_forall₂ h fun a ha b hb => ih a ha (hes a ha) (hds b hb))
    | _ => simp [same] at h
  | switch e cs o s ihe ihcs iho =>
    cases d with
    | switch d ds o' s' =>
      simp only [same, Bool.and_eq_true] at h
      obtain ⟨-, he, hcs, ho⟩ := every_switch.mp he
      obtain ⟨-, hd, hds, ho'⟩ := every_switch.mp hd
      refine switch (ihe he hd h.1.1) (sameCases_forall₂ h.1.2 fun a ha b hb h₁ h₂ => ?_)
        (iho ho ho' h.2)
      exact ⟨(ihcs a ha).1 (hcs a ha).1 (hds b hb).1 h₁, (ihcs a ha).2 (hcs a ha).2 (hds b hb).2 h₂⟩
    | _ => simp [same] at h
  | typeswitch e cs s ihe ihcs =>
    cases d with
    | typeswitch d ds s' =>
      simp only [same, Bool.and_eq_true] at h
      obtain ⟨-, he, hcs⟩ := every_typeswitch.mp he
      obtain ⟨-, hd, hds⟩ := every_typeswitch.mp hd
      refine typeswitch (ihe he hd h.1) (sameTypeCases_forall₂ h.2 fun a ha b hb h₁ h₂ => ?_)
      exact ⟨h₁, ihcs a ha (hcs a ha) (hds b hb) h₂⟩
    | _ => simp [same] at h
  | cast e t s ih =>
    cases d with
    | cast d t' s' =>
      simp only [same, Bool.and_eq_true, beq_iff_eq] at h
      obtain ⟨h, rfl⟩ := h
      exact cast (ih (every_cast.mp he).2 (every_cast.mp hd).2 h)
    | _ => simp [same] at h
  | call fn e s ih =>
    cases d with
    | call fn' d s' =>
      simp only [same, Bool.and_eq_true, beq_iff_eq] at h
      obtain ⟨rfl, h⟩ := h
      exact call (ih (every_call.mp he).2 (every_call.mp hd).2 h)
    | _ => simp [same] at h
  | compare op l r s ihl ihr =>
    cases d with
    | compare op' l' r' s' =>
      simp only [same, Bool.and_eq_true, beq_iff_eq] at h
      obtain ⟨⟨rfl, hl⟩, hr⟩ := h
      obtain ⟨-, hel, her⟩ := every_compare.mp he
      obtain ⟨-, hdl, hdr⟩ := every_compare.mp hd
      exact compare (ihl hel hdl hl) (ihr her hdr hr)
    | _ => simp [same] at h
  | range b e s ih =>
    cases d with
    | range b' d s' =>
      simp only [same, Bool.and_eq_true] at h
      exact range h.1 (ih (every_range.mp he).2 (every_range.mp hd).2 h.2)
    | _ => simp [same] at h
  | position i j s =>
    cases d with
    | position i' j' s' =>
      simp only [same, Bool.and_eq_true, beq_iff_eq] at h
      obtain ⟨rfl, rfl⟩ := h
      exact position
    | _ => simp [same] at h
  | literal v =>
    cases d with
    | literal w => exact literal (every_literal.mp he) (every_literal.mp hd) h
    | _ => simp [same] at h
  | var x s =>
    cases d with
    | var y s' => exact var (by simpa [same, Var.same] using h)
    | _ => simp [same] at h
  | external fn es t s ih =>
    cases d with
    | external fn' ds t' s' =>
      simp only [same, Bool.and_eq_true, beq_iff_eq] at h
      obtain ⟨hfn, hes⟩ := every_external.mp he
      obtain ⟨hfn', hds⟩ := every_external.mp hd
      exact external hfn hfn' h.1
        (sameList_forall₂ h.2 fun a ha b hb => ih a ha (hes a ha) (hds b hb))
    | _ => simp [same] at h
  | failing t type s =>
    cases d with
    | failing t' type' s' =>
      simp only [same, Bool.and_eq_true] at h
      exact failing h.1
    | _ => simp [same] at h

end QueryExpr
