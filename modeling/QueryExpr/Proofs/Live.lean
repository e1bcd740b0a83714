import QueryExpr.Proofs.Operands

/-!
# QueryExpr.Proofs.Live

Numbers of nodes that rewriting does not make larger.

* `NodeCount`       — a number of nodes, in which parked errors may count for nothing.
* `Rewrites.count`  — such a number is never larger after rewriting than before.
* `Expr.size_count` — the number of all nodes is one.
* `Expr.live`       — the number of the nodes that are no parked errors is one, too. Parking loses
  some of them, so a compilation that parks an error shows in their number.
-/

namespace QueryExpr

/-! ## Counts of nodes -/

/-- The sum of a number over a list of expressions. -/
def totalOf (μ : Expr → Nat) : List Expr → Nat
  | [] => 0
  | e :: es => μ e + totalOf μ es

@[simp] theorem totalOf_nil (μ : Expr → Nat) : totalOf μ [] = 0 := rfl

@[simp] theorem totalOf_cons (μ : Expr → Nat) (e : Expr) (es : List Expr) :
    totalOf μ (e :: es) = μ e + totalOf μ es := rfl

theorem totalOf_append (μ : Expr → Nat) (ds es : List Expr) :
    totalOf μ (ds ++ es) = totalOf μ ds + totalOf μ es := by
  induction ds with
  | nil => simp
  | cons d ds ih => simp only [List.cons_append, totalOf_cons, ih]; omega

theorem totalOf_map_le {μ : Expr → Nat} {f : Expr → Expr} {es : List Expr}
    (h : ∀ e ∈ es, μ (f e) ≤ μ e) : totalOf μ (es.map f) ≤ totalOf μ es := by
  induction es with
  | nil => exact Nat.le_refl _
  | cons e es ih =>
    obtain ⟨he, hes⟩ := List.forall_mem_cons.mp h
    exact Nat.add_le_add he (ih hes)

/-- If no element gets less and the sum is not less, either, no element has changed. -/
theorem totalOf_map_eq {μ : Expr → Nat} {f : Expr → Expr} {es : List Expr}
    (h : ∀ e ∈ es, μ (f e) ≤ μ e) (hle : totalOf μ es ≤ totalOf μ (es.map f)) :
    ∀ e ∈ es, μ (f e) = μ e := by
  induction es with
  | nil => exact fun e he => nomatch he
  | cons e es ih =>
    obtain ⟨he, hes⟩ := List.forall_mem_cons.mp h
    have hrest := totalOf_map_le hes
    simp only [List.map_cons, totalOf_cons] at hle
    exact List.forall_mem_cons.mpr ⟨by omega, ih hes (by omega)⟩

/-- A number of nodes. Every node counts one, but parked errors may all count for nothing. -/
structure NodeCount (μ : Expr → Nat) : Prop where
  node : ∀ e, (∀ t type span, e ≠ .failing t type span) → μ e = 1 + totalOf μ e.children
  failing : ∀ t type span e, μ (.failing t type span) ≤ μ e

namespace NodeCount

section
variable {μ : Expr → Nat} (hμ : NodeCount μ) {checks : Checks}

include hμ

theorem connective (c : Connective) (es : List Expr) (span : Span) :
    μ (.connective c es span) = 1 + totalOf μ es := hμ.node _ nofun

theorem call (fn : Builtin) (e : Expr) (span : Span) : μ (.call fn e span) = 1 + μ e :=
  hμ.node _ nofun

theorem range (b : Bounds) (e : Expr) (span : Span) : μ (.range b e span) = 1 + μ e :=
  hμ.node _ nofun

theorem compare (op : CompareOp) (l r : Expr) (span : Span) :
    μ (.compare op l r span) = 1 + (μ l + μ r) := hμ.node _ nofun

theorem position (a b : Int64) (span : Span) : μ (.position a b span) = 1 := hμ.node _ nofun

theorem literal (v : Value) : μ (.literal v) = 1 := hμ.node _ nofun

theorem part_le {d e : Expr} (hd : d ∈ e.children) : μ d ≤ μ e := by
  rw [hμ.node e (by rintro t type span rfl; cases hd)]
  obtain ⟨bs, cs, h⟩ := List.append_of_mem hd
  simp only [h, totalOf_append, totalOf_cons]
  omega

/-- Only a parked error counts less than a literal. -/
theorem literal_le (v : Value) {e : Expr} (h : ∀ t type span, e ≠ .failing t type span) :
    μ (.literal v) ≤ μ e := by
  rw [hμ.literal, hμ.node e h]
  omega

theorem caseResult_le {e : Expr} {cs : List (CaseHead × Expr)} {span : Span} {p : CaseHead × Expr}
    (hp : p ∈ cs) : μ p.2 ≤ μ (.typeswitch e cs span) :=
  hμ.part_le (List.mem_cons_of_mem e (List.mem_map_of_mem hp))

/-! ## Rules -/

theorem merge?_le {c : Connective} {d e : Expr} {m : Noted Expr} (h : d.merge? c e = some m) :
    μ m.value ≤ μ d + μ e := by
  rcases merge?_cases h with ⟨a, b, s, a', b', s', lo, hi, rfl, rfl, rfl, _, _, hm⟩ |
    ⟨b, d', s, b', e', s', rfl, rfl, rfl, _, _, _, hm⟩ |
    ⟨l, v, s, l', w, s', rfl, rfl, rfl, _, _, hm⟩
  · rw [hm]; split <;> simp only [Expr.ofBool, hμ.literal, hμ.position] <;> omega
  · rw [hm]; split <;> simp only [Expr.ofBool, hμ.literal, hμ.range] <;> omega
  · rw [hm]; simp only [hμ.compare, hμ.literal]; omega

theorem operandRule_le {c : Connective} {span : Span} {es fs : List Expr}
    (h : OperandRule c span es fs) : totalOf μ fs ≤ totalOf μ es := by
  cases h with
  | @undefined _ _ v t =>
    have := hμ.failing (.eval t) v.type span (.literal v)
    simp only [totalOf_append, totalOf_cons, totalOf_nil]
    omega
  | merged _ _ hm =>
    have := hμ.merge?_le hm
    simp only [totalOf_append, totalOf_cons]
    omega
  | _ =>
    simp only [totalOf_append, totalOf_cons, totalOf_nil, Expr.ofBool, hμ.call, hμ.connective,
      hμ.literal]
    omega

theorem negated?_total {es args : List Expr} (h : negated? es = some args) :
    totalOf μ es = totalOf μ args + es.length := by
  induction es generalizing args with
  | nil => cases h; rfl
  | cons e es ih =>
    obtain ⟨arg, s, args', rfl, ha, rfl⟩ := negated?_cons h
    have := ih ha
    simp only [totalOf_cons, hμ.call, List.length_cons]; omega

theorem rule_le {e e' : Expr} (h : Rule checks e (.ok e')) : μ e' ≤ μ e := by
  cases h with
  | operands h =>
    have := hμ.operandRule_le h
    simp only [hμ.connective]; omega
  | singleOperand => simp [hμ.connective, hμ.call]
  | negations hne hn =>
    have := hμ.negated?_total hn
    have := List.length_pos_iff.mpr hne
    simp only [hμ.connective, hμ.call]; omega
  | core => simp only [hμ.call]; omega
  | doubleNegation => simp only [hμ.call]; omega
  | isBoolean => exact hμ.part_le (e := .call _ _ _) (List.mem_singleton_self _)
  | castVoid => exact hμ.part_le (e := .cast _ _ _) (List.mem_singleton_self _)
  | switchDefault => exact hμ.part_le (e := .switch _ _ _ _) (by simp [Expr.children])
  | switchBranch _ hc =>
    obtain ⟨v, hv⟩ := chooseCase_branch hc
    exact ((Expr.forall_children_switch.mp fun d hd => hμ.part_le hd).2.1 _ hv).2
  | typeCase hf => exact hμ.caseResult_le (List.mem_of_find?_eq_some hf)
  | _ => exact hμ.literal_le _ nofun

theorem frame_le {e e' : Expr} (h : μ e' ≤ μ e) (F : Frame) : μ (F.plug e') ≤ μ (F.plug e) := by
  rw [hμ.node (F.plug e) (by cases F <;> nofun), hμ.node (F.plug e') (by cases F <;> nofun)]
  cases F <;>
    simp only [Frame.plug, Expr.children, List.flatMap_append, List.flatMap_cons, List.map_append,
      List.map_cons, totalOf_append, totalOf_cons] <;> omega

end

end NodeCount

/-- Rewriting does not make a number of nodes larger. -/
theorem Rewrites.count {μ : Expr → Nat} (hμ : NodeCount μ) {checks : Checks} {K : Known} {e : Expr}
    {r : Except CompileError Expr} (h : Rewrites checks K e r) :
    ∀ e', r = .ok e' → μ e' ≤ μ e := by
  induction h with
  | refl => intro e' hr; cases hr; exact Nat.le_refl _
  | trans _ _ ih₁ ih₂ => intro e' hr; exact Nat.le_trans (ih₂ e' hr) (ih₁ _ rfl)
  | rule h => intro e' hr; subst hr; exact hμ.rule_le h
  | inside F _ ih => intro e' hr; cases hr; exact hμ.frame_le (ih _ rfl) F
  | first => intro e' hr; cases hr
  | park => intro e' hr; cases hr; exact hμ.failing _ _ _ _
  | known => intro e' hr; cases hr; exact hμ.literal_le _ nofun
  | bound hf _ _ _ ih =>
    intro e' hr
    exact Nat.le_trans (ih e' hr) (hμ.caseResult_le (List.mem_of_find?_eq_some hf))
  | boundFails => intro e' hr; cases hr

/-! ## All nodes -/

theorem sizeList_eq_total (es : List Expr) : sizeList es = totalOf Expr.size es := by
  induction es with
  | nil => rfl
  | cons e es ih => simp only [sizeList, totalOf_cons, ih]

theorem sizeCases_eq_total (cs : List (Expr × Expr)) :
    sizeCases cs = totalOf Expr.size (cs.flatMap fun p => [p.1, p.2]) := by
  induction cs with
  | nil => rfl
  | cons p cs ih =>
    simp only [sizeCases, List.flatMap_cons, List.cons_append, List.nil_append, totalOf_cons, ih]
    omega

theorem sizeTypeCases_eq_total (cs : List (CaseHead × Expr)) :
    sizeTypeCases cs = totalOf Expr.size (cs.map (·.2)) := by
  induction cs with
  | nil => rfl
  | cons p cs ih => simp only [sizeTypeCases, List.map_cons, totalOf_cons, ih]

theorem Expr.size_eq (e : Expr) : e.size = 1 + sizeList e.children := by
  rw [sizeList_eq_total]
  cases e <;>
    simp only [Expr.size, Expr.children, sizeList_eq_total, sizeCases_eq_total,
      sizeTypeCases_eq_total, totalOf_append, totalOf_cons, totalOf_nil] <;> omega

theorem Expr.size_count : NodeCount Expr.size where
  node e _ := sizeList_eq_total e.children ▸ e.size_eq
  failing _ _ _ e := by cases e <;> simp only [Expr.size] <;> omega

/-- Rewriting does not make an expression larger. -/
theorem Rewrites.size {checks : Checks} {K : Known} {e : Expr} {r : Except CompileError Expr}
    (h : Rewrites checks K e r) : ∀ e', r = .ok e' → e'.size ≤ e.size :=
  h.count Expr.size_count

/-! ## Nodes that are no parked errors -/

mutual

/-- The number of nodes that are no parked errors. -/
def Expr.live : Expr → Nat
  | .connective _ es _ => 1 + liveList es
  | .switch e cs d _ => 1 + e.live + liveCases cs + d.live
  | .typeswitch e cs _ => 1 + e.live + liveTypeCases cs
  | .cast e _ _ => 1 + e.live
  | .call _ e _ => 1 + e.live
  | .compare _ l r _ => 1 + l.live + r.live
  | .range _ e _ => 1 + e.live
  | .external _ es _ _ => 1 + liveList es
  | .position _ _ _ => 1
  | .literal _ => 1
  | .var _ _ => 1
  | .failing _ _ _ => 0

def liveList : List Expr → Nat
  | [] => 0
  | e :: es => e.live + liveList es

def liveCases : List (Expr × Expr) → Nat
  | [] => 0
  | (v, r) :: cs => v.live + r.live + liveCases cs

def liveTypeCases : List (CaseHead × Expr) → Nat
  | [] => 0
  | (_, r) :: cs => r.live + liveTypeCases cs

end

/-- Only a parked error has no such node. -/
theorem Expr.live_eq_zero {e : Expr} (h : e.live = 0) :
    ∃ t type span, e = .failing t type span := by
  cases e with
  | failing t type span => exact ⟨t, type, span, rfl⟩
  | _ => simp only [Expr.live] at h; omega

theorem liveList_eq_total (es : List Expr) : liveList es = totalOf Expr.live es := by
  induction es with
  | nil => rfl
  | cons e es ih => simp only [liveList, totalOf_cons, ih]

theorem liveCases_eq_total (cs : List (Expr × Expr)) :
    liveCases cs = totalOf Expr.live (cs.flatMap fun p => [p.1, p.2]) := by
  induction cs with
  | nil => rfl
  | cons p cs ih =>
    simp only [liveCases, List.flatMap_cons, List.cons_append, List.nil_append, totalOf_cons, ih]
    omega

theorem liveTypeCases_eq_total (cs : List (CaseHead × Expr)) :
    liveTypeCases cs = totalOf Expr.live (cs.map (·.2)) := by
  induction cs with
  | nil => rfl
  | cons p cs ih => simp only [liveTypeCases, List.map_cons, totalOf_cons, ih]

theorem Expr.live_count : NodeCount Expr.live where
  node e h := by
    cases e with
    | failing t type span => exact absurd rfl (h t type span)
    | _ =>
      simp only [Expr.live, Expr.children, liveList_eq_total, liveCases_eq_total,
        liveTypeCases_eq_total, totalOf_append, totalOf_cons, totalOf_nil] <;> omega
  failing _ _ _ e := Nat.zero_le e.live

/-- Rewriting does not bring parked errors back to life. -/
theorem Rewrites.live {checks : Checks} {K : Known} {e : Expr} {r : Except CompileError Expr}
    (h : Rewrites checks K e r) : ∀ e', r = .ok e' → e'.live ≤ e.live :=
  h.count Expr.live_count

end QueryExpr
