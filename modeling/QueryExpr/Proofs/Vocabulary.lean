import QueryExpr.Proofs.Operands

/-!
# QueryExpr.Proofs.Vocabulary

What expressions are made of, apart from their shape: variables, external functions, cases of
typeswitches, left operands of comparisons, cast targets, literal values and the types of parked
errors.

* `Vocabulary`     — a choice of these.
* `Expr.Over`      — an expression uses nothing else.
* `Rewrites.over`  — rewriting does not leave a closed vocabulary.
-/

namespace QueryExpr

/-- What expressions may use. -/
structure Vocabulary where
  var : Var → Prop
  fn : ExternalFn → Prop
  cases : List (CaseHead × Expr) → Prop
  left : CompareOp → Expr → Prop
  target : SeqType → Prop
  value : Value → Prop
  /-- The values that may stand for a variable. -/
  known : Var → Value → Prop
  parked : SeqType → Prop

/-- A node uses nothing else. -/
def Vocabulary.Allows (V : Vocabulary) : Expr → Prop
  | .typeswitch _ cs _ => V.cases cs
  | .cast _ t _ => V.target t
  | .compare op l _ _ => V.left op l
  | .literal v => V.value v
  | .var x _ => V.var x
  | .external fn _ _ _ => V.fn fn
  | .failing _ t _ => V.parked t
  | _ => True

/-- An expression uses nothing else. -/
def Expr.Over (V : Vocabulary) (e : Expr) : Prop := e.Every V.Allows

/-- All values that stand for variables may do so. -/
def Vocabulary.Knows (V : Vocabulary) (K : Known) : Prop := ∀ p ∈ K, V.known p.1 p.2

/-- Folding, parking, and rewriting of parts do not leave a vocabulary. -/
structure Vocabulary.Closed (V : Vocabulary) (checks : Checks) : Prop where
  empty : V.value []
  ofBool : ∀ b, V.value (.ofBool b)
  truth : ∀ {v span b}, V.value v → v.ebv span = .ok b → V.value (.ofTruth b)
  append : ∀ {v w}, V.value v → V.value w → V.value (v ++ w)
  cast : ∀ {v t span w}, V.target t → V.value v → v.cast t span = .ok w → V.value w
  parked : ∀ {e : Expr}, e.Over V → V.parked e.type
  known : ∀ {x v}, V.known x v → V.value v
  binds : ∀ {cs : List (CaseHead × Expr)} {p : CaseHead × Expr} {x : Var} {v : Value}, V.cases cs →
    p ∈ cs → p.1.var = some x → p.1.admits v = true → V.value v → V.known x v
  left : ∀ {K : Known} {op : CompareOp} {l l' : Expr}, V.Knows K → Rewrites checks K l (.ok l') →
    l.Over V → V.left op l → V.left op l'
  case : ∀ {K : Known} {bs cs : List (CaseHead × Expr)} {head : CaseHead} {r r' : Expr},
    V.Knows K → Rewrites checks K r (.ok r') → r.Over V → V.cases (bs ++ (head, r) :: cs) →
    V.cases (bs ++ (head, r') :: cs)

section
variable {checks : Checks} {V : Vocabulary}

namespace Vocabulary.Closed

theorem over_ofBool (hV : V.Closed checks) (b : Bool) : (Expr.ofBool b).Over V :=
  Expr.every_literal.mpr (hV.ofBool b)

theorem over_failing (hV : V.Closed checks) {e : Expr} (he : e.Over V) (t : CompileError)
    (span : Span) : (Expr.failing t e.type span).Over V :=
  Expr.every_failing.mpr (hV.parked he)

end Vocabulary.Closed

/-! ## Rules -/

theorem merge?_over (hV : V.Closed checks) {c : Connective} {d e : Expr} {m : Noted Expr}
    (hd : d.Over V) (he : e.Over V) (h : d.merge? c e = some m) : m.value.Over V := by
  rcases merge?_cases h with ⟨a, b, s, a', b', s', lo, hi, rfl, rfl, rfl, _, _, hm⟩ |
    ⟨b, d', s, b', e', s', rfl, rfl, rfl, _, _, _, hm⟩ |
    ⟨l, v, s, l', w, s', rfl, rfl, rfl, _, _, hm⟩
  · rw [hm]
    split
    · exact hV.over_ofBool false
    · exact Expr.every_position.mpr trivial
  · rw [hm]
    split
    · exact hV.over_ofBool false
    · exact Expr.every_range.mpr ⟨trivial, (Expr.every_range.mp hd).2⟩
  · rw [hm]
    obtain ⟨hn, hl, hv⟩ := Expr.every_compare.mp hd
    obtain ⟨-, -, hw⟩ := Expr.every_compare.mp he
    have hvw : V.value (v ++ w) := hV.append (Expr.every_literal.mp hv) (Expr.every_literal.mp hw)
    exact Expr.every_compare.mpr ⟨hn, hl, Expr.every_literal.mpr hvw⟩

theorem OperandRule.over (hV : V.Closed checks) {c : Connective} {span : Span} {es fs : List Expr}
    (h : OperandRule c span es fs) (hes : ∀ e ∈ es, e.Over V) : ∀ e ∈ fs, e.Over V := by
  refine h.forall_mem (fun e s he => ?_) (fun ds s hd => ?_) (hV.over_ofBool _) (fun v t hv => ?_)
    (fun d e m hd he hm => merge?_over hV hd he hm) hes
  · exact (Expr.every_call.mp he).2
  · exact (Expr.every_connective.mp hd).2
  · exact hV.over_failing hv _ _

theorem Rule.over (hV : V.Closed checks) {e e' : Expr} (h : Rule checks e (.ok e'))
    (he : e.Over V) : e'.Over V := by
  cases h with
  | operands h =>
    exact Expr.every_connective.mpr ⟨trivial, h.over hV (Expr.every_connective.mp he).2⟩
  | noOperand => exact hV.over_ofBool _
  | decidedOperand => exact hV.over_ofBool _
  | singleOperand =>
    have he' := (Expr.every_connective.mp he).2 _ (List.mem_singleton_self _)
    exact Expr.every_call.mpr ⟨trivial, he'⟩
  | negations _ hn =>
    have hargs := negated?_every hn (Expr.every_connective.mp he).2
    exact Expr.every_call.mpr ⟨trivial, Expr.every_connective.mpr ⟨trivial, hargs⟩⟩
  | core => exact Expr.every_call.mpr ⟨trivial, (Expr.every_call.mp (Expr.every_call.mp he).2).2⟩
  | booleanLiteral hb =>
    have hv : V.value _ := Expr.every_literal.mp (Expr.every_call.mp he).2
    exact Expr.every_literal.mpr (hV.truth hv hb)
  | notLiteral => exact hV.over_ofBool _
  | isBoolean => exact (Expr.every_call.mp he).2
  | doubleNegation =>
    exact Expr.every_call.mpr ⟨trivial, (Expr.every_call.mp (Expr.every_call.mp he).2).2⟩
  | castLiteral hw =>
    obtain ⟨ht, hv⟩ := Expr.every_cast.mp he
    exact Expr.every_literal.mpr (hV.cast ht (Expr.every_literal.mp hv) hw)
  | castVoid => exact (Expr.every_cast.mp he).2
  | compareLiterals => exact hV.over_ofBool _
  | rangeEmpty => exact hV.over_ofBool _
  | rangeLiteral => exact hV.over_ofBool _
  | positionConstant => exact hV.over_ofBool _
  | switchDefault => exact (Expr.every_switch.mp he).2.2.2
  | switchBranch _ hc =>
    obtain ⟨v, hv⟩ := chooseCase_branch hc
    exact ((Expr.every_switch.mp he).2.2.1 _ hv).2
  | vacuous => exact Expr.every_literal.mpr hV.empty
  | typeCase hf => exact (Expr.every_typeswitch.mp he).2.2 _ (List.mem_of_find?_eq_some hf)

/-! ## Rewriting -/

theorem Frame.over_plug {F : Frame} {e : Expr} (h : (F.plug e).Over V) : e.Over V :=
  Frame.every_plug h

/-- A rewritten part in the place of one does not matter for the node. -/
theorem Frame.over_replace (hV : V.Closed checks) {K : Known} (hK : V.Knows K) {F : Frame}
    {e e' : Expr} (hr : Rewrites checks K e (.ok e')) (h : (F.plug e).Over V) (he' : e'.Over V) :
    (F.plug e').Over V := by
  have he := over_plug h
  refine Frame.every_replace h ?_ he'
  have hn : V.Allows (F.plug e) := h.node
  cases F with
  | typeResult o bs head cs span => exact hV.case hK hr he hn
  | left op r span => exact hV.left hK hr he hn
  | _ => exact hn

/-- The variable that a case binds may stand for the value of the operand. -/
theorem Vocabulary.Closed.bound (hV : V.Closed checks) {K : Known} (hK : V.Knows K)
    {cs : List (CaseHead × Expr)} {v : Value} {span : Span} {head : CaseHead} {x : Var} {r : Expr}
    (hf : cs.find? (fun c => c.1.admits v) = some (head, r)) (hx : head.var = some x)
    (he : (Expr.typeswitch (.literal v) cs span).Over V) :
    V.Knows ((x, v) :: K) ∧ r.Over V := by
  obtain ⟨hn, hv, hcs⟩ := Expr.every_typeswitch.mp he
  have hmem := List.mem_of_find?_eq_some hf
  have hadm := List.find?_some hf
  refine ⟨List.forall_mem_cons.mpr ⟨?_, hK⟩, hcs _ hmem⟩
  exact hV.binds hn hmem hx hadm (Expr.every_literal.mp hv)

/-- Rewriting does not leave a closed vocabulary that has the known values. -/
theorem Rewrites.over (hV : V.Closed checks) {K : Known} {e : Expr} {r : Except CompileError Expr}
    (h : Rewrites checks K e r) (hK : V.Knows K) (he : e.Over V) :
    ∀ e', r = .ok e' → e'.Over V := by
  induction h with
  | refl => intro e' h; cases h; exact he
  | trans _ _ ih₁ ih₂ => exact ih₂ hK (ih₁ hK he _ rfl)
  | rule h => intro e' hr; subst hr; exact h.over hV he
  | inside F h ih =>
    intro e' hr
    cases hr
    exact Frame.over_replace hV hK h he (ih hK (Frame.over_plug he) _ rfl)
  | first => intro e' hr; cases hr
  | park => intro e' hr; cases hr; exact hV.over_failing he _ _
  | known hx => intro e' hr; cases hr; exact Expr.every_literal.mpr (hV.known (hK _ hx))
  | bound hf hx _ _ ih =>
    obtain ⟨hK', hr⟩ := hV.bound hK hf hx he
    exact ih hK' hr
  | boundFails => intro e' hr; cases hr

/-! ## Variables -/

/-- Expressions that do not refer to a variable. -/
def Vocabulary.without (x : Var) : Vocabulary where
  var y := ¬ y.same x = true
  fn _ := True
  cases _ := True
  left _ _ := True
  target _ := True
  value _ := True
  known _ _ := True
  parked _ := True

theorem Vocabulary.without_closed (x : Var) : (Vocabulary.without x).Closed checks where
  empty := trivial
  ofBool _ := trivial
  truth _ _ := trivial
  append _ _ := trivial
  cast _ _ _ := trivial
  parked _ := trivial
  known _ := trivial
  binds _ _ _ _ _ := trivial
  left _ _ _ _ := trivial
  case _ _ _ _ := trivial

theorem Vocabulary.over_without {x : Var} {e : Expr} :
    e.Over (Vocabulary.without x) ↔ e.Avoids x := by
  have hn (n : Expr) : (Vocabulary.without x).Allows n ↔ ¬ n.RefersTo x := by
    cases n <;> simp [Vocabulary.Allows, Vocabulary.without, Expr.RefersTo]
  exact ⟨Expr.Every.imp fun n => (hn n).mp, Expr.Every.imp fun n => (hn n).mpr⟩

/-- Rewriting brings no variable in. -/
theorem Rewrites.avoids {K : Known} {e e' : Expr} {x : Var} (h : Rewrites checks K e (.ok e'))
    (he : e.Avoids x) : e'.Avoids x := by
  have he' := Vocabulary.over_without.mpr he
  have h' := h.over (Vocabulary.without_closed x) (fun _ _ => trivial) he' e' rfl
  exact Vocabulary.over_without.mp h'

end

end QueryExpr
