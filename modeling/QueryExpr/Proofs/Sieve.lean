import QueryExpr.Proofs.Vocabulary

/-!
# QueryExpr.Proofs.Sieve

What a vocabulary does not look at: the bounds of position tests and of range comparisons, and the
tail marks of calls.

* `Sieve`           — a choice of all three.
* `Expr.Sifted`     — an expression has no other tests, comparisons and calls.
* `Rewrites.sifted` — rewriting keeps this, if overlaps are in the choice.
-/

namespace QueryExpr

/-- A choice of position tests and range comparisons by their bounds, and of external calls by their
tail marks. -/
structure Sieve where
  position : Int64 → Int64 → Prop
  range : Bounds → Prop
  call : Bool → Prop

/-- A node is in the choice. -/
def Sieve.Lets (S : Sieve) : Expr → Prop
  | .position a b _ => S.position a b
  | .range b _ _ => S.range b
  | .external _ _ tail _ => S.call tail
  | _ => True

/-- All nodes of an expression are in the choice. -/
def Expr.Sifted (S : Sieve) (e : Expr) : Prop := e.Every S.Lets

/-- The overlap of two tests or of two comparisons is in the choice, too. -/
structure Sieve.Overlaps (S : Sieve) : Prop where
  position : ∀ {a b a' b' : Int64}, S.position a b → S.position a' b' →
    ¬ (if b' < b then b' else b) < (if a < a' then a' else a) →
    S.position (if a < a' then a' else a) (if b' < b then b' else b)
  range : ∀ {b b' : Bounds}, S.range b → S.range b' → S.range (b.inter b')

section
variable {S : Sieve} {checks : Checks}

theorem Expr.sifted_literal (v : Value) : (Expr.literal v).Sifted S :=
  Expr.every_literal.mpr trivial

theorem Expr.sifted_failing (t : CompileError) (type : SeqType) (span : Span) :
    (Expr.failing t type span).Sifted S :=
  Expr.every_failing.mpr trivial

/-! ## Rules -/

theorem merge?_sifted (hS : S.Overlaps) {c : Connective} {d e : Expr} {m : Noted Expr}
    (hd : d.Sifted S) (he : e.Sifted S) (h : d.merge? c e = some m) : m.value.Sifted S := by
  rcases merge?_cases h with ⟨a, b, s, a', b', s', lo, hi, rfl, rfl, rfl, rfl, rfl, hm⟩ |
    ⟨b, d', s, b', e', s', rfl, rfl, rfl, _, _, _, hm⟩ |
    ⟨l, v, s, l', w, s', rfl, rfl, rfl, _, _, hm⟩
  · by_cases hlt : (if b' < b then b' else b) < (if a < a' then a' else a)
    · rw [hm, if_pos hlt]; exact Expr.sifted_literal _
    · rw [hm, if_neg hlt]
      exact Expr.every_position.mpr
        (hS.position (Expr.every_position.mp hd) (Expr.every_position.mp he) hlt)
  · rw [hm]
    split
    · exact Expr.sifted_literal _
    · obtain ⟨hb, hd'⟩ := Expr.every_range.mp hd
      exact Expr.every_range.mpr ⟨hS.range hb (Expr.every_range.mp he).1, hd'⟩
  · rw [hm]
    obtain ⟨-, hl, -⟩ := Expr.every_compare.mp hd
    exact Expr.every_compare.mpr ⟨trivial, hl, Expr.sifted_literal _⟩

theorem OperandRule.sifted (hS : S.Overlaps) {c : Connective} {span : Span} {es fs : List Expr}
    (h : OperandRule c span es fs) (hes : ∀ e ∈ es, e.Sifted S) : ∀ e ∈ fs, e.Sifted S :=
  h.forall_mem (fun _ _ he => (Expr.every_call.mp he).2)
    (fun _ _ hd => (Expr.every_connective.mp hd).2) (Expr.sifted_literal _)
    (fun v t _ => Expr.sifted_failing (.eval t) v.type span)
    (fun _ _ _ hd he hm => merge?_sifted hS hd he hm) hes

theorem Rule.sifted (hS : S.Overlaps) {e e' : Expr} (h : Rule checks e (.ok e'))
    (he : e.Sifted S) : e'.Sifted S := by
  cases h with
  | operands h =>
    exact Expr.every_connective.mpr ⟨trivial, h.sifted hS (Expr.every_connective.mp he).2⟩
  | singleOperand =>
    have he' := (Expr.every_connective.mp he).2 _ (List.mem_singleton_self _)
    exact Expr.every_call.mpr ⟨trivial, he'⟩
  | negations _ hn =>
    have hargs := negated?_every hn (Expr.every_connective.mp he).2
    exact Expr.every_call.mpr ⟨trivial, Expr.every_connective.mpr ⟨trivial, hargs⟩⟩
  | core => exact Expr.every_call.mpr ⟨trivial, (Expr.every_call.mp (Expr.every_call.mp he).2).2⟩
  | isBoolean => exact (Expr.every_call.mp he).2
  | doubleNegation =>
    exact Expr.every_call.mpr ⟨trivial, (Expr.every_call.mp (Expr.every_call.mp he).2).2⟩
  | castVoid => exact (Expr.every_cast.mp he).2
  | switchDefault => exact (Expr.every_switch.mp he).2.2.2
  | switchBranch _ hc =>
    obtain ⟨v, hv⟩ := chooseCase_branch hc
    exact ((Expr.every_switch.mp he).2.2.1 _ hv).2
  | typeCase hf => exact (Expr.every_typeswitch.mp he).2.2 _ (List.mem_of_find?_eq_some hf)
  | _ => exact Expr.sifted_literal _

/-! ## Rewriting -/

/-- Whether a node is in the choice does not hang on its parts. -/
theorem Sieve.lets_plug {F : Frame} {e e' : Expr} (h : S.Lets (F.plug e)) : S.Lets (F.plug e') := by
  cases F <;> exact h

/-- Rewriting stays in a choice that has all overlaps. -/
theorem Rewrites.sifted (hS : S.Overlaps) {K : Known} {e : Expr} {r : Except CompileError Expr}
    (h : Rewrites checks K e r) (he : e.Sifted S) : ∀ e', r = .ok e' → e'.Sifted S := by
  induction h with
  | refl => intro e' h; cases h; exact he
  | trans _ _ ih₁ ih₂ => exact ih₂ (ih₁ he _ rfl)
  | rule h => intro e' hr; subst hr; exact h.sifted hS he
  | inside F _ ih =>
    intro e' hr
    cases hr
    exact Frame.every_replace he (Sieve.lets_plug he.node) (ih (Frame.every_plug he) _ rfl)
  | first => intro e' hr; cases hr
  | park => intro e' hr; cases hr; exact Expr.sifted_failing _ _ _
  | known => intro e' hr; cases hr; exact Expr.sifted_literal _
  | bound hf _ _ _ ih =>
    exact ih ((Expr.every_typeswitch.mp he).2.2 _ (List.mem_of_find?_eq_some hf))
  | boundFails => intro e' hr; cases hr

end

end QueryExpr
