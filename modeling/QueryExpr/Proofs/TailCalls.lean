import Mathlib.Data.List.Permutation
import QueryExpr.Proofs.Analysis
import QueryExpr.Proofs.NormalForm
import QueryExpr.Proofs.Sieve
import QueryExpr.Query

/-!
# QueryExpr.Proofs.TailCalls

Which external calls of a compiled query are marked as tail calls.

* `TailPlace`       — the places of an expression in tail position.
* `Expr.TailOnly`   — no call in another place is marked.
* `markTail_tailOnly` — marking marks calls in tail position only.
* `Expr.Stays`      — the analysis by an index leaves last operands of conjunctions last, if they
  have marks.
* `tail_marks_iff`  — if and only if it does, all marked calls of a compiled query are tail calls.
-/

namespace QueryExpr

/-! ## Places -/

/-- An expression with a part at the end of a way down; the outermost place comes first. -/
def Expr.under (Fs : List Frame) (e : Expr) : Expr := Fs.foldr Frame.plug e

/-- The part in a place is in tail position if the node is. -/
def Frame.KeepsTail (F : Frame) (e : Expr) : Prop :=
  match F with
  | .operand _ _ fs _ => fs = [] ∧ e.type = .booleanOne
  | .caseResult _ _ _ _ _ _ => True
  | .switchDefault _ _ _ => True
  | .typeResult _ _ _ _ _ => True
  | _ => False

/-- The places in tail position of an expression that is in tail position itself. -/
inductive TailPlace : List Frame → Expr → Prop where
  | root {e : Expr} : TailPlace [] e
  | part {F : Frame} {Fs : List Frame} {e : Expr} :
      F.KeepsTail (e.under Fs) → TailPlace Fs e → TailPlace (F :: Fs) e

/-- An external call that is marked as a tail call. -/
def Expr.IsMarked : Expr → Prop
  | .external _ _ tail _ => tail = true
  | _ => False

/-- Marked calls stand in tail position only. -/
def Expr.TailOnly (e : Expr) : Prop := ∀ Fs d, e = d.under Fs → d.IsMarked → TailPlace Fs d

/-- The choice of calls that are not marked. -/
def Sieve.unmarked : Sieve where
  position _ _ := True
  range _ := True
  call tail := tail = false

/-- No call is marked. -/
abbrev Expr.Unmarked (e : Expr) : Prop := e.Sifted .unmarked

section
variable {e d m : Expr} {c : Connective} {ds es : List Expr} {span : Span}

theorem Sieve.unmarked_lets : Sieve.unmarked.Lets e ↔ ¬ e.IsMarked := by
  cases e <;> simp [Sieve.Lets, Sieve.unmarked, Expr.IsMarked]

theorem Sieve.unmarked_overlaps : Sieve.unmarked.Overlaps :=
  ⟨fun _ _ _ => trivial, fun _ _ => trivial⟩

theorem occursIn_under (Fs : List Frame) (d : Expr) : d.OccursIn (d.under Fs) := by
  induction Fs with
  | nil => exact .self d
  | cons F Fs ih =>
    refine .child ?_ ih
    show d.under Fs ∈ (F.plug (d.under Fs)).children
    cases F <;> simp [Frame.plug, Expr.children]

theorem exists_under (h : d.OccursIn e) : ∃ Fs, e = d.under Fs := by
  induction h with
  | self => exact ⟨[], rfl⟩
  | child hd _ ih =>
    obtain ⟨Fs, rfl⟩ := ih
    obtain ⟨F, rfl⟩ := Frame.exists_plug hd
    exact ⟨F :: Fs, rfl⟩

theorem Expr.Unmarked.tailOnly (h : e.Unmarked) : e.TailOnly := by
  rintro Fs d rfl hd
  exact absurd hd (Sieve.unmarked_lets.mp (h d (occursIn_under Fs d)))

theorem exists_marked (h : ¬ e.Unmarked) : ∃ Fs, ∃ d : Expr, e = d.under Fs ∧ d.IsMarked := by
  refine Classical.byContradiction fun hno => h fun d hd => Sieve.unmarked_lets.mpr fun hm => ?_
  obtain ⟨Fs, hFs⟩ := exists_under hd
  exact hno ⟨Fs, d, hFs, hm⟩

/-- A part has no marked call, or it is in tail position and has no others. -/
theorem Expr.TailOnly.part {F : Frame} (h : (F.plug e).TailOnly) :
    e.Unmarked ∨ F.KeepsTail e ∧ e.TailOnly := by
  by_cases hu : e.Unmarked
  · exact .inl hu
  obtain ⟨Gs, m, rfl, hm⟩ := exists_marked hu
  cases h (F :: Gs) m rfl hm with
  | part hF _ =>
    refine .inr ⟨hF, fun Fs d hFs hd => ?_⟩
    cases h (F :: Fs) d (congrArg F.plug hFs) hd with
    | part _ hd => exact hd

theorem Expr.tailOnly_of_parts
    (h : ∀ (F : Frame) d, e = F.plug d → d.Unmarked ∨ F.KeepsTail d ∧ d.TailOnly) :
    e.TailOnly := by
  intro Fs m hFs hm
  cases Fs with
  | nil => exact .root
  | cons F Fs =>
    rcases h F _ hFs with hu | ⟨hF, ht⟩
    · exact absurd hm (Sieve.unmarked_lets.mp (hu m (occursIn_under Fs m)))
    · exact .part hF (ht Fs m rfl hm)

theorem Expr.tailOnly_connective : (Expr.connective c (ds ++ [m]) span).TailOnly ↔
    (∀ d ∈ ds, d.Unmarked) ∧ (m.Unmarked ∨ m.type = .booleanOne ∧ m.TailOnly) := by
  constructor
  · intro h
    constructor
    · intro d hd
      obtain ⟨as, bs, rfl⟩ := List.append_of_mem hd
      have h' : ((Frame.operand c as (bs ++ [m]) span).plug d).TailOnly := by
        simpa [Frame.plug] using h
      refine h'.part.resolve_right fun hk => ?_
      simpa using hk.1.1
    · have h' : ((Frame.operand c ds [] span).plug m).TailOnly := h
      exact h'.part.imp_right fun hk => ⟨hk.1.2, hk.2⟩
  · rintro ⟨hds, hm⟩
    refine Expr.tailOnly_of_parts fun F d hF => ?_
    cases F <;> simp only [Frame.plug, reduceCtorEq, Expr.connective.injEq] at hF
    rename_i c' as fs s
    obtain ⟨rfl, heq, rfl⟩ := hF
    replace heq := heq.symm
    rcases List.eq_nil_or_concat fs with rfl | ⟨fs, z, rfl⟩
    · obtain ⟨rfl, hmd⟩ := List.append_inj' heq rfl
      cases hmd
      exact hm.imp_right fun hk => ⟨⟨rfl, hk.1⟩, hk.2⟩
    · rw [List.concat_eq_append, ← List.cons_append, ← List.append_assoc] at heq
      obtain ⟨rfl, -⟩ := List.append_inj' heq rfl
      exact .inl (hds d (by simp))

/-! ## Marking -/

theorem markTailCases_eq (cs : List (Expr × Expr)) :
    markTailCases cs = cs.map fun p => (p.1, p.2.markTail) := by
  induction cs with
  | nil => rfl
  | cons p cs ih => rw [markTailCases, ih]; rfl

theorem markTailTypeCases_eq (cs : List (CaseHead × Expr)) :
    markTailTypeCases cs = cs.map fun p => (p.1, p.2.markTail) := by
  induction cs with
  | nil => rfl
  | cons p cs ih => rw [markTailTypeCases, ih]; rfl

theorem markTailLast_concat (ds : List Expr) (m : Expr) :
    markTailLast (ds ++ [m]) = ds ++ [if m.type = .booleanOne then m.markTail else m] := by
  induction ds with
  | nil => rfl
  | cons d ds ih => cases ds <;> simp_all [markTailLast]

theorem switchType_map {g : Expr × Expr → Expr × Expr} {cs : List (Expr × Expr)}
    (h : ∀ p ∈ cs, (g p).2.type = p.2.type) (t : SeqType) :
    switchType t (cs.map g) = switchType t cs := by
  induction cs generalizing t with
  | nil => rfl
  | cons p cs ih =>
    rw [List.forall_mem_cons] at h
    rw [List.map_cons, switchType, switchType, h.1, ih h.2]

theorem typeswitchType_map {g : CaseHead × Expr → CaseHead × Expr} {cs : List (CaseHead × Expr)}
    (h : ∀ p ∈ cs, (g p).2.type = p.2.type) (o : Option SeqType) :
    typeswitchType o (cs.map g) = typeswitchType o cs := by
  induction cs generalizing o with
  | nil => rfl
  | cons p cs ih =>
    rw [List.forall_mem_cons] at h
    cases o <;> rw [List.map_cons, typeswitchType, typeswitchType, h.1] <;> exact ih h.2 _

/-- Marking keeps the type. -/
theorem Expr.markTail_type (e : Expr) : e.markTail.type = e.type := by
  induction e with
  | switch e cs d span _ ihcs ihd =>
    rw [Expr.markTail, Expr.type, Expr.type, ihd, markTailCases_eq]
    exact switchType_map (fun p hp => (ihcs p hp).2) _
  | typeswitch e cs span _ ihcs =>
    rw [Expr.markTail, Expr.type, Expr.type, markTailTypeCases_eq]
    exact typeswitchType_map ihcs _
  | _ => rfl

theorem mem_markTailLast {es : List Expr} {d : Expr} (h : d ∈ markTailLast es) :
    ∃ e ∈ es, d = e ∨ d = e.markTail := by
  rcases List.eq_nil_or_concat es with rfl | ⟨ds, m, rfl⟩
  · cases h
  · rw [List.concat_eq_append] at h ⊢
    rw [markTailLast_concat] at h
    rcases List.mem_append.mp h with h | h
    · exact ⟨d, List.mem_append_left _ h, .inl rfl⟩
    · refine ⟨m, by simp, ?_⟩
      rw [List.mem_singleton.mp h]
      split
      · exact .inr rfl
      · exact .inl rfl

/-- What marking keeps of each node, it keeps of an expression. -/
theorem Expr.markTail_every {q : Expr → Prop} (hq : ∀ n, q n → q n.markTail) (h : e.Every q) :
    e.markTail.Every q := by
  induction e with
  | connective c es span ih =>
    refine Expr.every_connective.mpr ⟨hq _ h.node, fun d hd => ?_⟩
    obtain ⟨e, he, rfl | rfl⟩ := mem_markTailLast hd
    · exact (Expr.every_connective.mp h).2 d he
    · exact ih e he ((Expr.every_connective.mp h).2 e he)
  | switch e cs d span _ ihcs ihd =>
    obtain ⟨hn, he, hcs, hd⟩ := Expr.every_switch.mp h
    rw [Expr.markTail]
    refine Expr.every_switch.mpr ⟨hq _ hn, he, fun p hp => ?_, ihd hd⟩
    rw [markTailCases_eq] at hp
    obtain ⟨q, hq, rfl⟩ := List.mem_map.mp hp
    exact ⟨(hcs q hq).1, (ihcs q hq).2 (hcs q hq).2⟩
  | typeswitch e cs span _ ihcs =>
    obtain ⟨hn, he, hcs⟩ := Expr.every_typeswitch.mp h
    rw [Expr.markTail]
    refine Expr.every_typeswitch.mpr ⟨hq _ hn, he, fun p hp => ?_⟩
    rw [markTailTypeCases_eq] at hp
    obtain ⟨q, hq, rfl⟩ := List.mem_map.mp hp
    exact ihcs q hq (hcs q hq)
  | external fn es tail span =>
    obtain ⟨hn, hes⟩ := Expr.every_external.mp h
    exact Expr.every_external.mpr ⟨hq _ hn, hes⟩
  | _ => exact h

/-- Marking marks calls in tail position only. -/
theorem Expr.markTail_tailOnly (h : e.Unmarked) : e.markTail.TailOnly := by
  induction e with
  | connective c es span ih =>
    have hes := (Expr.every_connective.mp h).2
    rw [Expr.markTail]
    rcases List.eq_nil_or_concat es with rfl | ⟨ds, m, rfl⟩
    · exact Expr.Unmarked.tailOnly h
    · rw [List.concat_eq_append] at hes ih ⊢
      rw [markTailLast_concat, Expr.tailOnly_connective]
      refine ⟨fun d hd => hes d (List.mem_append_left _ hd), ?_⟩
      split
      · rename_i ht
        exact .inr ⟨by rw [m.markTail_type, ht], ih m (by simp) (hes m (by simp))⟩
      · exact .inl (hes m (by simp))
  | switch e cs d span _ ihcs ihd =>
    obtain ⟨-, he, hcs, hd⟩ := Expr.every_switch.mp h
    rw [Expr.markTail, markTailCases_eq]
    -- the cases with marked results are the images of the cases
    have hmap {p : Expr × Expr} (hp : p ∈ cs.map fun p => (p.1, p.2.markTail)) :
        p.1.Unmarked ∧ p.2.TailOnly := by
      obtain ⟨q, hq, rfl⟩ := List.mem_map.mp hp
      exact ⟨(hcs q hq).1, (ihcs q hq).2 (hcs q hq).2⟩
    refine Expr.tailOnly_of_parts fun F r hF => ?_
    cases F <;> simp only [Frame.plug, reduceCtorEq, Expr.switch.injEq] at hF
    case switchOperand => rw [← hF.1]; exact .inl he
    case caseValue => exact .inl (hmap (hF.2.1 ▸ List.mem_append_right _ List.mem_cons_self)).1
    case caseResult =>
      exact .inr ⟨trivial, (hmap (hF.2.1 ▸ List.mem_append_right _ List.mem_cons_self)).2⟩
    case switchDefault => rw [← hF.2.2.1]; exact .inr ⟨trivial, ihd hd⟩
  | typeswitch e cs span _ ihcs =>
    obtain ⟨-, he, hcs⟩ := Expr.every_typeswitch.mp h
    rw [Expr.markTail, markTailTypeCases_eq]
    have hmap {p : CaseHead × Expr} (hp : p ∈ cs.map fun p => (p.1, p.2.markTail)) :
        p.2.TailOnly := by
      obtain ⟨q, hq, rfl⟩ := List.mem_map.mp hp
      exact ihcs q hq (hcs q hq)
    refine Expr.tailOnly_of_parts fun F r hF => ?_
    cases F <;> simp only [Frame.plug, reduceCtorEq, Expr.typeswitch.injEq] at hF
    case typeOperand => rw [← hF.1]; exact .inl he
    case typeResult =>
      exact .inr ⟨trivial, hmap (hF.2.1 ▸ List.mem_append_right _ List.mem_cons_self)⟩
  | external fn es tail span =>
    refine Expr.tailOnly_of_parts fun F d hF => ?_
    cases F <;> simp only [Expr.markTail, Frame.plug, reduceCtorEq, Expr.external.injEq] at hF
    exact .inl ((Expr.every_external.mp h).2 d
      (hF.2.1 ▸ List.mem_append_right _ List.mem_cons_self))
  | _ => exact Expr.Unmarked.tailOnly h

end

/-! ## Order -/

section
variable {reorder : Bool}

/-- The last operand of a conjunction stays the last: another operand without a match goes to the
front, or none does and no operand in front of it has more matches. -/
def StaysLast (reorder : Bool) (ns : List Nat) (n : Nat) : Prop :=
  0 ∈ ns ∨ (ns ≠ [] → n ≠ 0) ∧ (reorder = true → ∀ k ∈ ns, k ≤ n)

theorem estimate_le_trans (a b c : Expr × Nat) (hab : decide (a.2 ≤ b.2) = true)
    (hbc : decide (b.2 ≤ c.2) = true) : decide (a.2 ≤ c.2) = true := by
  rw [decide_eq_true_eq] at *
  omega

theorem estimate_le_total (a b : Expr × Nat) :
    (decide (a.2 ≤ b.2) || decide (b.2 ≤ a.2)) = true := by
  rw [Bool.or_eq_true, decide_eq_true_eq, decide_eq_true_eq]
  omega

/-- Sorting is stable, so a last operand with the most matches stays the last. -/
theorem mergeSort_concat {ps : List (Expr × Nat)} {p : Expr × Nat} (h : ∀ q ∈ ps, q.2 ≤ p.2) :
    ∃ qs, (ps ++ [p]).mergeSort (fun p q => p.2 ≤ q.2) = qs ++ [p] := by
  induction ps with
  | nil => exact ⟨[], by simp⟩
  | cons a ps ih =>
    rw [List.forall_mem_cons] at h
    obtain ⟨qs, hqs⟩ := ih h.2
    obtain ⟨as, bs, hsort, hrest, has⟩ :=
      List.mergeSort_cons estimate_le_trans estimate_le_total a (ps ++ [p])
    rw [List.cons_append, hsort]
    rw [hqs] at hrest
    rcases List.eq_nil_or_concat bs with rfl | ⟨bs, b, rfl⟩
    · -- the operand in front would come after the last one
      rw [List.append_nil] at hrest
      have hp := has p (by rw [← hrest]; simp)
      simp [h.1] at hp
    · rw [List.concat_eq_append, ← List.append_assoc] at hrest
      obtain ⟨-, hb⟩ := List.append_inj' hrest rfl
      cases hb
      exact ⟨as ++ a :: bs, by simp⟩

theorem orderOperands_concat {ps : List (Expr × Nat)} {p : Expr × Nat} :
    (∃ qs, orderOperands reorder (ps ++ [p]) = qs ++ [p]) ↔
      StaysLast reorder (ps.map (·.2)) p.2 := by
  have hzero : 0 ∈ ps.map (·.2) ↔ ∃ q ∈ ps, q.2 = 0 := by simp
  rcases orderOperands_cases reorder (ps ++ [p]) with ⟨as, q, bs, hps, hq, has, h⟩ | ⟨hne, h⟩
  · rw [h]
    rcases List.eq_nil_or_concat bs with rfl | ⟨bs, b, rfl⟩
    · -- the last operand is the one that goes to the front
      obtain ⟨rfl, hpq⟩ := List.append_inj' hps rfl
      cases hpq
      rcases List.eq_nil_or_concat ps with rfl | ⟨ps, a, rfl⟩
      · simp [StaysLast]
      · rw [List.concat_eq_append] at has hzero ⊢
        have hap : a ≠ p := fun hap => has a (by simp) (hap ▸ hq)
        have hno : ¬ StaysLast reorder ((ps ++ [a]).map (·.2)) p.2 := by
          rintro (h0 | ⟨hne, -⟩)
          · obtain ⟨b, hb, hb0⟩ := hzero.mp h0
            exact has b hb hb0
          · exact hne (by simp) hq
        refine iff_of_false ?_ hno
        rintro ⟨qs, hqs⟩
        rw [List.append_nil, ← List.cons_append] at hqs
        exact hap (List.cons.inj (List.append_inj' hqs rfl).2).1
    · rw [List.concat_eq_append, ← List.cons_append, ← List.append_assoc] at hps
      obtain ⟨rfl, hpb⟩ := List.append_inj' hps rfl
      cases hpb
      refine iff_of_true ⟨q :: (as ++ bs), by simp⟩ (.inl (hzero.mpr ⟨q, by simp, hq⟩))
  · rw [h]
    have h0 : 0 ∉ ps.map (·.2) := fun h0 => by
      obtain ⟨q, hq, hq0⟩ := hzero.mp h0
      exact hne q (List.mem_append_left _ hq) hq0
    have hp : p.2 ≠ 0 := hne p (by simp)
    cases reorder with
    | false => simp [StaysLast, hp]
    | true =>
      simp only [if_true, StaysLast, h0, false_or, forall_const, hp, ne_eq, not_false_eq_true,
        implies_true, true_and, List.forall_mem_map]
      refine ⟨?_, mergeSort_concat⟩
      rintro ⟨qs, hqs⟩ k hk
      have hsorted := List.pairwise_mergeSort estimate_le_trans estimate_le_total (ps ++ [p])
      rw [hqs, List.pairwise_append] at hsorted
      have hmem : k ∈ qs ++ [p] :=
        hqs ▸ (List.mergeSort_perm _ _).mem_iff.mpr (List.mem_append_left _ hk)
      rcases List.mem_append.mp hmem with hk | hk
      · simpa using hsorted.2.2 k hk p (by simp)
      · exact Nat.le_of_eq (congrArg Prod.snd (List.mem_singleton.mp hk))
end

/-! ## Analysis -/

section
variable {index : Index} {reorder : Bool} {c : Connective} {e d m : Expr} {ds ks : List Expr}
  {span : Span}

theorem Expr.TailOnly.call {fn : Builtin} (h : (Expr.call fn e span).TailOnly) :
    (Expr.call fn e span).Unmarked := by
  have h' : ((Frame.callArgument fn span).plug e).TailOnly := h
  exact Expr.every_call.mpr ⟨trivial, h'.part.resolve_right fun hk => hk.1⟩

theorem keptByAnalysis_unmarked : KeptByAnalysis Sieve.unmarked.Lets where
  connective _ := trivial
  false := trivial
  boolean hd he := by
    have hcore := Expr.Every.part he (asCondition_occursIn _)
    rcases optimizeBoolean_eq_ok hd with ⟨v, b, -, -, rfl⟩ | ⟨rfl, -⟩ | ⟨rfl, -⟩
    · exact Expr.sifted_literal _
    · exact hcore
    · exact Expr.every_call.mpr ⟨trivial, hcore⟩

theorem Kept.unmarked (h : Kept span ks d) (hks : ∀ k ∈ ks, k.Unmarked) : d.Unmarked :=
  h.every keptByAnalysis_unmarked trivial hks

/-- The analysis adds no mark. -/
theorem Expr.analysed_unmarked (h : e.Covered index reorder) (he : e.Unmarked) :
    (e.analysed index reorder).1.Unmarked :=
  Expr.analysed_every keptByAnalysis_unmarked h he

theorem Kept.type (h : Kept span ks d) : d.type = .booleanOne := by
  cases h with
  | none => rfl
  | one hd =>
    rcases optimizeBoolean_eq_ok hd with ⟨v, b, -, -, rfl⟩ | ⟨-, ht⟩ | ⟨rfl, -⟩
    · rfl
    · exact ht
    · rfl
  | several _ => rfl

/-- A last operand that is one boolean, but not from a call of a boolean function, stays last or
is all that is left, unless no mark is left. -/
theorem Kept.last (h : Kept span (ks ++ [m]) d) (ht : m.type = .booleanOne)
    (hm : ∀ fn arg s, m ≠ .call fn arg s) :
    d.Unmarked ∨ d = m ∨ d = .connective .disjunction (ks ++ [m]) span := by
  generalize hes : ks ++ [m] = es at h
  cases h with
  | none => simp at hes
  | one hd =>
    obtain ⟨rfl, hme⟩ := List.append_eq_singleton_iff.mp hes |>.resolve_right (by simp)
    cases hme
    have hcore : m.asCondition.value = m := by
      cases m with
      | call fn arg s => exact absurd rfl (hm fn arg s)
      | _ => rfl
    rcases optimizeBoolean_eq_ok hd with ⟨v, b, -, -, rfl⟩ | ⟨hdm, -⟩ | ⟨-, hne⟩
    · exact .inl (Expr.sifted_literal _)
    · exact .inr (.inl (hdm.trans hcore))
    · rw [hcore] at hne; exact absurd ht hne
  | several _ => subst hes; exact .inr (.inr rfl)

theorem Expr.analysed_type (h : e.Covered index reorder) (ht : e.type = .booleanOne) :
    (e.analysed index reorder).1.type = .booleanOne := by
  cases e with
  | connective c es span =>
    cases c with
    | conjunction => rw [(analysed_conjunction h).2]; rfl
    | disjunction => exact (analysed_disjunction h).2.2.type
  | _ =>
    obtain ⟨info, -, hval⟩ := analysed_other h (by simp)
    rw [hval]
    exact ht

/-- What is left of the operands of a disjunction: the last one stays the last or is dropped. -/
theorem pruneOperands_concat {ps : List (Expr × Nat)} {p : Expr × Nat} :
    pruneOperands (ps ++ [p]) = pruneOperands ps ++ if p.2 = 0 then [] else [p.1] := by
  simp only [pruneOperands, List.filter_append, List.map_append]
  by_cases hp : p.2 = 0 <;> simp [hp]

/-- The last operand of a connective with marks in tail position only, if marks are left in it. -/
theorem Expr.TailOnly.last (ht : (Expr.connective c (ds ++ [m]) span).TailOnly)
    (hm : m.Covered index reorder) (hu : ¬ (m.analysed index reorder).1.Unmarked) :
    m.type = .booleanOne ∧ m.TailOnly :=
  (Expr.tailOnly_connective.mp ht).2.resolve_left fun h => hu (Expr.analysed_unmarked hm h)

/-- What is left of a disjunction has no mark, or its last operand is left with marks. -/
theorem analysed_disjunction_last
    (h : (Expr.connective .disjunction (ds ++ [m]) span).Covered index reorder)
    (ht : (Expr.connective .disjunction (ds ++ [m]) span).TailOnly) :
    ((Expr.connective .disjunction (ds ++ [m]) span).analysed index reorder).1.Unmarked ∨
      ¬ (m.analysed index reorder).1.Unmarked ∧
      ∃ ks, (∀ k ∈ ks, k.Unmarked) ∧ Kept span (ks ++ [(m.analysed index reorder).1])
        ((Expr.connective .disjunction (ds ++ [m]) span).analysed index reorder).1 := by
  obtain ⟨hcov, -, hkept⟩ := analysed_disjunction h
  have hks : ∀ k ∈ pruneOperands (ds.map (·.analysed index reorder)), k.Unmarked := by
    intro k hk
    obtain ⟨d, hd, -, rfl⟩ := mem_pruneOperands.mp hk
    exact Expr.analysed_unmarked (hcov d (List.mem_append_left _ hd))
      ((Expr.tailOnly_connective.mp ht).1 d hd)
  rw [List.map_append, List.map_cons, List.map_nil, pruneOperands_concat] at hkept
  by_cases hu : (m.analysed index reorder).1.Unmarked
  · refine .inl (hkept.unmarked fun k hk => ?_)
    rcases List.mem_append.mp hk with hk | hk
    · exact hks k hk
    · split at hk
      · cases hk
      · rw [List.mem_singleton.mp hk]; exact hu
  · split at hkept
    · exact .inl (hkept.unmarked (by simpa using hks))
    · exact .inr ⟨hu, _, hks, hkept⟩

/-- Marks do not come to stand in a call of a boolean function. -/
theorem Expr.TailOnly.analysed_call (h : e.Covered index reorder) (he : e.TailOnly) :
    (e.analysed index reorder).1.Unmarked ∨
      ∀ fn arg s, (e.analysed index reorder).1 ≠ .call fn arg s := by
  induction e with
  | connective c es span ih =>
    cases c with
    | conjunction => rw [(analysed_conjunction h).2]; exact .inr (by simp)
    | disjunction =>
      rcases List.eq_nil_or_concat es with rfl | ⟨ds, m, rfl⟩
      · exact .inl (Expr.analysed_unmarked h (Expr.every_connective.mpr ⟨trivial, by simp⟩))
      rw [List.concat_eq_append] at h he ih ⊢
      rcases analysed_disjunction_last h he with hu | ⟨hu, ks, -, hkept⟩
      · exact .inl hu
      have hcov := (analysed_disjunction h).1 m (by simp)
      obtain ⟨hmt, hm⟩ := he.last hcov hu
      have hc := (ih m (by simp) hcov hm).resolve_left hu
      rcases hkept.last (Expr.analysed_type hcov hmt) hc with hu | hv | hv
      · exact .inl hu
      · rw [hv]; exact .inr hc
      · rw [hv]; exact .inr (by simp)
  | call fn arg s =>
    obtain ⟨info, -, hval⟩ := analysed_other h (by simp)
    rw [hval]
    exact .inl he.call
  | _ =>
    obtain ⟨info, -, hval⟩ := analysed_other h (by simp)
    rw [hval]
    exact .inr (by simp)

/-! ## Where marks stay in tail position -/

variable (index reorder) in
/-- The analysis leaves the marks of an expression in tail position: where it leaves marks in the
last operand of a conjunction, this operand stays the last. -/
inductive Expr.Stays : Expr → Prop where
  | other {e : Expr} : (∀ c es span, e ≠ .connective c es span) → Stays e
  | free {e : Expr} : (e.analysed index reorder).1.Unmarked → Stays e
  | conjunction {ds : List Expr} {m : Expr} {span : Span} :
      StaysLast reorder (ds.map fun d => (d.analysed index reorder).2)
        (m.analysed index reorder).2 →
      Stays m → Stays (.connective .conjunction (ds ++ [m]) span)
  | disjunction {ds : List Expr} {m : Expr} {span : Span} :
      Stays m → Stays (.connective .disjunction (ds ++ [m]) span)

theorem Expr.stays_conjunction
    (hu : ¬ ((Expr.connective .conjunction (ds ++ [m]) span).analysed index reorder).1.Unmarked) :
    (Expr.connective .conjunction (ds ++ [m]) span).Stays index reorder ↔
      StaysLast reorder (ds.map fun d => (d.analysed index reorder).2)
        (m.analysed index reorder).2 ∧ m.Stays index reorder := by
  refine ⟨fun h => ?_, fun h => .conjunction h.1 h.2⟩
  generalize he : Expr.connective .conjunction (ds ++ [m]) span = e at h
  cases h with
  | other h => exact absurd he.symm (h _ _ _)
  | free h => rw [he] at hu; exact absurd h hu
  | conjunction hl hm =>
    obtain ⟨-, hes, -⟩ := Expr.connective.inj he
    obtain ⟨rfl, hmm⟩ := List.append_inj' hes rfl
    cases hmm
    exact ⟨hl, hm⟩
  | disjunction => cases he

theorem Expr.stays_disjunction
    (hu : ¬ ((Expr.connective .disjunction (ds ++ [m]) span).analysed index reorder).1.Unmarked) :
    (Expr.connective .disjunction (ds ++ [m]) span).Stays index reorder ↔
      m.Stays index reorder := by
  refine ⟨fun h => ?_, .disjunction⟩
  generalize he : Expr.connective .disjunction (ds ++ [m]) span = e at h
  cases h with
  | other h => exact absurd he.symm (h _ _ _)
  | free h => rw [he] at hu; exact absurd h hu
  | conjunction => cases he
  | disjunction hm =>
    obtain ⟨-, hes, -⟩ := Expr.connective.inj he
    obtain ⟨-, hmm⟩ := List.append_inj' hes rfl
    cases hmm
    exact hm

/-- If the last operand alone has marks, then after the operands are put in order all marks are in
tail position if and only if this operand is still the last one. -/
theorem tailOnly_orderOperands {ps : List (Expr × Nat)} {p : Expr × Nat}
    (hps : ∀ q ∈ ps, q.1.Unmarked) (hp : p.1.type = .booleanOne) (hu : ¬ p.1.Unmarked) :
    (Expr.connective .conjunction ((orderOperands reorder (ps ++ [p])).map (·.1)) span).TailOnly ↔
      StaysLast reorder (ps.map (·.2)) p.2 ∧ p.1.TailOnly := by
  have hperm := orderOperands_perm reorder (ps ++ [p])
  rw [← orderOperands_concat]
  generalize orderOperands reorder (ps ++ [p]) = qs at hperm
  constructor
  · intro h
    rcases List.eq_nil_or_concat qs with rfl | ⟨qs, q, rfl⟩
    · simp at hperm
    rw [List.concat_eq_append] at h hperm ⊢
    rw [List.map_append, List.map_cons, List.map_nil, Expr.tailOnly_connective] at h
    have hpq : p ∈ qs ++ [q] := hperm.mem_iff.mpr (by simp)
    rcases List.mem_append.mp hpq with hpq | hpq
    · exact absurd (h.1 _ (List.mem_map_of_mem hpq)) hu
    · cases List.mem_singleton.mp hpq
      exact ⟨⟨qs, rfl⟩, (h.2.resolve_left hu).2⟩
  · rintro ⟨⟨qs, rfl⟩, hm⟩
    rw [List.map_append, List.map_cons, List.map_nil, Expr.tailOnly_connective]
    have hqs : qs.Perm ps := (List.perm_append_right_iff _).mp hperm
    refine ⟨fun d hd => ?_, .inr ⟨hp, hm⟩⟩
    obtain ⟨q, hq, rfl⟩ := List.mem_map.mp hd
    exact hps q (hqs.mem_iff.mp hq)

/-- The analysis of an expression with marks in tail position. -/
theorem Expr.analysed_tailOnly (h : e.Covered index reorder) (ht : e.TailOnly) :
    (e.analysed index reorder).1.TailOnly ↔ e.Stays index reorder := by
  by_cases hu : (e.analysed index reorder).1.Unmarked
  · exact iff_of_true hu.tailOnly (.free hu)
  induction e with
  | connective c es span ih =>
    rcases List.eq_nil_or_concat es with rfl | ⟨ds, m, rfl⟩
    · exact absurd (Expr.analysed_unmarked h (Expr.every_connective.mpr ⟨trivial, by simp⟩)) hu
    rw [List.concat_eq_append] at h ht hu ih ⊢
    cases c with
    | conjunction =>
      rw [Expr.stays_conjunction hu]
      obtain ⟨hcov, hval⟩ := analysed_conjunction h
      have hds {p : Expr × Nat} (hp : p ∈ ds.map (·.analysed index reorder)) : p.1.Unmarked := by
        obtain ⟨d, hd, rfl⟩ := List.mem_map.mp hp
        exact Expr.analysed_unmarked (hcov d (List.mem_append_left _ hd))
          ((Expr.tailOnly_connective.mp ht).1 d hd)
      by_cases hum : (m.analysed index reorder).1.Unmarked
      · refine absurd ?_ hu
        rw [hval]
        refine Expr.every_connective.mpr ⟨trivial, fun d hd => ?_⟩
        obtain ⟨p, hp, rfl⟩ := List.mem_map.mp hd
        have hp' := (orderOperands_perm reorder _).mem_iff.mp hp
        rw [List.map_append, List.mem_append] at hp'
        rcases hp' with hp | hp
        · exact hds hp
        · cases List.mem_singleton.mp hp; exact hum
      · have hm := ht.last (hcov m (by simp)) hum
        rw [hval, ← ih m (by simp) (hcov m (by simp)) hm.2 hum, List.map_append,
          List.map_singleton, tailOnly_orderOperands (fun _ => hds)
            (Expr.analysed_type (hcov m (by simp)) hm.1) hum, List.map_map]
        rfl
    | disjunction =>
      rw [Expr.stays_disjunction hu]
      obtain ⟨hum, ks, hks, hkept⟩ := (analysed_disjunction_last h ht).resolve_left hu
      have hcov := (analysed_disjunction h).1 m (by simp)
      obtain ⟨hmt, hm⟩ := ht.last hcov hum
      have hc := (hm.analysed_call hcov).resolve_left hum
      rw [← ih m (by simp) hcov hm hum]
      rcases (hkept.last (Expr.analysed_type hcov hmt) hc).resolve_left hu with hv | hv
      · rw [hv]
      · rw [hv, Expr.tailOnly_connective]
        exact ⟨fun h => (h.2.resolve_left hum).2,
          fun h => ⟨hks, .inr ⟨Expr.analysed_type hcov hmt, h⟩⟩⟩
  | _ =>
    obtain ⟨info, -, hval⟩ := analysed_other h (by simp)
    rw [hval]
    exact iff_of_true ht (.other (by simp))

end

/-! ## Queries -/

/-- The analysis by an index, if it is made and leads to a plan, leaves marks in tail position. -/
def LeavesTail (config : IndexConfig) (index : Option Index) (e : Expr) : Prop :=
  ∀ i, index = some i → config.enabled = true → e.Covered i config.reorder →
    e.Stays i config.reorder

/-- In the root of a compiled query marked calls are in tail position if and only if the index
leaves them there. -/
theorem tail_marks_iff {ctx : CompileContext} {checks : Checks} {index : Option Index}
    {e r : Expr} (he : e.Unmarked) (hr : (ctx.compile checks e).1 = .ok r) :
    ∃ q, (ctx.compileQuery checks index e).1 = .ok q ∧
      (q.value.root.TailOnly ↔ LeavesTail ctx.config.index index r.markTail) := by
  have hval : (e.compile checks).value = .ok r := hr
  have hmark : r.markTail.TailOnly := by
    have hrew : Rewrites checks [] e (.ok r) := hval ▸ e.compile_reaches.rewrites
    exact Expr.markTail_tailOnly (hrew.sifted Sieve.unmarked_overlaps he r rfl)
  obtain ⟨q, hq, ⟨i, rfl, hen, hcov, hroot⟩ | ⟨hno, hroot⟩⟩ := compileQuery_cases hr index
  · refine ⟨q, hq, ?_⟩
    rw [hroot, Expr.analysed_tailOnly hcov hmark]
    exact ⟨fun h j hj _ _ => Option.some.inj hj ▸ h, fun h => h i rfl hen hcov⟩
  · refine ⟨q, hq, ?_⟩
    rw [hroot]
    exact iff_of_true hmark fun i hi hen hcov => absurd hcov (hno i hi hen)

/-- A conjunction of two calls; the mark is on the second. -/
def twoCalls (tail : Bool) : Expr :=
  .connective .conjunction
    [.external ⟨0, "first", .booleanOne, true⟩ [] false .unknown,
      .external ⟨1, "second", .booleanOne, true⟩ [] tail .unknown] .unknown

/-- An index with an estimate for each of the two functions. -/
def callIndex (first second : Nat) : Index where
  info
    | .external fn _ _ _ => some ⟨if fn.key = 0 then first else second, false⟩
    | _ => none
  lookup _ := .lookup "matches"

theorem twoCalls_unmarked : (twoCalls false).Unmarked :=
  Expr.every_connective.mpr ⟨trivial, List.forall_mem_cons.mpr
    ⟨Expr.every_external.mpr ⟨rfl, nofun⟩,
      List.forall_mem_singleton.mpr (Expr.every_external.mpr ⟨rfl, nofun⟩)⟩⟩

theorem twoCalls_compiles : ((CompileContext.start {} .empty).compile (fun _ _ _ => .ok ())
    (twoCalls false)).1 = .ok (twoCalls false) := rfl

/-- The second call has more matches, so it stays the last. -/
theorem tail_marks_iff_ordered :
    ∃ q, ((CompileContext.start {} .empty).compileQuery (fun _ _ _ => .ok ())
        (some (callIndex 5 100)) (twoCalls false)).1 = .ok q ∧
      q.value.root.TailOnly := by
  obtain ⟨q, hq, htail⟩ :=
    @tail_marks_iff _ _ (some (callIndex 5 100)) _ _ twoCalls_unmarked twoCalls_compiles
  refine ⟨q, hq, htail.mpr ?_⟩
  intro i hi _ _
  cases hi
  exact @Expr.Stays.conjunction _ _ [_] _ _
    (.inr ⟨fun _ => by decide, fun _ => by decide⟩) (.other nofun)

/-- The second call has fewer matches, so it goes to the front with its mark. -/
theorem tail_mark_moves :
    (twoCalls false).Unmarked ∧
    ∃ q, ((CompileContext.start {} .empty).compileQuery (fun _ _ _ => .ok ())
        (some (callIndex 100 5)) (twoCalls false)).1 = .ok q ∧ ¬ q.value.root.TailOnly := by
  refine ⟨twoCalls_unmarked, _, rfl, ?_⟩
  have hroot : (consultIndex (callIndex 100 5) true (twoCalls true)).value.value.root =
      .connective .conjunction
        ([.external ⟨1, "second", .booleanOne, true⟩ [] true .unknown] ++
          [.external ⟨0, "first", .booleanOne, true⟩ [] false .unknown]) .unknown := by cbv
  intro h
  have h' := Expr.tailOnly_connective.mp (hroot ▸ h : Expr.TailOnly _)
  exact Sieve.unmarked_lets.mp (h'.1 _ (List.mem_singleton_self _)).node rfl

end QueryExpr
