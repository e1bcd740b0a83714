import QueryExpr.Proofs.Alike
import QueryExpr.Proofs.Operands
import QueryExpr.Proofs.Refinement

/-!
# QueryExpr.Proofs.Decision

What the operands of a connective decide, before and after a rule inside the operands.

* `truth?_append`         — operands decide one after the other.
* `Connective.Presumes`   — the rules that know what operands decide without running them. What
  regular operands decide, if they decide something, they decide after these, too.
* `OperandRule.keeps`     — by any other rule nothing changes, neither a decision nor a failure.
-/

namespace QueryExpr

section
variable {checks : Checks} {L : Library} {D : Declarations} {k : Connective} {c : Context}

/-! ## Truth -/

theorem test?_literal {v : Value} {span : Span} {b : Truth} (h : v.ebv span = .ok b) :
    (Expr.literal v).test? L c = some b.value := by
  have ht := v.ebv_toOption span
  rw [h] at ht
  exact ht.symm

theorem test?_literal_error {v : Value} {span : Span} {t : EvalError}
    (h : v.ebv span = .error t) : (Expr.literal v).test? L c = none := by
  have ht := v.ebv_toOption span
  rw [h] at ht
  exact ht.symm

theorem test?_ofBool (b : Bool) : (Expr.ofBool b).test? L c = some b := rfl

theorem Option.map_ofBool_test? (o : Option Bool) :
    (o.map Value.ofBool).bind Value.test? = o := by
  cases o <;> rfl

theorem test?_connective (es : List Expr) (s : Span) :
    (Expr.connective k es s).test? L c = truth? L k es c := by
  unfold Expr.test?
  rw [Expr.value?, Option.map_ofBool_test?]

theorem value?_call (fn : Builtin) (e : Expr) (s : Span) :
    (Expr.call fn e s).value? L c = (e.test? L c).map fun b => .ofBool (fn.answer b) := by
  unfold Expr.test?
  rw [Expr.value?]
  cases e.value? L c <;> rfl

theorem test?_call (fn : Builtin) (e : Expr) (s : Span) :
    (Expr.call fn e s).test? L c = (e.test? L c).map fn.answer := by
  rw [Expr.test?, value?_call]
  cases e.test? L c <;> rfl

theorem test?_boolean (e : Expr) (s : Span) :
    (Expr.call .boolean e s).test? L c = e.test? L c := by
  rw [test?_call]
  cases e.test? L c <;> rfl

theorem value?_connective (es : List Expr) (s : Span) :
    (Expr.connective k es s).value? L c = (truth? L k es c).map .ofBool := by
  rw [Expr.value?]

/-! ## Decisions -/

theorem truth?_cons (e : Expr) (es : List Expr) :
    truth? L k (e :: es) c =
      (e.test? L c).bind fun b => if b = k.absorbing then some b else truth? L k es c := by
  rw [truth?]; rfl

/-- Operands decide one after the other. -/
theorem truth?_append (ds es : List Expr) :
    truth? L k (ds ++ es) c =
      (truth? L k ds c).bind fun b => if b = k.absorbing then some b else truth? L k es c := by
  induction ds with
  | nil =>
    have hk : ¬ (!k.absorbing) = k.absorbing := by cases k.absorbing <;> simp
    simp [truth?, hk]
  | cons d ds ih =>
    rw [List.cons_append, truth?_cons, truth?_cons, Option.bind_assoc]
    cases d.test? L c with
    | none => rfl
    | some b =>
      simp only [Option.bind_some]
      by_cases hb : b = k.absorbing
      · simp [hb]
      · simp only [if_neg hb, ih]

/-- If all operands have a truth, their order does not matter. -/
theorem truth?_eq_any {es : List Expr} (h : ∀ e ∈ es, ∃ b, e.test? L c = some b) :
    truth? L k es c =
      some (es.any (fun e => e.test? L c == some k.absorbing) == k.absorbing) := by
  induction es with
  | nil => cases k <;> rfl
  | cons e es ih =>
    obtain ⟨⟨b, hb⟩, hes⟩ := List.forall_mem_cons.mp h
    rw [truth?_cons, hb, Option.bind_some, ih hes, List.any_cons, hb]
    cases b <;> cases k <;> simp [Connective.absorbing]

theorem truth?_congr {es fs : List Expr} (hes : ∀ e ∈ es, ∃ b, e.test? L c = some b)
    (hfs : ∀ e ∈ fs, ∃ b, e.test? L c = some b)
    (h : (∃ e ∈ es, e.test? L c = some k.absorbing) ↔ ∃ e ∈ fs, e.test? L c = some k.absorbing) :
    truth? L k es c = truth? L k fs c := by
  have hany : es.any (fun e => e.test? L c == some k.absorbing) =
      fs.any fun e => e.test? L c == some k.absorbing := by
    rw [Bool.eq_iff_iff, List.any_eq_true, List.any_eq_true]
    simpa only [beq_iff_eq] using h
  rw [truth?_eq_any hes, truth?_eq_any hfs, hany]

theorem truth?_singleton (e : Expr) : truth? L k [e] c = e.test? L c := by
  rw [truth?_cons]
  cases e.test? L c with
  | none => rfl
  | some b => cases b <;> cases k <;> rfl

theorem truth?_pair (d e : Expr) :
    truth? L k [d, e] c =
      (d.test? L c).bind fun b => if b = k.absorbing then some b else e.test? L c := by
  rw [truth?_cons, truth?_singleton]

/-- What stands in front does not matter. -/
theorem truth?_append_congr {ds es fs : List Expr} (h : truth? L k es c = truth? L k fs c) :
    truth? L k (ds ++ es) c = truth? L k (ds ++ fs) c := by
  rw [truth?_append, truth?_append, h]

/-- Nor does what follows. -/
theorem truth?_congr_append {ds es : List Expr} (h : truth? L k ds c = truth? L k es c)
    (fs : List Expr) : truth? L k (ds ++ fs) c = truth? L k (es ++ fs) c := by
  rw [truth?_append, truth?_append, h]

theorem truth?_append_left {ds es fs : List Expr}
    (h : ∀ b, truth? L k es c = some b → truth? L k fs c = some b) {b : Bool}
    (hb : truth? L k (ds ++ es) c = some b) : truth? L k (ds ++ fs) c = some b := by
  rw [truth?_append] at hb ⊢
  obtain ⟨a, ha, hb⟩ := Option.bind_eq_some_iff.mp hb
  rw [ha, Option.bind_some]
  split at hb
  · rename_i hk; rw [if_pos hk]; exact hb
  · rename_i hk; rw [if_neg hk]; exact h b hb

theorem truth?_left_append {ds es : List Expr}
    (h : ∀ b, truth? L k ds c = some b → truth? L k es c = some b) (fs : List Expr) {b : Bool}
    (hb : truth? L k (ds ++ fs) c = some b) : truth? L k (es ++ fs) c = some b := by
  rw [truth?_append] at hb ⊢
  obtain ⟨a, ha, hb⟩ := Option.bind_eq_some_iff.mp hb
  rw [h a ha, Option.bind_some, hb]

/-- As long as nothing is decided, all operands are the same. -/
theorem truth?_undecided {ds : List Expr} {b : Bool} (h : truth? L k ds c = some b)
    (hb : b ≠ k.absorbing) : ∀ d ∈ ds, ∃ a, d.test? L c = some a ∧ a ≠ k.absorbing := by
  induction ds with
  | nil => simp
  | cons d ds ih =>
    rw [truth?_cons] at h
    obtain ⟨a, ha, h⟩ := Option.bind_eq_some_iff.mp h
    split at h
    · rename_i hk; cases h; exact absurd hk hb
    · rename_i hk
      exact List.forall_mem_cons.mpr ⟨⟨a, ha, hk⟩, ih h⟩

/-! ## Equal operands -/

/-- Two expressions are structurally equal, and yet not alike: they differ in the sign of a zero,
which equality does not see. -/
def Expr.Confused (e d : Expr) : Prop := e.same d = true ∧ ¬ e.Alike (fun _ => True) d

/-- Alike expressions yield the same. -/
theorem Expr.Alike.value?_eq {e d : Expr} (h : e.Alike (fun _ => True) d)
    (he : e.Over (.typed L D)) (hd : d.Over (.typed L D)) (hc : c.Typed D) :
    e.value? L c = d.value? L c := by
  have hL := L.host_steady
  have heval := Expr.eval_unscored hL Vocabulary.typed_unscored he hc.unscored ()
  have deval := Expr.eval_unscored hL Vocabulary.typed_unscored hd hc.unscored ()
  rw [← heval, ← deval]
  rcases (h.eval (hL.agrees hL) c () () trivial).cases with
    ⟨t, s, t', s', hx, hy⟩ | ⟨v, s, s', hx, hy, -⟩
  · rw [hx, hy]; rfl
  · rw [hx, hy]

theorem Expr.value?_eq_of_same {e d : Expr} (hs : e.same d = true) (hn : ¬ e.Confused d)
    (he : e.Over (.typed L D)) (hd : d.Over (.typed L D)) (hc : c.Typed D) :
    e.value? L c = d.value? L c := by
  by_cases h : e.Alike (fun _ => True) d
  · exact h.value?_eq he hd hc
  · exact absurd ⟨hs, h⟩ hn

theorem Expr.callsOnly_true (e : Expr) : e.CallsOnly fun _ => True := by
  intro n _
  cases n <;> trivial

/-- Among plain literals there are no negative zeros. -/
theorem Expr.not_confused {e d : Expr} (he : e.Over (.regular checks L D))
    (hd : d.Over (.regular checks L D)) : ¬ e.Confused d := by
  have hcanonical (e : Expr) (he : e.Over (.regular checks L D)) : e.Every Expr.IsCanonical := by
    refine he.scoped.imp fun n hn => ?_
    cases n with
    | literal v => exact fun i hi => (hn i hi).canonical
    | _ => trivial
  rintro ⟨hs, hn⟩
  exact hn (Expr.alike_of_same e.callsOnly_true (hcanonical e he) (hcanonical d hd) hs)

/-- Equal regular expressions yield the same. -/
theorem value?_same {e d : Expr} (he : e.Over (.regular checks L D))
    (hd : d.Over (.regular checks L D)) (h : e.same d = true) : e.value? L c = d.value? L c :=
  Expr.value?_same Vocabulary.scoped_yieldsPlain he.scoped hd.scoped h c

/-- Where a row has not decided, a repetition of one of its operands does not, either. -/
theorem truth?_undecided_same {ds : List Expr} {b : Bool} (h : truth? L k ds c = some b)
    (hb : b ≠ k.absorbing) {d e : Expr} (hd : d ∈ ds) (he : e.value? L c = d.value? L c) :
    ∃ a, e.test? L c = some a ∧ a ≠ k.absorbing := by
  rw [Expr.test?, he]
  exact truth?_undecided h hb d hd

theorem truth?_repeated {ds fs : List Expr} {d e : Expr} (hd : d ∈ ds)
    (he : e.value? L c = d.value? L c) :
    truth? L k (ds ++ e :: fs) c = truth? L k (ds ++ fs) c := by
  rw [truth?_append, truth?_append]
  cases ha : truth? L k ds c with
  | none => rfl
  | some a =>
    simp only [Option.bind_some]
    split
    · rfl
    · rename_i hk
      obtain ⟨x, hx, hxk⟩ := truth?_undecided_same ha hk hd he
      rw [truth?_cons, hx, Option.bind_some, if_neg hxk]

theorem length_of_admits {t : SeqType} (ht : t.atMostOne = true) {v : Value}
    (hv : t.admits v = true) : v.length ≤ 1 := by
  obtain ⟨m, hm, hle⟩ := Occurrence.atMostOne_iff.mp ht
  exact Nat.le_trans ((Occurrence.admits_iff.mp (SeqType.admits_iff.mp hv).1).2 m hm) hle

/-! ## Tests -/

theorem test?_position (a b : Int64) (s : Span) :
    (Expr.position a b s).test? L c =
      c.focus.map fun f => decide (a ≤ f.position) && decide (f.position ≤ b) := by
  unfold Expr.test?
  rw [Expr.value?]
  cases c.focus <;> rfl

theorem test?_range (b : Bounds) (e : Expr) (s : Span) :
    (Expr.range b e s).test? L c = (e.value? L c).bind b.test? := by
  unfold Expr.test?
  rw [Expr.value?, Option.bind_assoc]
  simp only [Option.map_ofBool_test?]

theorem test?_compare (op : CompareOp) (l : Expr) (v : Value) (s : Span) :
    (Expr.compare op l (.literal v) s).test? L c =
      (l.value? L c).bind fun u => u.compare? op v := by
  unfold Expr.test?
  rw [Expr.value?, Option.bind_assoc]
  simp only [Expr.value?, Option.bind_some, Option.map_ofBool_test?]

/-- A position lies in the overlap of two intervals if it lies in both. -/
theorem within_overlap {a b a' b' lo hi : Int64} (hlo : lo = if a < a' then a' else a)
    (hhi : hi = if b' < b then b' else b) (p : Int64) :
    (decide (lo ≤ p) && decide (p ≤ hi)) =
      ((decide (a ≤ p) && decide (p ≤ b)) && (decide (a' ≤ p) && decide (p ≤ b'))) := by
  rw [Bool.eq_iff_iff]
  simp only [hlo, hhi, Int64.lt_iff_toInt_lt, Int64.le_iff_toInt_le, Bool.and_eq_true,
    decide_eq_true_eq]
  grind

theorem within_crossed {lo hi : Int64} (hlt : hi < lo) (p : Int64) :
    (decide (lo ≤ p) && decide (p ≤ hi)) = false := by
  rw [Bool.eq_false_iff]
  simp only [Int64.lt_iff_toInt_lt, Int64.le_iff_toInt_le, Bool.and_eq_true,
    decide_eq_true_eq, ne_eq] at hlt ⊢
  omega

/-! ## Merging -/

/-- Two position tests are one of the overlap, if there is one. -/
theorem truth?_positions {a b a' b' lo hi : Int64} (hlo : lo = if a < a' then a' else a)
    (hhi : hi = if b' < b then b' else b) (s s' : Span) :
    truth? L .conjunction [.position a b s, .position a' b' s'] c =
      (Expr.position lo hi s).test? L c := by
  rw [truth?_pair, test?_position, test?_position, test?_position]
  cases c.focus with
  | none => rfl
  | some f =>
    simp only [Option.map_some, Option.bind_some, within_overlap hlo hhi]
    cases decide (a ≤ f.position) && decide (f.position ≤ b) <;> rfl

/-- Two range comparisons of one item are one of the overlap. -/
theorem truth?_ranges {b b' : Bounds} (hb : b.isEmpty = false) (hb' : b'.isEmpty = false)
    {d e : Expr} (hsame : d.value? L c = e.value? L c)
    (hlen : ∀ v, d.value? L c = some v → v.length ≤ 1) (s s' : Span) :
    truth? L .conjunction [.range b d s, .range b' e s'] c =
      (Expr.range (b.inter b') d s).test? L c := by
  rw [truth?_pair, test?_range, test?_range, test?_range, ← hsame]
  cases hd : d.value? L c with
  | none => rfl
  | some v =>
    simp only [Option.bind_some]
    cases hx : b.test? v with
    | none =>
      rw [Bounds.test?_fails (hlen v hd) hx (b.inter b')]
      rfl
    | some x =>
      obtain ⟨y, hy, hxy⟩ := Bounds.test?_inter hb hb' (hlen v hd) hx
      rw [hy, hxy]
      cases x <;> rfl

/-- Two equalities of one item are one with either value. -/
theorem truth?_equalities {l l' : Expr} (hsame : l.value? L c = l'.value? L c)
    (hlen : ∀ u, l.value? L c = some u → u.length ≤ 1) (v w : Value) (s s' : Span) :
    truth? L .disjunction [.compare .eq l (.literal v) s, .compare .eq l' (.literal w) s'] c =
      (Expr.compare .eq l (.literal (v ++ w)) s).test? L c := by
  rw [truth?_pair, test?_compare, test?_compare, test?_compare, ← hsame]
  cases hl : l.value? L c with
  | none => rfl
  | some u =>
    simp only [Option.bind_some, Value.compare?_append (hlen u hl)]
    cases u.compare? .eq v with
    | none => rfl
    | some x => cases x <;> rfl

/-- Rules inside the operands of a connective that know what operands decide without running all of
them: where these fail, the operands may decide something after the rule. -/
inductive Connective.Presumes (k : Connective) : List Expr → List Expr → Prop where
  /-- Two neighbours exclude each other. -/
  | disjoint {ds fs : List Expr} {d e : Expr} {m : Noted Expr} :
      d.merge? k e = some m → m.value = .ofBool false →
      Presumes k (ds ++ d :: e :: fs) (ds ++ m.value :: fs)
  /-- The operand of one range comparison is taken for that of another one. -/
  | ranges {ds fs : List Expr} {b b' : Bounds} {d e : Expr} {s s' : Span} {m : Noted Expr} :
      (Expr.range b d s).merge? k (.range b' e s') = some m → d.Confused e →
      Presumes k (ds ++ .range b d s :: .range b' e s' :: fs) (ds ++ m.value :: fs)
  /-- So is the left side of an equality; or it may be a sequence, and the rest of it is not
  compared any more once one of its items is equal to one of the other value. -/
  | equalities {ds fs : List Expr} {op op' : CompareOp} {l r l' r' : Expr} {s s' : Span}
      {m : Noted Expr} :
      (Expr.compare op l r s).merge? k (.compare op' l' r' s') = some m →
      l.Confused l' ∨ l.type.atMostOne = false →
      Presumes k (ds ++ .compare op l r s :: .compare op' l' r' s' :: fs) (ds ++ m.value :: fs)
  /-- An operand is taken for the repetition of another one. -/
  | repeated {ds fs : List Expr} {d e : Expr} :
      d ∈ ds → e.Confused d → Presumes k (ds ++ e :: fs) (ds ++ fs)

theorem Expr.length_of_atMostOne {e : Expr} (he : e.Over (.typed L D)) (hc : c.Typed D)
    (ht : e.type.atMostOne = true) (v : Value) (hv : e.value? L c = some v) : v.length ≤ 1 :=
  length_of_admits ht (Expr.value?_typed he hc hv).1

/-- A merged operand decides what its two parts decide, and fails where they fail, unless this is
presumed. -/
theorem merge?_agrees {d e : Expr} {m : Noted Expr} (hd : d.AtRest) (he : e.AtRest)
    (hdo : d.Over (.typed L D)) (heo : e.Over (.typed L D)) (hc : c.Typed D)
    (hm : d.merge? k e = some m) :
    truth? L k [d, e] c = truth? L k [m.value] c ∨
      ∀ ds fs, k.Presumes (ds ++ d :: e :: fs) (ds ++ m.value :: fs) := by
  by_cases hfalse : m.value = .ofBool false
  · exact .inr fun ds fs => .disjoint hm hfalse
  rw [truth?_singleton]
  rcases merge?_cases hm with ⟨a, b, s, a', b', s', lo, hi, rfl, rfl, rfl, hlo, hhi, hv⟩ |
    ⟨b, d', s, b', e', s', rfl, rfl, rfl, hs, _, ht, hv⟩ |
    ⟨l, v, s, l', w, s', rfl, rfl, rfl, hs, _, hv⟩
  · have hlt : ¬ hi < lo := fun h => hfalse (by rw [hv, if_pos h])
    rw [hv, if_neg hlt]
    exact .inl (truth?_positions hlo hhi s s')
  · by_cases hconf : d'.Confused e'
    · exact .inr fun ds fs => .ranges hm hconf
    have hmeet : ¬ (b.inter b').isEmpty = true := fun h => hfalse (by rw [hv, if_pos h])
    rw [hv, if_neg hmeet]
    have hdo' := (Expr.every_range.mp hdo).2
    have hsame := Expr.value?_eq_of_same hs hconf hdo' (Expr.every_range.mp heo).2 hc
    exact .inl (truth?_ranges hd.1 he.1 hsame (Expr.length_of_atMostOne hdo' hc ht) s s')
  · by_cases hleft : l.Confused l' ∨ l.type.atMostOne = false
    · exact .inr fun ds fs => .equalities hm hleft
    obtain ⟨hconf, hone⟩ := not_or.mp hleft
    have ht : l.type.atMostOne = true := Bool.not_eq_false _ ▸ hone
    have hlo := (Expr.every_compare.mp hdo).2.1
    have hsame := Expr.value?_eq_of_same hs hconf hlo (Expr.every_compare.mp heo).2.1 hc
    rw [hv]
    exact .inl (truth?_equalities hsame (Expr.length_of_atMostOne hlo hc ht) v w s s')

/-! ## Rules -/

/-- After a rule operands decide what they decided, and fail where they failed, unless this is
presumed. -/
theorem OperandRule.keeps {span : Span} {es fs : List Expr} (h : OperandRule k span es fs)
    (hes : ∀ e ∈ es, e.Over (.typed L D)) (hc : c.Typed D) :
    truth? L k es c = truth? L k fs c ∨ k.Presumes es fs := by
  cases h with
  | unwrap =>
    refine .inl (truth?_append_congr ?_)
    rw [truth?_cons, test?_boolean, truth?_cons]
  | splice =>
    rw [List.append_assoc]
    refine .inl (truth?_append_congr ?_)
    rw [truth?_cons, test?_connective, truth?_append]
  | neutral hv hn =>
    refine .inl (truth?_append_congr ?_)
    rw [truth?_cons, test?_literal hv, hn]
    cases k <;> rfl
  | decided hv hd =>
    refine .inl (truth?_append_congr ?_)
    rw [truth?_cons, truth?_singleton, test?_literal hv, hd, test?_ofBool, Option.bind_some,
      if_pos rfl]
  | undefined hv =>
    refine .inl (truth?_append_congr ?_)
    rw [truth?_cons, test?_literal_error hv]
    rfl
  | unreached => exact .inl (truth?_append_congr rfl)
  | @duplicate ds fs d e _ hd hs =>
    simp only [List.forall_mem_append, List.forall_mem_cons] at hes
    by_cases hconf : e.Confused d
    · exact .inr (.repeated hd hconf)
    · exact .inl (truth?_repeated hd
        (Expr.value?_eq_of_same hs hconf hes.2.1 (hes.1 d hd) hc))
  | @merged ds fs d e m hd he hm =>
    simp only [List.forall_mem_append, List.forall_mem_cons] at hes
    refine (merge?_agrees hd he hes.2.1 hes.2.2.1 hc hm).imp (fun h => ?_) fun h => h ds fs
    exact truth?_append_congr (truth?_congr_append h fs)

/-- If regular operands that exclude each other decide something, then that not both of them
hold. -/
theorem merge?_disjoint {d e : Expr} {m : Noted Expr} (hdo : d.Over (.regular checks L D))
    (heo : e.Over (.regular checks L D)) (hc : c.Declared D) (hm : d.merge? k e = some m)
    (hfalse : m.value = .ofBool false) {b : Bool} (hb : truth? L k [d, e] c = some b) :
    truth? L k [m.value] c = some b := by
  rw [truth?_singleton, hfalse, test?_ofBool]
  rcases merge?_cases hm with ⟨i, j, s, i', j', s', lo, hi, rfl, rfl, rfl, hlo, hhi, hv⟩ |
    ⟨b₁, d', s, b₂, e', s', rfl, rfl, rfl, hs, _, ht, hv⟩ |
    ⟨l, v, s, l', w, s', rfl, rfl, rfl, hs, _, hv⟩
  · have hlt : hi < lo := by
      by_contra hlt
      rw [hv, if_neg hlt] at hfalse
      cases hfalse
    rw [truth?_positions hlo hhi, test?_position] at hb
    obtain ⟨f, _, rfl⟩ := Option.map_eq_some_iff.mp hb
    rw [within_crossed hlt]
  · have hempty : (b₁.inter b₂).isEmpty = true := by
      by_contra hmeet
      rw [hv, if_neg hmeet] at hfalse
      cases hfalse
    have hdo' := (Expr.every_range.mp hdo).2
    have hsame := value?_same (c := c) hdo' (Expr.every_range.mp heo).2 hs
    rw [truth?_pair, test?_range, test?_range, ← hsame] at hb
    obtain ⟨x, hx, hb⟩ := Option.bind_eq_some_iff.mp hb
    obtain ⟨v, hd, hx⟩ := Option.bind_eq_some_iff.mp hx
    have hlen := Expr.length_of_atMostOne (Expr.Over.scoped hdo').typed hc.typed ht v hd
    rw [hd, Option.bind_some] at hb
    cases x with
    | false => exact hb
    | true => exact congrArg some (Bounds.test?_disjoint hempty hlen hx hb).symm
  · rw [hv] at hfalse
    cases hfalse

/-- What regular operands decide is what is presumed of them. -/
theorem Connective.Presumes.decides {es fs : List Expr} (h : k.Presumes es fs)
    (hes : ∀ e ∈ es, e.Over (.regular checks L D)) (hc : c.Declared D) {b : Bool}
    (hb : truth? L k es c = some b) : truth? L k fs c = some b := by
  cases h with
  | @disjoint ds fs d e m hm hfalse =>
    simp only [List.forall_mem_append, List.forall_mem_cons] at hes
    refine truth?_append_left (fun b hb => ?_) hb
    exact truth?_left_append (fun a ha => merge?_disjoint hes.2.1 hes.2.2.1 hc hm hfalse ha) fs hb
  | ranges hm hconf =>
    simp only [List.forall_mem_append, List.forall_mem_cons] at hes
    have hd := (Expr.every_range.mp hes.2.1).2
    exact absurd hconf (Expr.not_confused hd (Expr.every_range.mp hes.2.2.1).2)
  | equalities hm hleft =>
    simp only [List.forall_mem_append, List.forall_mem_cons] at hes
    obtain ⟨hone, hl, -⟩ := Expr.every_compare.mp hes.2.1
    have hl' := (Expr.every_compare.mp hes.2.2.1).2.1
    rcases merge?_cases hm with ⟨_, _, _, _, _, _, _, _, _, hd, _⟩ |
      ⟨_, _, _, _, _, _, _, hd, _⟩ | ⟨_, _, _, _, _, _, _, hd, _⟩
    · cases hd
    · cases hd
    · cases hd
      rcases hleft with hconf | hlong
      · exact absurd hconf (Expr.not_confused hl hl')
      · cases hlong.symm.trans (hone rfl)
  | @repeated ds fs d e hd hconf =>
    simp only [List.forall_mem_append, List.forall_mem_cons] at hes
    exact absurd hconf (Expr.not_confused hes.2.1 (hes.1 d hd))

/-- A merged operand decides what its two parts decide. -/
theorem merge?_decides {d e : Expr} {m : Noted Expr} (hd : d.AtRest) (he : e.AtRest)
    (hdo : d.Over (.regular checks L D)) (heo : e.Over (.regular checks L D))
    (hc : c.Declared D) (hm : d.merge? k e = some m) {b : Bool}
    (hb : truth? L k [d, e] c = some b) : truth? L k [m.value] c = some b := by
  rcases merge?_agrees hd he hdo.scoped.typed heo.scoped.typed hc.typed hm with heq | hpresumes
  · rw [← heq, hb]
  · have hes : ∀ x ∈ [d, e], x.Over (.regular checks L D) :=
      List.forall_mem_cons.mpr ⟨hdo, List.forall_mem_singleton.mpr heo⟩
    exact (hpresumes [] []).decides hes hc hb

/-- Negations decide the opposite of what their arguments decide under the opposite connective. -/
theorem truth?_negated {es args : List Expr} (h : negated? es = some args) :
    truth? L k es c = (truth? L k.opposite args c).map Bool.not := by
  induction es generalizing args with
  | nil => cases h; cases k <;> rfl
  | cons e es ih =>
    obtain ⟨arg, s, args', rfl, ha, rfl⟩ := negated?_cons h
    rw [truth?_cons, truth?_cons, test?_call, ih ha]
    cases arg.test? L c with
    | none => rfl
    | some b => cases b <;> cases k <;> rfl

end

end QueryExpr
