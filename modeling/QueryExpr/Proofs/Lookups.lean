import QueryExpr.Proofs.Finding

/-!
# QueryExpr.Proofs.Lookups

Which operands an index is asked to look up.

* `Index.Accepts`        — the index answers for an operand, other than by a scan.
* `looked_granted_or_wrapped` — an operand that is looked up was asked about and accepted, or it is
  such an operand in a call of `boolean`.
* `Expr.Unwrapped`       — the analysis leaves no such call.
* `lookups_asked`        — the questions that a query puts to an index, in order.
-/

namespace QueryExpr

/-- An index covers an operand: it answers, and not with a scan. -/
def Index.Accepts (index : Index) (e : Expr) : Prop :=
  ∃ info, index.info e = some info ∧ info.sequential = false

section
variable {index : Index} {reorder : Bool} {c : Connective} {d e : Expr} {es : List Expr}
  {span : Span}

/-! ## Questions about operands -/

theorem analyseAll_asked {ns : List Nat} (h : (analyseAll index reorder es).estimate = some ns) :
    (analyseAll index reorder es).asked = es.flatMap fun e => (e.analyse index reorder).asked := by
  induction es generalizing ns with
  | nil => rfl
  | cons e es ih =>
    rw [analyseAll] at h ⊢
    cases he : (e.analyse index reorder).estimate with
    | none => rw [he] at h; cases h
    | some n =>
      simp only [he] at h ⊢
      obtain ⟨ms, hms, -⟩ := Option.map_eq_some_iff.mp h
      rw [ih hms, List.flatMap_cons]

/-- About a connective an index is asked in terms of the operands. -/
theorem asked_connective (h : (Expr.connective c es span).Covered index reorder) :
    ((Expr.connective c es span).analyse index reorder).asked =
      es.flatMap fun e => (e.analyse index reorder).asked := by
  unfold Expr.Covered at h
  cases c <;> rw [Expr.analyse] at h ⊢ <;>
    (cases hns : (analyseAll index reorder es).estimate with
      | none => rw [hns] at h; cases h
      | some ns => simp only [analyseAll_asked hns])

theorem asked_other (h : e.Covered index reorder) (he : ∀ c es span, e ≠ .connective c es span) :
    (e.analyse index reorder).asked = [e] ∧ index.Accepts e := by
  obtain ⟨info, hi, hs, ha⟩ := analyse_other h he
  exact ⟨by rw [ha], info, hi, hs⟩

theorem Expr.Covered.operand (h : (Expr.connective c es span).Covered index reorder)
    (he : e ∈ es) : e.Covered index reorder := by
  cases c with
  | conjunction => exact (analysed_conjunction h).1 e he
  | disjunction => exact (analysed_disjunction h).1 e he

/-- Only leaves of nested connectives are asked about, and none of them calls `boolean`. -/
theorem kind_of_asked (h : (Expr.connective c es span).Covered index reorder)
    (hflat : (Expr.connective c es span).Every Expr.IsFlat)
    (hd : d ∈ ((Expr.connective c es span).analyse index reorder).asked) : d.kind ≠ .boolean := by
  generalize hn : Expr.connective c es span = n at h hflat hd
  induction n generalizing c es span with
  | connective c es span ih =>
    obtain ⟨⟨-, hkinds⟩, hflats⟩ := Expr.every_connective.mp hflat
    rw [asked_connective h] at hd
    obtain ⟨e, he, hd⟩ := List.mem_flatMap.mp hd
    by_cases hother : ∀ k fs s, e ≠ .connective k fs s
    · rw [(asked_other (h.operand he) hother).1] at hd
      rw [List.mem_singleton.mp hd]
      exact (hkinds e he).2
    · obtain ⟨k, fs, s, rfl⟩ : ∃ k fs s, e = .connective k fs s := by
        simpa only [not_forall, not_not] using hother
      exact ih _ he rfl (h.operand he) (hflats _ he) hd
  | _ => cases hn

/-! ## Lookups of operands -/

theorem lowerAll_asked (index : Index) (es : List Expr) :
    (lowerAll index es).asked = es.flatMap fun e => (e.lower index).asked := by
  induction es with
  | nil => rfl
  | cons e es ih => rw [lowerAll, List.flatMap_cons, ← ih]

/-- A connective is looked up by its operands. -/
theorem lower_asked_connective :
    ((Expr.connective c es span).lower index).asked =
      es.flatMap fun e => (e.lower index).asked := by
  cases c with
  | conjunction => rw [Expr.lower]; exact lowerAll_asked index es
  | disjunction =>
    rcases es with _ | ⟨d, _ | ⟨e, es⟩⟩
    · rfl
    · rw [Expr.lower]; simp
    · rw [Expr.lower]
      · exact lowerAll_asked index _
      · simp

variable (index reorder) in
/-- The operands that are looked up for an expression. -/
def Expr.looked (e : Expr) : List Expr := ((e.analysed index reorder).1.lower index).asked

theorem looked_other (h : e.Covered index reorder)
    (he : ∀ c es span, e ≠ .connective c es span) : e.looked index reorder = [e] := by
  obtain ⟨info, -, hval⟩ := analysed_other h he
  rw [Expr.looked, hval]
  cases e with
  | connective c es span => exact absurd rfl (he c es span)
  | literal v => cases h
  | _ => rfl

theorem mem_looked_conjunction
    (h : (Expr.connective .conjunction es span).Covered index reorder) :
    d ∈ (Expr.connective .conjunction es span).looked index reorder ↔
      ∃ e ∈ es, d ∈ e.looked index reorder := by
  have hperm := orderOperands_perm reorder (es.map (·.analysed index reorder))
  simp only [Expr.looked, (analysed_conjunction h).2, lower_asked_connective, List.mem_flatMap,
    List.mem_map]
  constructor
  · rintro ⟨_, ⟨p, hp, rfl⟩, hd⟩
    obtain ⟨e, he, rfl⟩ := List.mem_map.mp (hperm.mem_iff.mp hp)
    exact ⟨e, he, hd⟩
  · rintro ⟨e, he, hd⟩
    exact ⟨_, ⟨_, hperm.mem_iff.mpr (List.mem_map_of_mem he), rfl⟩, hd⟩

variable (index) in
/-- What is looked up for a disjunction: the operands that it keeps, or the only one in a call of
`boolean`. -/
theorem Kept.lookups {ks : List Expr} (h : Kept span ks d)
    (hks : ∀ k ∈ ks, k.kind ≠ .boolean ∧ ∀ v, k ≠ .literal v) :
    (d.lower index).asked = (ks.flatMap fun k => (k.lower index).asked) ∧
        (∀ k, ks = [k] → k.type = .booleanOne) ∨
      ∃ k, ks = [k] ∧ k.type ≠ .booleanOne ∧
        (d.lower index).asked = [.call .boolean k span] := by
  cases h with
  | none => exact .inl ⟨rfl, nofun⟩
  | several hlen =>
    refine .inl ⟨lower_asked_connective, ?_⟩
    rintro k rfl
    simp at hlen
  | @one k _ hd =>
    rcases optimizeBoolean_bare (hks k (List.mem_singleton_self k)) hd with ⟨rfl, ht⟩ | ⟨rfl, ht⟩
    · refine .inl ⟨by simp, ?_⟩
      rintro _ ⟨⟩
      exact ht
    · exact .inr ⟨k, rfl, ht, rfl⟩

/-! ## Calls of `boolean` -/

variable (index reorder) in
/-- The analysis puts no operand in a call of `boolean` for its lookup: if it keeps one operand of
a disjunction, this operand is a boolean. -/
inductive Expr.Unwrapped : Expr → Prop where
  | other {e : Expr} : (∀ c es span, e ≠ .connective c es span) → Unwrapped e
  | conjunction {es : List Expr} {span : Span} :
      (∀ e ∈ es, Unwrapped e) → Unwrapped (.connective .conjunction es span)
  | disjunction {es : List Expr} {span : Span} :
      (∀ k, pruneOperands (es.map (·.analysed index reorder)) = [k] → k.type = .booleanOne) →
      (∀ e ∈ es, (e.analysed index reorder).2 ≠ 0 → Unwrapped e) →
      Unwrapped (.connective .disjunction es span)

/-- The operands that a disjunction keeps are conjunctions, or operands about which the index was
asked. -/
theorem kept_operand (h : (Expr.connective .disjunction es span).Covered index reorder)
    (hflat : ∀ e ∈ es, e.kind ≠ .disjunction ∧ e.kind ≠ .boolean) {k : Expr}
    (hk : k ∈ pruneOperands (es.map (·.analysed index reorder))) :
    (∃ fs s, k = .connective .conjunction fs s) ∨
      k ∈ es ∧ k.Covered index reorder ∧ ∀ c fs s, k ≠ .connective c fs s := by
  obtain ⟨e, he, -, hek⟩ := mem_pruneOperands.mp hk
  have hcov := h.operand he
  cases e with
  | connective c fs s =>
    cases c with
    | conjunction => rw [(analysed_conjunction hcov).2] at hek; exact .inl ⟨_, _, hek.symm⟩
    | disjunction => exact absurd rfl (hflat _ he).1
  | _ =>
    obtain ⟨info, -, hval⟩ := analysed_other hcov (by simp)
    rw [hval] at hek
    subst hek
    exact .inr ⟨he, hcov, by simp⟩

/-- What a disjunction keeps is neither a call of `boolean` nor a literal. -/
theorem kept_no_boolean (h : (Expr.connective .disjunction es span).Covered index reorder)
    (hflat : ∀ e ∈ es, e.kind ≠ .disjunction ∧ e.kind ≠ .boolean) :
    ∀ k ∈ pruneOperands (es.map (·.analysed index reorder)),
      k.kind ≠ .boolean ∧ ∀ v, k ≠ .literal v := by
  intro k hk
  rcases kept_operand h hflat hk with ⟨fs, s, rfl⟩ | ⟨hmem, hcov, -⟩
  · exact ⟨by simp [Expr.kind, Connective.kind], by simp⟩
  · refine ⟨(hflat k hmem).2, ?_⟩
    rintro v rfl
    cases hcov

/-- What is looked up for a disjunction in normal form. -/
theorem looked_disjunction (h : (Expr.connective .disjunction es span).Covered index reorder)
    (hflat : ∀ e ∈ es, e.kind ≠ .disjunction ∧ e.kind ≠ .boolean) :
    (∀ d, d ∈ (Expr.connective .disjunction es span).looked index reorder ↔
        ∃ e ∈ es, (e.analysed index reorder).2 ≠ 0 ∧ d ∈ e.looked index reorder) ∧
      (∀ k, pruneOperands (es.map (·.analysed index reorder)) = [k] → k.type = .booleanOne) ∨
    ∃ k ∈ es, index.Accepts k ∧ (k.analyse index reorder).asked = [k] ∧
      pruneOperands (es.map (·.analysed index reorder)) = [k] ∧ k.type ≠ .booleanOne ∧
      (Expr.connective .disjunction es span).looked index reorder = [.call .boolean k span] := by
  obtain ⟨-, -, hkept⟩ := analysed_disjunction h
  rcases hkept.lookups index (kept_no_boolean h hflat) with
    ⟨hlook, hone⟩ | ⟨k, hk, ht, hlook⟩
  · refine .inl ⟨fun d => ?_, hone⟩
    rw [Expr.looked, hlook, List.mem_flatMap]
    simp only [mem_pruneOperands]
    constructor
    · rintro ⟨_, ⟨e, he, hne, rfl⟩, hd⟩
      exact ⟨e, he, hne, hd⟩
    · rintro ⟨e, he, hne, hd⟩
      exact ⟨_, ⟨e, he, hne, rfl⟩, hd⟩
  · refine .inr ⟨k, ?_⟩
    rcases kept_operand h hflat (hk ▸ List.mem_singleton_self k) with
      ⟨fs, s, rfl⟩ | ⟨hmem, hcov, hother⟩
    · exact absurd rfl ht
    · obtain ⟨hasked, hacc⟩ := asked_other hcov hother
      exact ⟨hmem, hacc, hasked, hk, ht, hlook⟩

variable (index reorder) in
/-- The index was asked about an operand, and accepted it. -/
def Expr.Granted (e d : Expr) : Prop :=
  d ∈ (e.analyse index reorder).asked ∧ index.Accepts d

theorem Expr.Granted.up (h : (Expr.connective c es span).Covered index reorder) (he : e ∈ es)
    (hd : e.Granted index reorder d) : (Expr.connective c es span).Granted index reorder d := by
  refine ⟨?_, hd.2⟩
  rw [asked_connective h]
  exact List.mem_flatMap.mpr ⟨e, he, hd.1⟩

theorem looked_granted_or_wrapped (h : e.Covered index reorder) (hflat : e.Every Expr.IsFlat)
    (hd : d ∈ e.looked index reorder) :
    e.Granted index reorder d ∨
      ∃ a s, e.Granted index reorder a ∧ d = .call .boolean a s ∧ a.type ≠ .booleanOne := by
  induction e with
  | connective c es span ih =>
    obtain ⟨⟨-, hkinds⟩, hflats⟩ := Expr.every_connective.mp hflat
    -- what was asked about an operand was asked about the node
    have hup (e : Expr) (he : e ∈ es) (hd : d ∈ e.looked index reorder) :
        (Expr.connective c es span).Granted index reorder d ∨
          ∃ a s, (Expr.connective c es span).Granted index reorder a ∧
            d = .call .boolean a s ∧ a.type ≠ .booleanOne := by
      rcases ih e he (h.operand he) (hflats e he) hd with hd | ⟨a, s, ha, hd⟩
      · exact .inl (hd.up h he)
      · exact .inr ⟨a, s, ha.up h he, hd⟩
    cases c with
    | conjunction =>
      obtain ⟨e, he, hd⟩ := (mem_looked_conjunction h).mp hd
      exact hup e he hd
    | disjunction =>
      rcases looked_disjunction h hkinds with ⟨hlook, -⟩ | ⟨k, hk, hacc, hasked, -, ht, hlook⟩
      · obtain ⟨e, he, -, hd⟩ := (hlook d).mp hd
        exact hup e he hd
      · rw [hlook] at hd
        refine .inr ⟨k, span, .up h hk ⟨?_, hacc⟩, List.mem_singleton.mp hd, ht⟩
        rw [hasked]
        exact List.mem_singleton_self k
  | _ =>
    obtain ⟨hasked, hacc⟩ := asked_other h (by simp)
    rw [looked_other h (by simp)] at hd
    cases List.mem_singleton.mp hd
    exact .inl ⟨by rw [hasked]; exact hd, hacc⟩

/-- Without such calls, all operands that are looked up were asked about and accepted. -/
theorem Expr.Unwrapped.granted (hu : e.Unwrapped index reorder) (h : e.Covered index reorder)
    (hflat : e.Every Expr.IsFlat) (hd : d ∈ e.looked index reorder) :
    e.Granted index reorder d := by
  induction hu with
  | other he =>
    obtain ⟨hasked, hacc⟩ := asked_other h he
    rw [looked_other h he] at hd
    cases List.mem_singleton.mp hd
    exact ⟨by rw [hasked]; exact hd, hacc⟩
  | conjunction _ ih =>
    obtain ⟨e, he, hd⟩ := (mem_looked_conjunction h).mp hd
    exact (ih e he (h.operand he) ((Expr.every_connective.mp hflat).2 e he) hd).up h he
  | disjunction hone _ ih =>
    obtain ⟨⟨-, hkinds⟩, hflats⟩ := Expr.every_connective.mp hflat
    rcases looked_disjunction h hkinds with ⟨hlook, -⟩ | ⟨k, -, -, -, hk, ht, -⟩
    · obtain ⟨e, he, hne, hd⟩ := (hlook d).mp hd
      exact (ih e he hne (h.operand he) (hflats e he) hd).up h he
    · exact absurd (hone k hk) ht

/-- Otherwise a call of `boolean` is looked up. -/
theorem Expr.exists_wrapped (hu : ¬ e.Unwrapped index reorder) (h : e.Covered index reorder)
    (hflat : e.Every Expr.IsFlat) : ∃ d ∈ e.looked index reorder, d.kind = .boolean := by
  induction e with
  | connective c es span ih =>
    obtain ⟨⟨-, hkinds⟩, hflats⟩ := Expr.every_connective.mp hflat
    cases c with
    | conjunction =>
      obtain ⟨e, he, hue⟩ : ∃ e ∈ es, ¬ e.Unwrapped index reorder := by
        refine Classical.byContradiction fun hno => hu (.conjunction fun e he => ?_)
        exact Classical.byContradiction fun hue => hno ⟨e, he, hue⟩
      obtain ⟨d, hd, hk⟩ := ih e he hue (h.operand he) (hflats e he)
      exact ⟨d, (mem_looked_conjunction h).mpr ⟨e, he, hd⟩, hk⟩
    | disjunction =>
      rcases looked_disjunction h hkinds with ⟨hlook, hone⟩ | ⟨k, -, -, -, -, -, hlook⟩
      · obtain ⟨e, he, hne, hue⟩ :
            ∃ e ∈ es, (e.analysed index reorder).2 ≠ 0 ∧ ¬ e.Unwrapped index reorder := by
          refine Classical.byContradiction fun hno => hu (.disjunction hone fun e he hne => ?_)
          exact Classical.byContradiction fun hue => hno ⟨e, he, hne, hue⟩
        obtain ⟨d, hd, hk⟩ := ih e he hue (h.operand he) (hflats e he)
        exact ⟨d, (hlook d).mpr ⟨e, he, hne, hd⟩, hk⟩
      · exact ⟨.call .boolean k span, by rw [hlook]; exact List.mem_singleton_self _, rfl⟩
  | _ => exact absurd (.other (by simp)) hu

/-- A call of `boolean` that is looked up for a node is equal to nothing that was asked. -/
theorem Expr.exists_unasked (hu : ¬ e.Unwrapped index reorder) (h : e.Covered index reorder)
    (hflat : e.Every Expr.IsFlat) : ∃ d ∈ e.looked index reorder,
      ∀ a ∈ (e.analyse index reorder).asked, d.same a = false := by
  obtain ⟨d, hd, hk⟩ := Expr.exists_wrapped hu h hflat
  refine ⟨d, hd, fun a ha => Bool.eq_false_iff.mpr fun hsame => ?_⟩
  cases e with
  | connective c es span =>
    exact kind_of_asked h hflat ha ((Expr.kind_of_same hsame).symm.trans hk)
  | _ => exact absurd (.other (by simp)) hu

/-! ## Queries -/

/-- The analysis by an index, if it is made and leads to a plan, wraps no operand for its lookup. -/
def WrapsNone (config : IndexConfig) (index : Option Index) (e : Expr) : Prop :=
  ∀ i, index = some i → config.enabled = true → e.Covered i config.reorder →
    e.Unwrapped i config.reorder

/-- The questions of a query: those of the analysis first, and then lookups, if the index is asked
and covers the marked tree. -/
theorem compileQuery_questions {ctx : CompileContext} {checks : Checks} {r : Expr}
    (hr : (ctx.compile checks e).1 = .ok r) (index : Option Index) :
    ∃ q, (ctx.compileQuery checks index e).1 = .ok q ∧
      ((∃ i, index = some i ∧ ctx.config.index.enabled = true ∧
          r.markTail.Covered i ctx.config.index.reorder ∧
          q.questions = (r.markTail.analyse i ctx.config.index.reorder).asked.map .info ++
            (r.markTail.looked i ctx.config.index.reorder).map .lookup) ∨
        (∀ i, index = some i → ctx.config.index.enabled = true →
          ¬ r.markTail.Covered i ctx.config.index.reorder) ∧
          ∃ asked : List Expr, q.questions = asked.map .info) := by
  have hval : (e.compile checks).value = .ok r := hr
  have hquery : (ctx.compileQuery checks index e).1 =
      (compileQuery ctx.config.index checks index e).value := rfl
  rw [hquery, compileQuery, Attempt.andThen_of_ok hval]
  cases index with
  | none => exact ⟨_, rfl, .inr ⟨fun i hi => (by cases hi), [], rfl⟩⟩
  | some i =>
    by_cases hen : ctx.config.index.enabled = true
    · simp only [hen, if_true]
      refine ⟨_, rfl, ?_⟩
      cases hn : (r.markTail.analyse i ctx.config.index.reorder).estimate with
      | some n =>
        refine .inl ⟨i, rfl, trivial, by rw [Expr.Covered, hn]; rfl, ?_⟩
        simp only [consultIndex, hn]
        rfl
      | none =>
        refine .inr ⟨fun j hj _ => ?_, (r.markTail.analyse i ctx.config.index.reorder).asked, ?_⟩
        · cases hj
          rw [Expr.Covered, hn]
          exact Bool.false_ne_true
        · simp only [consultIndex, hn]
    · simp only [hen, Bool.false_eq_true, if_false]
      exact ⟨_, rfl, .inr ⟨fun _ _ h => h.elim, [], rfl⟩⟩

/-- The questions that a query puts to an index. All lookups come after all other questions, and
there is none unless the index is asked and covers the tree. What is looked up is an operand that
was asked about and accepted, or a call of `boolean` of one; if the analysis wraps no operand, it is
always the first, and if it does, one lookup is of an operand equal to none that was asked about. -/
theorem lookups_asked {ctx : CompileContext} {checks : Checks} {index : Option Index} {r : Expr}
    (hr : (ctx.compile checks e).1 = .ok r) :
    ∃ q, (ctx.compileQuery checks index e).1 = .ok q ∧ ∃ asked looked : List Expr,
      q.questions = asked.map .info ++ looked.map .lookup ∧
      (∀ d ∈ looked, ∃ i, index = some i ∧ ctx.config.index.enabled = true ∧
        r.markTail.Covered i ctx.config.index.reorder ∧
        ∃ a ∈ asked, i.Accepts a ∧
          (d = a ∨ ∃ s, d = .call .boolean a s ∧ a.type ≠ .booleanOne)) ∧
      (WrapsNone ctx.config.index index r.markTail →
        ∀ d ∈ looked, d ∈ asked ∧ ∃ i, index = some i ∧ i.Accepts d) ∧
      (¬ WrapsNone ctx.config.index index r.markTail →
        ∃ d ∈ looked, ∀ a ∈ asked, d.same a = false) := by
  have hval : (e.compile checks).value = .ok r := hr
  have hflat := Expr.markTail_flat (Expr.compile_settled hval).flat
  obtain ⟨q, hq, ⟨i, rfl, hen, hcov, hquestions⟩ | ⟨hno, asked, hquestions⟩⟩ :=
    compileQuery_questions hr index
  · refine ⟨q, hq, _, _, hquestions, fun d hd => ⟨i, rfl, hen, hcov, ?_⟩, fun hw d hd => ?_,
      fun hw => ?_⟩
    · rcases looked_granted_or_wrapped hcov hflat hd with hd | ⟨a, s, ha, hda⟩
      · exact ⟨d, hd.1, hd.2, .inl rfl⟩
      · exact ⟨a, ha.1, ha.2, .inr ⟨s, hda⟩⟩
    · have hgranted := (hw i rfl hen hcov).granted hcov hflat hd
      exact ⟨hgranted.1, i, rfl, hgranted.2⟩
    · refine Expr.exists_unasked (fun hu => hw fun j hj _ _ => ?_) hcov hflat
      cases hj
      exact hu
  · refine ⟨q, hq, asked, [], by simpa using hquestions, nofun, fun _ => nofun, fun hw => ?_⟩
    exact absurd (fun i hi hen hcov => absurd hcov (hno i hi hen)) hw

end

/-- The second call stays the last, and both calls are looked up as they were asked about. -/
theorem lookups_asked_ordered :
    ∃ q, ((CompileContext.start {} .empty).compileQuery (fun _ _ _ => .ok ())
        (some (callIndex 5 100)) (twoCalls false)).1 = .ok q ∧ ∃ asked looked : List Expr,
      q.questions = asked.map .info ++ looked.map .lookup ∧ ∀ d ∈ looked, d ∈ asked := by
  obtain ⟨q, hq, asked, looked, hquestions, -, hnone, -⟩ :=
    @lookups_asked _ _ _ (some (callIndex 5 100)) _ twoCalls_compiles
  refine ⟨q, hq, asked, looked, hquestions, fun d hd => (hnone ?_ d hd).1⟩
  intro i hi _ _
  cases hi
  exact .conjunction (List.forall_mem_cons.mpr ⟨.other nofun, List.forall_mem_singleton.mpr
    (.other nofun)⟩)

/-- A disjunction of two calls; the second yields a number. -/
def callOrNumber : Expr :=
  .connective .disjunction
    [.external ⟨0, "none", .booleanOne, true⟩ [] false .unknown,
      .external ⟨1, "f", .one .integer, true⟩ [] false .unknown] .unknown

/-- Nothing matches the first call, so the second is left alone. It was asked about as it is, but
is looked up in a call of `boolean`. -/
theorem lookup_not_asked :
    ∃ q d, ((CompileContext.start {} .empty).compileQuery (fun _ _ _ => .ok ())
        (some (callIndex 0 5)) callOrNumber).1 = .ok q ∧
      .lookup d ∈ q.questions ∧ ∀ a, .info a ∈ q.questions → d.same a = false := by
  let first := Expr.external ⟨0, "none", .booleanOne, true⟩ [] false .unknown
  let f := Expr.external ⟨1, "f", .one .integer, true⟩ [] false .unknown
  refine ⟨_, .call .boolean f .unknown, rfl, ?_⟩
  have hquestions : (consultIndex (callIndex 0 5) true callOrNumber).value.questions =
      [.info first, .info f, .lookup (.call .boolean f .unknown)] := by rfl
  show Question.lookup _ ∈ (consultIndex (callIndex 0 5) true callOrNumber).value.questions ∧
    ∀ a, .info a ∈ (consultIndex (callIndex 0 5) true callOrNumber).value.questions → _
  rw [hquestions]
  refine ⟨by simp, fun a ha => ?_⟩
  simp only [List.mem_cons, Question.info.injEq, reduceCtorEq, List.not_mem_nil, or_false] at ha
  rcases ha with rfl | rfl <;> rfl

end QueryExpr
