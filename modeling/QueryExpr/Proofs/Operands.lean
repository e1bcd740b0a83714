import QueryExpr.Proofs.Flatten

/-!
# QueryExpr.Proofs.Operands

The other steps of the optimiser of connectives: literals, repeated operands, neighbours and
negations. Every step is rewriting of the operands; `ds` is what stands in front of those that a
step still has to look at.
-/

namespace QueryExpr

section
variable {checks : Checks} {K : Known} {c : Connective} {span : Span}

/-! ## Literals -/

theorem selectOperands_operand {e : Expr} (he : e.literal? = none) (ps : List Piece)
    (leading : Bool) :
    selectOperands c span (.operand e :: ps) leading =
      (selectOperands c span ps false).map (e :: ·) := by
  cases e with
  | literal v => simp [Expr.literal?] at he
  | _ => rfl

/-- Behind the first operand nothing fails at once. -/
theorem selectOperands_later (c : Connective) (span : Span) (ps : List Piece) :
    ∃ kept, (selectOperands c span ps false).value = .ok kept := by
  induction ps with
  | nil => exact ⟨[], rfl⟩
  | cons p ps ih =>
    obtain ⟨kept, hk⟩ := ih
    cases p with
    | event t => exact ⟨kept, hk⟩
    | operand e =>
      cases he : e.literal? with
      | none => exact ⟨e :: kept, by rw [selectOperands_operand he, Attempt.value_map, hk]; rfl⟩
      | some v =>
        rw [Expr.literal?_eq_some.mp he]
        simp only [selectOperands]
        split
        · exact ⟨_, rfl⟩
        · split
          · exact ⟨_, rfl⟩
          · exact ⟨kept, hk⟩

/-- What is selected from operands, or the error of the first one, if no operand stands in front. -/
inductive Selects (c : Connective) (span : Span) :
    Bool → List Expr → Except CompileError (List Expr) → Prop where
  | nil (leading : Bool) : Selects c span leading [] (.ok [])
  | kept {e : Expr} {es fs : List Expr} (leading : Bool) : e.literal? = none →
    Selects c span false es (.ok fs) → Selects c span leading (e :: es) (.ok (e :: fs))
  | failed {v : Value} {t : EvalError} (es : List Expr) : v.ebv span = .error t →
    Selects c span true (.literal v :: es) (.error (.eval t))
  | parked {v : Value} {t : EvalError} (es : List Expr) : v.ebv span = .error t →
    Selects c span false (.literal v :: es) (.ok [.failing (.eval t) v.type span])
  | decided {v : Value} {b : Truth} (leading : Bool) (es : List Expr) : v.ebv span = .ok b →
    b.value = c.absorbing →
    Selects c span leading (.literal v :: es) (.ok [.ofBool c.absorbing])
  | dropped {v : Value} {b : Truth} {es : List Expr} {r : Except CompileError (List Expr)}
    (leading : Bool) : v.ebv span = .ok b → b.value ≠ c.absorbing → Selects c span false es r →
    Selects c span leading (.literal v :: es) r

theorem selectOperands_selects (c : Connective) (span : Span) (ps : List Piece) (leading : Bool) :
    Selects c span leading (operandsOf ps) (selectOperands c span ps leading).value := by
  induction ps generalizing leading with
  | nil => exact .nil leading
  | cons p ps ih =>
    cases p with
    | event t => exact ih leading
    | operand e =>
      cases he : e.literal? with
      | none =>
        obtain ⟨rest, hr⟩ := selectOperands_later c span ps
        rw [selectOperands_operand he, Attempt.value_map, hr]
        exact .kept leading he (hr ▸ ih false)
      | some v =>
        rw [Expr.literal?_eq_some.mp he]
        simp only [selectOperands]
        split
        · rename_i t ht
          cases leading with
          | false => exact .parked _ ht
          | true => exact .failed _ ht
        · rename_i b hb
          split
          · rename_i hd; exact .decided leading _ hb hd
          · rename_i hd; exact .dropped leading hb hd (ih false)

/-- Only while no operand stands in front may a literal fail at once. -/
theorem selectOperands_rewrites (ps : List Piece) (leading : Bool) (ds : List Expr)
    (hds : leading = true → ds = []) :
    Rewrites checks K (.connective c (ds ++ operandsOf ps) span)
      ((selectOperands c span ps leading).value.map fun es => .connective c (ds ++ es) span) := by
  have h := selectOperands_selects c span ps leading
  generalize operandsOf ps = es, (selectOperands c span ps leading).value = r at h ⊢
  induction h generalizing ds with
  | nil => exact .refl
  | @kept e _ _ _ _ _ ih =>
    have hrest := ih (ds ++ [e]) nofun
    simpa [Except.map] using hrest
  | failed _ ht =>
    rw [hds rfl]
    exact .rule (.undefinedFirst ht)
  | parked _ ht => exact .operands (.undefined ht)
  | decided _ _ hb hd => exact .operands (.decided hb hd)
  | dropped _ hb hd _ ih =>
    refine .trans (.operands (.neutral hb ?_)) (ih ds nofun)
    exact Bool.eq_not_of_ne hd

/-- What is kept comes from the operands, or decides, or is a parked error. -/
theorem selectOperands_mem {P : Expr → Prop} (hd : P (.ofBool c.absorbing))
    (hf : ∀ cause type, P (.failing cause type span)) {ps : List Piece}
    (hps : ∀ e ∈ operandsOf ps, P e) {leading : Bool} {kept : List Expr}
    (h : (selectOperands c span ps leading).value = .ok kept) : ∀ e ∈ kept, P e := by
  have hs := selectOperands_selects c span ps leading
  generalize operandsOf ps = es, (selectOperands c span ps leading).value = r at hs hps h
  induction hs generalizing kept with
  | nil => cases h; exact hps
  | kept _ _ _ ih =>
    cases h
    obtain ⟨he, hes⟩ := List.forall_mem_cons.mp hps
    exact List.forall_mem_cons.mpr ⟨he, ih hes rfl⟩
  | failed => cases h
  | parked => cases h; exact List.forall_mem_singleton.mpr (hf _ _)
  | decided => cases h; exact List.forall_mem_singleton.mpr hd
  | dropped _ _ _ _ ih => exact ih (List.forall_mem_cons.mp hps).2 h

/-- A literal that is kept is the last operand and decides. -/
theorem selectOperands_literal {ps : List Piece} {leading : Bool} {kept : List Expr}
    (h : (selectOperands c span ps leading).value = .ok kept) {ds fs : List Expr} {v : Value}
    (hk : kept = ds ++ .literal v :: fs) : fs = [] ∧ Expr.literal v = .ofBool c.absorbing := by
  have hs := selectOperands_selects c span ps leading
  generalize operandsOf ps = es, (selectOperands c span ps leading).value = r at hs h
  induction hs generalizing kept ds with
  | nil => cases h; simp at hk
  | kept _ he _ ih =>
    cases h
    cases ds with
    | nil => rw [(List.cons.inj hk).1] at he; cases he
    | cons d ds => exact ih (List.cons.inj hk).2 rfl
  | failed => cases h
  | parked => cases h; cases ds <;> simp at hk
  | decided =>
    cases h
    cases ds with
    | nil => obtain ⟨h₁, h₂⟩ := List.cons.inj hk; exact ⟨h₂.symm, h₁.symm⟩
    | cons d ds => simp at hk
  | dropped _ _ _ _ ih => exact ih hk h

theorem selectOperands_size {ps : List Piece} {leading : Bool} {kept : List Expr}
    (h : (selectOperands c span ps leading).value = .ok kept) :
    sizeList kept ≤ sizeList (operandsOf ps) := by
  have hs := selectOperands_selects c span ps leading
  generalize operandsOf ps = es, (selectOperands c span ps leading).value = r at hs h ⊢
  induction hs generalizing kept with
  | nil => cases h; exact Nat.le_refl _
  | kept _ _ _ ih => cases h; exact Nat.add_le_add_left (ih rfl) _
  | failed => cases h
  | parked => cases h; simp only [sizeList, Expr.size]; omega
  | decided => cases h; simp only [Expr.ofBool, sizeList, Expr.size]; omega
  | dropped _ _ _ _ ih => exact Nat.le_trans (ih h) (Nat.le_add_left _ _)

/-! ## Repeated operands -/

theorem dropDuplicates_rewrites (seen es : List Expr) :
    Rewrites checks K (.connective c (seen ++ es) span)
      (.ok (.connective c (seen ++ (dropDuplicates c seen es).value) span)) := by
  induction es generalizing seen with
  | nil => exact .refl
  | cons e es ih =>
    simp only [dropDuplicates]
    split
    · rename_i h
      simp only [Bool.and_eq_true, Bool.not_eq_true', List.any_eq_true] at h
      obtain ⟨hr, d, hd, hs⟩ := h
      exact .trans (.operands (.duplicate hr hd hs)) (ih seen)
    · simpa using ih (seen ++ [e])

theorem dropDuplicates_sublist (seen es : List Expr) :
    (dropDuplicates c seen es).value.Sublist es := by
  induction es generalizing seen with
  | nil => exact .slnil
  | cons e es ih =>
    simp only [dropDuplicates]
    split
    · exact .cons _ (ih seen)
    · exact .cons_cons _ (ih _)

/-- What is left repeats neither what was seen before nor itself. -/
theorem dropDuplicates_distinct (seen es : List Expr) :
    (∀ e ∈ (dropDuplicates c seen es).value, e.isRandom = false →
      ∀ d ∈ seen, e.same d = false) ∧
    (dropDuplicates c seen es).value.Pairwise fun d e => e.isRandom = false → e.same d = false := by
  induction es generalizing seen with
  | nil => simp [dropDuplicates]
  | cons e es ih =>
    simp only [dropDuplicates]
    split
    · exact ih seen
    · rename_i h
      obtain ⟨h₁, h₂⟩ := ih (seen ++ [e])
      simp only [Bool.and_eq_true, Bool.not_eq_true', List.any_eq_true, not_and, not_exists,
        Bool.not_eq_true] at h
      constructor
      · refine List.forall_mem_cons.mpr ⟨h, fun f hf hr d hd => ?_⟩
        exact h₁ f hf hr d (List.mem_append_left _ hd)
      · refine List.pairwise_cons.mpr ⟨fun f hf hr => ?_, h₂⟩
        exact h₁ f hf hr e (by simp)

/-! ## Neighbours -/

theorem positionConstant?_inter {a b a' b' : Int64} (h : positionConstant? a b = none)
    (h' : positionConstant? a' b' = none)
    (hm : ¬ (if b' < b then b' else b) < (if a < a' then a' else a)) :
    positionConstant? (if a < a' then a' else a) (if b' < b then b' else b) = none := by
  simp only [positionConstant?, Int64.lt_iff_toInt_lt, Int64.le_iff_toInt_le,
    ← Int64.toInt_inj] at *
  grind

/-- The three ways in which two neighbours can be merged. -/
theorem merge?_cases {d e : Expr} {m : Noted Expr} (h : d.merge? c e = some m) :
    (∃ a b s a' b' s' lo hi, c = .conjunction ∧ d = .position a b s ∧ e = .position a' b' s' ∧
      lo = (if a < a' then a' else a) ∧ hi = (if b' < b then b' else b) ∧
      m.value = if hi < lo then .ofBool false else .position lo hi s) ∨
    (∃ b d' s b' e' s', c = .conjunction ∧ d = .range b d' s ∧ e = .range b' e' s' ∧
      d'.same e' = true ∧ d'.isRandom = false ∧ d'.type.atMostOne = true ∧
      m.value = if (b.inter b').isEmpty then .ofBool false else .range (b.inter b') d' s) ∨
    (∃ l v s l' w s', c = .disjunction ∧ d = .compare .eq l (.literal v) s ∧
      e = .compare .eq l' (.literal w) s' ∧ l.same l' = true ∧ l.isRandom = false ∧
      m.value = .compare .eq l (.literal (v ++ w)) s) := by
  unfold Expr.merge? at h
  split at h
  · cases h; exact .inl ⟨_, _, _, _, _, _, _, _, rfl, rfl, rfl, rfl, rfl, rfl⟩
  · rename_i b d' s b' e' s'
    simp only [mergeRanges] at h
    split at h
    · cases h
    · rename_i hc
      simp only [Bool.or_eq_true, Bool.not_eq_true', not_or, Bool.not_eq_false,
        Bool.not_eq_true] at hc
      cases h
      exact .inr (.inl ⟨_, _, _, _, _, _, rfl, rfl, rfl, hc.1.1, hc.1.2, hc.2, rfl⟩)
  · rename_i op l r s op' l' r' s'
    simp only [mergeEqualities] at h
    split at h
    · cases h
    · rename_i hc
      simp only [Bool.or_eq_true, bne_iff_ne, ne_eq, Bool.not_eq_true', not_or, Decidable.not_not,
        Bool.not_eq_false, Bool.not_eq_true] at hc
      obtain ⟨⟨⟨rfl, rfl⟩, hs⟩, hr⟩ := hc
      split at h
      · cases h
        exact .inr (.inr ⟨_, _, _, _, _, _, rfl, rfl, rfl, hs, hr, rfl⟩)
      · cases h
  · cases h

/-- Where a property passes from an operand to its argument or its operands, to what takes its place
and to what it is merged into, all operands have it after a rule. -/
theorem OperandRule.forall_mem {P : Expr → Prop} {es fs : List Expr} (h : OperandRule c span es fs)
    (harg : ∀ e s, P (.call .boolean e s) → P e)
    (hparts : ∀ ds s, P (.connective c ds s) → ∀ d ∈ ds, P d) (hbool : P (.ofBool c.absorbing))
    (hfail : ∀ v t, P (.literal v) → P (.failing (.eval t) v.type span))
    (hmerge : ∀ d e m, P d → P e → d.merge? c e = some m → P m.value) (hes : ∀ e ∈ es, P e) :
    ∀ e ∈ fs, P e := by
  cases h <;> simp only [List.forall_mem_append, List.forall_mem_cons] at hes ⊢
  case unwrap => exact ⟨hes.1, harg _ _ hes.2.1, hes.2.2⟩
  case splice => exact ⟨⟨hes.1, hparts _ _ hes.2.1⟩, hes.2.2⟩
  case neutral => exact ⟨hes.1, hes.2.2⟩
  case decided => exact ⟨hes.1, hbool, by simp⟩
  case undefined => exact ⟨hes.1, hfail _ _ hes.2.1, by simp⟩
  case unreached => exact ⟨hes.1, hes.2.1, by simp⟩
  case duplicate => exact ⟨hes.1, hes.2.2⟩
  case merged hm => exact ⟨hes.1, hmerge _ _ _ hes.2.1 hes.2.2.1 hm, hes.2.2.2⟩

theorem merge?_settled {d e : Expr} {m : Noted Expr} (hd : d.Settled) (he : e.Settled)
    (h : d.merge? c e = some m) : m.value.Settled := by
  rcases merge?_cases h with ⟨a, b, s, a', b', s', lo, hi, rfl, rfl, rfl, rfl, rfl, hm⟩ |
    ⟨b, d', s, b', e', s', rfl, rfl, rfl, _, _, _, hm⟩ |
    ⟨l, v, s, l', w, s', rfl, rfl, rfl, _, _, hm⟩
  · by_cases hlt : (if b' < b then b' else b) < (if a < a' then a' else a)
    · rw [hm, if_pos hlt]; exact Expr.settled_ofBool false
    · rw [hm, if_neg hlt]
      exact Expr.every_position.mpr (positionConstant?_inter hd.node he.node hlt)
  · rw [hm]
    split
    · exact Expr.settled_ofBool false
    · rename_i hb
      obtain ⟨⟨_, hl⟩, hd'⟩ := Expr.every_range.mp hd
      exact Expr.every_range.mpr ⟨⟨by simpa using hb, hl⟩, hd'⟩
  · rw [hm]
    obtain ⟨hr, hl, _⟩ := Expr.every_compare.mp hd
    have hl' : l.literal? = none := hr.resolve_right (by simp [Expr.literal?])
    exact Expr.every_compare.mpr ⟨.inl hl', hl, Expr.settled_literal _⟩

theorem merge?_size {d e : Expr} {m : Noted Expr} (h : d.merge? c e = some m) :
    m.value.size < d.size + e.size := by
  rcases merge?_cases h with ⟨a, b, s, a', b', s', lo, hi, rfl, rfl, rfl, _, _, hm⟩ |
    ⟨b, d', s, b', e', s', rfl, rfl, rfl, _, _, _, hm⟩ |
    ⟨l, v, s, l', w, s', rfl, rfl, rfl, _, _, hm⟩
  · rw [hm]
    split <;> simp [Expr.ofBool, Expr.size]
  · rw [hm]
    split <;> simp only [Expr.ofBool, Expr.size] <;> omega
  · rw [hm]; simp only [Expr.size]; omega

theorem mergeOnto_rewrites {d : Expr} {es : List Expr} (hd : d.Settled)
    (hes : ∀ e ∈ es, e.Settled) (ds : List Expr) :
    Rewrites checks K (.connective c (ds ++ d :: es) span)
      (.ok (.connective c (ds ++ (mergeOnto c d es).value) span)) := by
  induction es generalizing d ds with
  | nil => exact .refl
  | cons e es ih =>
    obtain ⟨he, hes⟩ := List.forall_mem_cons.mp hes
    simp only [mergeOnto]
    split
    · rename_i m hm
      exact .trans (.operands (.merged hd.node he.node hm)) (ih (merge?_settled hd he hm) hes ds)
    · simpa using ih he hes (ds ++ [d])

/-- What passes from two operands to what they are merged into passes to all that is left. -/
theorem mergeOnto_forall_mem {P : Expr → Prop}
    (hmerge : ∀ {d e m}, P d → P e → d.merge? c e = some m → P m.value) {d : Expr} {es : List Expr}
    (hd : P d) (hes : ∀ e ∈ es, P e) : ∀ e ∈ (mergeOnto c d es).value, P e := by
  induction es generalizing d with
  | nil => simpa [mergeOnto] using hd
  | cons e es ih =>
    obtain ⟨he, hes⟩ := List.forall_mem_cons.mp hes
    simp only [mergeOnto]
    split
    · rename_i m hm; exact ih (hmerge hd he hm) hes
    · exact List.forall_mem_cons.mpr ⟨hd, ih he hes⟩

theorem mergeOnto_settled {d : Expr} {es : List Expr} (hd : d.Settled)
    (hes : ∀ e ∈ es, e.Settled) : ∀ e ∈ (mergeOnto c d es).value, e.Settled :=
  mergeOnto_forall_mem merge?_settled hd hes

theorem mergeOnto_ne_nil (d : Expr) (es : List Expr) : (mergeOnto c d es).value ≠ [] := by
  induction es generalizing d with
  | nil => simp [mergeOnto]
  | cons e es ih =>
    simp only [mergeOnto]
    split
    · exact ih _
    · simp

/-- Either there is nothing to merge, or the operands get fewer and smaller. -/
theorem mergeOnto_cases (d : Expr) (es : List Expr) :
    ((mergeOnto c d es).value = d :: es ∧
      ∀ gs (a b : Expr) fs, d :: es = gs ++ a :: b :: fs → a.merge? c b = none) ∨
    ((mergeOnto c d es).value.length < (d :: es).length ∧
      sizeList (mergeOnto c d es).value < sizeList (d :: es)) := by
  induction es generalizing d with
  | nil =>
    refine .inl ⟨rfl, fun gs a b fs h => ?_⟩
    cases gs <;> simp at h
  | cons e es ih =>
    simp only [mergeOnto]
    split
    · rename_i m hm
      have hsize := merge?_size hm
      refine .inr ?_
      rcases ih m.value with ⟨hv, _⟩ | ⟨hl, hs⟩
      · rw [Noted.value_after, hv]
        simp only [List.length_cons, sizeList]; omega
      · rw [Noted.value_after]
        simp only [List.length_cons, sizeList] at hl hs ⊢; omega
    · rename_i hm
      rcases ih e with ⟨hv, hn⟩ | ⟨hl, hs⟩
      · refine .inl ⟨by rw [Noted.value_map, hv], fun gs a b fs h => ?_⟩
        cases gs with
        | nil =>
          simp only [List.nil_append, List.cons.injEq] at h
          obtain ⟨rfl, rfl, _⟩ := h
          exact hm
        | cons g gs => exact hn gs a b fs (List.cons.inj h).2
      · refine .inr ?_
        simp only [Noted.value_map, List.length_cons, sizeList] at hl hs ⊢; omega

/-! ## Negations -/

theorem negated?_cons {e : Expr} {es args : List Expr} (h : negated? (e :: es) = some args) :
    ∃ arg s args', e = .call .not arg s ∧ negated? es = some args' ∧ args = arg :: args' := by
  unfold negated? at h
  split at h
  · rename_i heq; cases heq
  · rename_i arg s es' heq
    cases heq
    obtain ⟨args', ha, rfl⟩ := Option.map_eq_some_iff.mp h
    exact ⟨arg, s, args', rfl, ha, rfl⟩
  · cases h

theorem negated?_mem {es args : List Expr} (h : negated? es = some args) :
    ∀ e ∈ es, ∃ arg s, e = .call .not arg s := by
  induction es generalizing args with
  | nil => simp
  | cons e es ih =>
    obtain ⟨arg, s, args', rfl, ha, rfl⟩ := negated?_cons h
    exact List.forall_mem_cons.mpr ⟨⟨arg, s, rfl⟩, ih ha⟩

/-- What passes from a negation to its argument passes to all that is negated. -/
theorem negated?_forall_mem {P Q : Expr → Prop} (harg : ∀ arg s, P (.call .not arg s) → Q arg)
    {es args : List Expr} (h : negated? es = some args) (hes : ∀ e ∈ es, P e) :
    ∀ e ∈ args, Q e := by
  induction es generalizing args with
  | nil => cases h; simp
  | cons e es ih =>
    obtain ⟨arg, s, args', rfl, ha, rfl⟩ := negated?_cons h
    obtain ⟨he, hes⟩ := List.forall_mem_cons.mp hes
    exact List.forall_mem_cons.mpr ⟨harg arg s he, ih ha hes⟩

theorem negated?_every {q : Expr → Prop} {es args : List Expr} (h : negated? es = some args)
    (hes : ∀ e ∈ es, e.Every q) : ∀ e ∈ args, e.Every q :=
  negated?_forall_mem (fun _ _ he => (Expr.every_call.mp he).2) h hes

theorem negated?_size {es args : List Expr} (h : negated? es = some args) :
    sizeList es = sizeList args + es.length := by
  induction es generalizing args with
  | nil => cases h; rfl
  | cons e es ih =>
    obtain ⟨arg, s, args', rfl, ha, rfl⟩ := negated?_cons h
    have := ih ha
    simp only [sizeList, Expr.size, List.length_cons]; omega

theorem negated?_eq_none {es : List Expr} (h : negated? es = none) :
    ∃ e ∈ es, e.kind ≠ .negation := by
  induction es with
  | nil => cases h
  | cons e es ih =>
    by_cases he : e.kind = .negation
    · obtain ⟨arg, s, rfl⟩ := Expr.kind_eq_negation.mp he
      obtain ⟨d, hd, hk⟩ := ih (Option.map_eq_none_iff.mp h)
      exact ⟨d, List.mem_cons_of_mem _ hd, hk⟩
    · exact ⟨e, List.mem_cons_self .., he⟩

end

end QueryExpr
