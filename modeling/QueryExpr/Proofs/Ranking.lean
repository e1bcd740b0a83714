import QueryExpr.Proofs.Bare
import QueryExpr.Proofs.Refinement
import QueryExpr.Proofs.Same

/-!
# QueryExpr.Proofs.Ranking

What an expression yields with scoring on, as a function of the context alone.

* `Connective.add?`  — a connective takes its operands one by one, until one decides it.
* `Expr.rank?`       — the value of an expression with its scores. Where only the truth of a value
  matters, its scores are left out, and a true operand decides a disjunction at once.
* `Upholds`          — one expression yields whatever another yields, scores included.
* `Upholds.plug`, `Upholds.agree`, `Upholds.same` — in a place of a node, in contexts that differ in
  a variable that does not occur, and for expressions that are structurally equal.
-/

namespace QueryExpr

/-! ## Connectives -/

namespace Connective

/-- The truth of a connective before its first operand. -/
def start (k : Connective) : Truth := .plain !k.absorbing

/-- The truth of a connective after one more operand, if the operand does not decide it. A scored
operand that is true does not decide a disjunction. -/
def add? : Connective → Truth → Truth → Option Truth
  | .conjunction, a, b => if b.value then some ⟨a.value, a.score.both b.score⟩ else none
  | .disjunction, a, b =>
    if b.value then
      if b.score.isZero then none else some (.scored (a.score.either b.score))
    else some a

/-- The truth of a connective that some operand has decided, or else all have been added to. -/
def outcome (k : Connective) (o : Option Truth) : Truth := o.getD (.plain k.absorbing)

/-- What the truth of a connective may be before it is decided. -/
def Reached (k : Connective) (a : Truth) : Prop :=
  a.Proper ∧ match k with
    | .conjunction => a.value = true
    | .disjunction => a.value = true → a.score.isZero = false

variable {k : Connective} {a b : Truth}

theorem start_proper (k : Connective) : k.start.Proper := Truth.proper_plain _

theorem start_reached (k : Connective) : k.Reached k.start := by
  refine ⟨start_proper k, ?_⟩
  cases k with
  | conjunction => rfl
  | disjunction => exact nofun

/-- An unscored operand decides a connective or changes nothing. -/
theorem add?_plain (ha : a.score.Proper) (x : Bool) :
    k.add? a (.plain x) = if x = k.absorbing then none else some a := by
  cases k <;> cases x
  · rfl
  · exact congrArg (fun s => some (Truth.mk a.value s)) ha.both_zero
  · rfl
  · rfl

theorem add?_absorbing (a : Truth) : k.add? a (.plain k.absorbing) = none := by cases k <;> rfl

theorem add?_reached (ha : k.Reached a) (hb : b.Proper) {a' : Truth} (h : k.add? a b = some a') :
    k.Reached a' := by
  obtain ⟨ha, hk⟩ := ha
  cases k with
  | conjunction =>
    simp only [add?] at h
    split at h
    · cases h
      exact ⟨⟨ha.1.both hb.1, fun hf => absurd (hk.symm.trans hf) (by decide)⟩, hk⟩
    · cases h
  | disjunction =>
    simp only [add?] at h
    split at h
    · split at h
      · cases h
      · rename_i hz
        cases h
        refine ⟨⟨ha.1.either hb.1, nofun⟩, fun _ => ha.1.either_isZero hb.1 ?_⟩
        simpa using hz
    · cases h; exact ⟨ha, hk⟩

theorem add?_value {a' : Truth} (h : k.add? a b = some a') :
    a'.value = if b.value = k.absorbing then k.absorbing else a.value := by
  cases k with
  | conjunction =>
    simp only [add?] at h
    split at h
    · rename_i hb; cases h; simp [hb, absorbing]
    · cases h
  | disjunction =>
    simp only [add?] at h
    split at h
    · rename_i hb
      split at h
      · cases h
      · cases h; simp [hb, absorbing, Truth.scored]
    · rename_i hb; cases h; simp [hb, absorbing]

theorem add?_undecided (hb : b.value ≠ k.absorbing) : ∃ a', k.add? a b = some a' := by
  cases k with
  | conjunction =>
    have hb : b.value = true := by simpa [absorbing] using hb
    exact ⟨_, by rw [add?, if_pos hb]⟩
  | disjunction =>
    have hb : ¬ b.value = true := hb
    exact ⟨a, by rw [add?, if_neg hb]⟩

/-- What has been reached is reached in one step, too. -/
theorem add?_start (ha : k.Reached a) : k.add? k.start a = some a := by
  obtain ⟨⟨hs, hz⟩, hk⟩ := ha
  obtain ⟨x, s⟩ := a
  cases k with
  | conjunction => obtain rfl : x = true := hk; rfl
  | disjunction =>
    cases x with
    | true =>
      have hk : s.isZero = false := hk rfl
      simp only [add?, hk, if_true, Bool.false_eq_true, if_false]
      exact congrArg (fun s => some (Truth.scored s)) hs.zero_either
    | false =>
      obtain rfl : s = .zero := hz rfl
      rfl

/-- One operand makes the truth of the connective. -/
theorem outcome_one (hb : b.Proper) : k.outcome (k.add? k.start b) = b := by
  obtain ⟨hs, hz⟩ := hb
  obtain ⟨x, s⟩ := b
  cases x with
  | false =>
    obtain rfl : s = .zero := hz rfl
    cases k <;> rfl
  | true =>
    cases k with
    | conjunction => rfl
    | disjunction =>
      cases hs0 : s.isZero with
      | true => obtain rfl := hs.eq_zero hs0; rfl
      | false =>
        have hk : Reached .disjunction ⟨true, s⟩ := ⟨⟨hs, nofun⟩, fun _ => hs0⟩
        rw [add?_start hk]
        rfl

theorem Reached.outcome {o : Option Truth} (h : ∀ a, o = some a → k.Reached a) :
    (k.outcome o).Proper := by
  cases o with
  | none => exact Truth.proper_plain _
  | some a => exact (h a rfl).1

end Connective

/-! ## Values with scores -/

mutual

/-- The value of an expression with its scores, or (if `m`) without. The operands of comparisons,
ranges, casts, switches and negations are looked at without their scores. -/
def Expr.rank? (L : Library) : Bool → Expr → Context → Option Value
  | m, .connective k es _, c =>
    (tally? L m k es k.start c).map fun o => .ofTruth (k.outcome o)
  | m, .switch e cs d _, c =>
    (e.rank? L true c).bind fun v => v.item?.bind fun i => caseRank? L m i (d.rank? L m c) cs c
  | m, .typeswitch e cs _, c => (e.rank? L false c).bind fun v => typeCaseRank? L m v cs c
  | _, .cast e t _, c => (e.rank? L true c).bind fun v => v.cast? t
  | m, .call .boolean e _, c => ((e.rank? L m c).bind Value.grade?).map .ofTruth
  | _, .call .not e _, c => ((e.rank? L true c).bind Value.test?).map fun b => .ofBool !b
  | _, .compare op l r _, c =>
    (l.rank? L true c).bind fun v => (r.rank? L true c).bind fun w => (v.compare? op w).map .ofBool
  | _, .range b e _, c => (e.rank? L true c).bind fun v => (b.test? v).map .ofBool
  | _, .position min max _, c =>
    c.focus.map fun f => .ofBool (min ≤ f.position && f.position ≤ max)
  | m, .literal v, _ => some (v.kept m)
  | m, .var x _, c => (c.lookup x.id).map (·.kept m)
  | m, .external fn es _ _, c => ((argRanks? L es c).bind (L fn.name)).map (·.kept m)
  | _, .failing _ _ _, _ => none

/-- The truth of a connective after more operands; `some none` stands for one that is decided. -/
def tally? (L : Library) (m : Bool) (k : Connective) :
    List Expr → Truth → Context → Option (Option Truth)
  | [], a, _ => some (some a)
  | e :: es, a, c =>
    ((e.rank? L m c).bind Value.grade?).bind fun b =>
      (k.add? a b).elim (some none) fun a => tally? L m k es a c

/-- The value of the first switch case that matches, and otherwise that of the default. -/
def caseRank? (L : Library) (m : Bool) (i : Option Item) (default : Option Value) :
    List (Expr × Expr) → Context → Option Value
  | [], _ => default
  | (v, r) :: cs, c =>
    ((v.rank? L true c).bind Value.item?).bind fun j =>
      if matchesCase i j then r.rank? L m c else caseRank? L m i default cs c

/-- The value of the first case that admits the value of the operand. -/
def typeCaseRank? (L : Library) (m : Bool) (v : Value) :
    List (CaseHead × Expr) → Context → Option Value
  | [], _ => none
  | (head, r) :: cs, c =>
    if head.admits v then r.rank? L m (head.bind v c) else typeCaseRank? L m v cs c

/-- The values of arguments; a function is given their scores. -/
def argRanks? (L : Library) : List Expr → Context → Option (List Value)
  | [], _ => some []
  | e :: es, c => (e.rank? L false c).bind fun v => (argRanks? L es c).map (v :: ·)

end

/-- The truth of an expression with its score. -/
def Expr.grade? (L : Library) (m : Bool) (e : Expr) (c : Context) : Option Truth :=
  (e.rank? L m c).bind Value.grade?

/-- What one expression yields, the other one yields, too. -/
def Upholds (L : Library) (m : Bool) (e : Expr) (c : Context) (d : Expr) (c' : Context) : Prop :=
  ∀ v, e.rank? L m c = some v → d.rank? L m c' = some v

section
variable {L : Library} {m : Bool} {k : Connective} {c c' : Context}

/-! ## One node after the other -/

theorem rank?_connective (es : List Expr) (s : Span) :
    (Expr.connective k es s).rank? L m c =
      (tally? L m k es k.start c).map fun o => .ofTruth (k.outcome o) := rfl

theorem rank?_switch (e d : Expr) (cs : List (Expr × Expr)) (s : Span) :
    (Expr.switch e cs d s).rank? L m c = (e.rank? L true c).bind fun v =>
      v.item?.bind fun i => caseRank? L m i (d.rank? L m c) cs c := rfl

theorem rank?_typeswitch (e : Expr) (cs : List (CaseHead × Expr)) (s : Span) :
    (Expr.typeswitch e cs s).rank? L m c =
      (e.rank? L false c).bind fun v => typeCaseRank? L m v cs c := rfl

theorem rank?_cast (e : Expr) (t : SeqType) (s : Span) :
    (Expr.cast e t s).rank? L m c = (e.rank? L true c).bind fun v => v.cast? t := rfl

theorem rank?_compare (op : CompareOp) (l r : Expr) (s : Span) :
    (Expr.compare op l r s).rank? L m c = (l.rank? L true c).bind fun v =>
      (r.rank? L true c).bind fun w => (v.compare? op w).map .ofBool := rfl

theorem rank?_range (b : Bounds) (e : Expr) (s : Span) :
    (Expr.range b e s).rank? L m c =
      (e.rank? L true c).bind fun v => (b.test? v).map .ofBool := rfl

theorem rank?_external (fn : ExternalFn) (es : List Expr) (t : Bool) (s : Span) :
    (Expr.external fn es t s).rank? L m c =
      ((argRanks? L es c).bind (L fn.name)).map (·.kept m) := rfl

theorem grade?_connective (es : List Expr) (s : Span) :
    (Expr.connective k es s).grade? L m c = (tally? L m k es k.start c).map k.outcome := by
  unfold Expr.grade?
  rw [rank?_connective]
  cases tally? L m k es k.start c <;> rfl

theorem rank?_boolean (e : Expr) (s : Span) :
    (Expr.call .boolean e s).rank? L m c = (e.grade? L m c).map .ofTruth := rfl

theorem grade?_boolean (e : Expr) (s : Span) :
    (Expr.call .boolean e s).grade? L m c = e.grade? L m c := by
  rw [Expr.grade?, rank?_boolean]
  cases e.grade? L m c <;> rfl

theorem rank?_not (e : Expr) (s : Span) :
    (Expr.call .not e s).rank? L m c = (e.grade? L true c).map fun b => .ofBool !b.value := by
  show ((e.rank? L true c).bind Value.test?).map _ = ((e.rank? L true c).bind Value.grade?).map _
  cases e.rank? L true c with
  | none => rfl
  | some v => simp only [Option.bind_some, Value.test?_eq, Option.map_map]; rfl

theorem grade?_not (e : Expr) (s : Span) :
    (Expr.call .not e s).grade? L m c = (e.grade? L true c).map fun b => .plain !b.value := by
  rw [Expr.grade?, rank?_not]
  cases e.grade? L true c <;> rfl

theorem tally?_cons (e : Expr) (es : List Expr) (a : Truth) :
    tally? L m k (e :: es) a c = (e.grade? L m c).bind fun b =>
      (k.add? a b).elim (some none) fun a => tally? L m k es a c := rfl

theorem caseRank?_cons {i : Option Item} {o : Option Value} (v r : Expr) (cs : List (Expr × Expr)) :
    caseRank? L m i o ((v, r) :: cs) c = ((v.rank? L true c).bind Value.item?).bind fun j =>
      if matchesCase i j then r.rank? L m c else caseRank? L m i o cs c := rfl

theorem typeCaseRank?_cons {v : Value} (head : CaseHead) (r : Expr)
    (cs : List (CaseHead × Expr)) :
    typeCaseRank? L m v ((head, r) :: cs) c =
      if head.admits v then r.rank? L m (head.bind v c) else typeCaseRank? L m v cs c := rfl

theorem argRanks?_cons (e : Expr) (es : List Expr) :
    argRanks? L (e :: es) c =
      (e.rank? L false c).bind fun v => (argRanks? L es c).map (v :: ·) := rfl

/-- Operands are added one after the other, as long as none decides. -/
theorem tally?_append (ds es : List Expr) (a : Truth) :
    tally? L m k (ds ++ es) a c = (tally? L m k ds a c).bind fun o =>
      o.elim (some none) fun a => tally? L m k es a c := by
  induction ds generalizing a with
  | nil => rfl
  | cons d ds ih =>
    rw [List.cons_append, tally?_cons, tally?_cons, Option.bind_assoc]
    congr 1
    funext b
    cases k.add? a b with
    | none => rfl
    | some a' => exact ih a'

/-! ## Lists of parts -/

theorem tally?_upholds {es ds : List Expr}
    (h : List.Forall₂ (fun e d => Upholds L m e c d c') es ds) {a : Truth} {o : Option Truth}
    (ho : tally? L m k es a c = some o) : tally? L m k ds a c' = some o := by
  induction h generalizing a with
  | nil => exact ho
  | cons he _ ih =>
    rw [tally?_cons] at ho ⊢
    obtain ⟨b, hb, ho⟩ := Option.bind_eq_some_iff.mp ho
    obtain ⟨v, hv, hb⟩ := Option.bind_eq_some_iff.mp hb
    rw [Expr.grade?, he v hv, Option.bind_some, hb, Option.bind_some]
    cases hk : k.add? a b with
    | none => rw [hk] at ho; exact ho
    | some a' => rw [hk] at ho; exact ih ho

theorem argRanks?_upholds {es ds : List Expr}
    (h : List.Forall₂ (fun e d => Upholds L false e c d c') es ds) {vs : List Value}
    (hvs : argRanks? L es c = some vs) : argRanks? L ds c' = some vs := by
  induction h generalizing vs with
  | nil => exact hvs
  | cons he _ ih =>
    rw [argRanks?_cons] at hvs ⊢
    obtain ⟨v, hv, hvs⟩ := Option.bind_eq_some_iff.mp hvs
    obtain ⟨ws, hws, rfl⟩ := Option.map_eq_some_iff.mp hvs
    rw [he v hv, Option.bind_some, ih hws, Option.map_some]

theorem caseRank?_upholds {i : Option Item} {o o' : Option Value} {cs ds : List (Expr × Expr)}
    (ho : ∀ v, o = some v → o' = some v)
    (h : List.Forall₂ (fun p q => Upholds L true p.1 c q.1 c' ∧ Upholds L m p.2 c q.2 c') cs ds)
    {v : Value} (hv : caseRank? L m i o cs c = some v) : caseRank? L m i o' ds c' = some v := by
  induction h with
  | nil => exact ho v hv
  | cons hp _ ih =>
    rw [caseRank?_cons] at hv ⊢
    obtain ⟨j, hj, hv⟩ := Option.bind_eq_some_iff.mp hv
    obtain ⟨w, hw, hj⟩ := Option.bind_eq_some_iff.mp hj
    rw [hp.1 w hw, Option.bind_some, hj, Option.bind_some]
    split at hv
    · rename_i hm; rw [if_pos hm]; exact hp.2 v hv
    · rename_i hm; rw [if_neg hm]; exact ih hv

theorem typeCaseRank?_upholds {v : Value} {cs ds : List (CaseHead × Expr)}
    (h : List.Forall₂ (fun p q => p.1.admits v = q.1.admits v ∧ (p.1.admits v = true →
      Upholds L m p.2 (p.1.bind v c) q.2 (q.1.bind v c'))) cs ds)
    {w : Value} (hw : typeCaseRank? L m v cs c = some w) :
    typeCaseRank? L m v ds c' = some w := by
  induction h with
  | nil => exact hw
  | cons hp _ ih =>
    rw [typeCaseRank?_cons] at hw ⊢
    split at hw
    · rename_i hadm; rw [if_pos (hp.1 ▸ hadm)]; exact hp.2 hadm w hw
    · rename_i hadm; rw [if_neg (hp.1 ▸ hadm)]; exact ih hw

/-! ## Nodes -/

namespace Upholds

theorem refl (e : Expr) : Upholds L m e c e c := fun _ h => h

theorem connective {es ds : List Expr} {s s' : Span}
    (h : List.Forall₂ (fun e d => Upholds L m e c d c') es ds) :
    Upholds L m (.connective k es s) c (.connective k ds s') c' := by
  intro v hv
  rw [rank?_connective] at hv ⊢
  obtain ⟨o, ho, rfl⟩ := Option.map_eq_some_iff.mp hv
  rw [tally?_upholds h ho, Option.map_some]

theorem switch {e d o o' : Expr} {cs ds : List (Expr × Expr)} {s s' : Span}
    (he : Upholds L true e c d c')
    (hcs : List.Forall₂ (fun p q => Upholds L true p.1 c q.1 c' ∧ Upholds L m p.2 c q.2 c') cs ds)
    (ho : Upholds L m o c o' c') : Upholds L m (.switch e cs o s) c (.switch d ds o' s') c' := by
  intro v hv
  rw [rank?_switch] at hv ⊢
  obtain ⟨w, hw, hv⟩ := Option.bind_eq_some_iff.mp hv
  obtain ⟨i, hi, hv⟩ := Option.bind_eq_some_iff.mp hv
  rw [he w hw, Option.bind_some, hi, Option.bind_some]
  exact caseRank?_upholds ho hcs hv

theorem typeswitch {e d : Expr} {cs ds : List (CaseHead × Expr)} {s s' : Span}
    (he : Upholds L false e c d c')
    (hcs : ∀ v, e.rank? L false c = some v → List.Forall₂ (fun p q =>
      p.1.admits v = q.1.admits v ∧ (p.1.admits v = true →
        Upholds L m p.2 (p.1.bind v c) q.2 (q.1.bind v c'))) cs ds) :
    Upholds L m (.typeswitch e cs s) c (.typeswitch d ds s') c' := by
  intro v hv
  rw [rank?_typeswitch] at hv ⊢
  obtain ⟨w, hw, hv⟩ := Option.bind_eq_some_iff.mp hv
  rw [he w hw, Option.bind_some]
  exact typeCaseRank?_upholds (hcs w hw) hv

theorem cast {e d : Expr} {t : SeqType} {s s' : Span} (he : Upholds L true e c d c') :
    Upholds L m (.cast e t s) c (.cast d t s') c' := by
  intro v hv
  rw [rank?_cast] at hv ⊢
  obtain ⟨w, hw, hv⟩ := Option.bind_eq_some_iff.mp hv
  rw [he w hw, Option.bind_some, hv]

theorem grade {e d : Expr} (he : Upholds L m e c d c') {b : Truth}
    (hb : e.grade? L m c = some b) : d.grade? L m c' = some b := by
  obtain ⟨v, hv, hb⟩ := Option.bind_eq_some_iff.mp hb
  rw [Expr.grade?, he v hv, Option.bind_some, hb]

theorem boolean {e d : Expr} {s s' : Span} (he : Upholds L m e c d c') :
    Upholds L m (.call .boolean e s) c (.call .boolean d s') c' := by
  intro v hv
  rw [rank?_boolean] at hv ⊢
  obtain ⟨b, hb, rfl⟩ := Option.map_eq_some_iff.mp hv
  rw [he.grade hb, Option.map_some]

theorem not {e d : Expr} {s s' : Span} (he : Upholds L true e c d c') :
    Upholds L m (.call .not e s) c (.call .not d s') c' := by
  intro v hv
  rw [rank?_not] at hv ⊢
  obtain ⟨b, hb, rfl⟩ := Option.map_eq_some_iff.mp hv
  rw [he.grade hb, Option.map_some]

theorem compare {op : CompareOp} {l l' r r' : Expr} {s s' : Span} (hl : Upholds L true l c l' c')
    (hr : Upholds L true r c r' c') :
    Upholds L m (.compare op l r s) c (.compare op l' r' s') c' := by
  intro v hv
  rw [rank?_compare] at hv ⊢
  obtain ⟨w, hw, hv⟩ := Option.bind_eq_some_iff.mp hv
  obtain ⟨u, hu, hv⟩ := Option.bind_eq_some_iff.mp hv
  rw [hl w hw, Option.bind_some, hr u hu, Option.bind_some, hv]

theorem range {b b' : Bounds} {e d : Expr} {s s' : Span} (hb : ∀ v, b.test? v = b'.test? v)
    (he : Upholds L true e c d c') : Upholds L m (.range b e s) c (.range b' d s') c' := by
  intro v hv
  rw [rank?_range] at hv ⊢
  obtain ⟨w, hw, hv⟩ := Option.bind_eq_some_iff.mp hv
  rw [he w hw, Option.bind_some, ← hb, hv]

theorem external {fn fn' : ExternalFn} {es ds : List Expr} {t t' : Bool} {s s' : Span}
    (hfn : fn.name = fn'.name) (h : List.Forall₂ (fun e d => Upholds L false e c d c') es ds) :
    Upholds L m (.external fn es t s) c (.external fn' ds t' s') c' := by
  intro v hv
  rw [rank?_external] at hv ⊢
  obtain ⟨w, hw, rfl⟩ := Option.map_eq_some_iff.mp hv
  obtain ⟨vs, hvs, hw⟩ := Option.bind_eq_some_iff.mp hw
  rw [argRanks?_upholds h hvs, Option.bind_some, ← hfn, hw, Option.map_some]

/-- Every kind of node upholds what its parts do. -/
theorem compatible (L : Library) :
    Compatible (Upholds L) fun e c v => e.rank? L false c = some v where
  refl := refl _
  connective := connective
  switch := switch
  typeswitch := typeswitch
  cast := cast
  boolean := boolean
  not := not
  compare := compare
  range := range
  position hf v hv := by rwa [Expr.rank?, ← hf]
  literal _ hv := hv
  var hx v hv := by rwa [Expr.rank?, ← hx]
  external := external
  failing _ hv := by cases hv

end Upholds

/-! ## One part -/

/-- The contexts in which the part in a place is evaluated, where the node is evaluated in one. -/
def Frame.Meets (L : Library) (F : Frame) (c : Context) : Context → Prop :=
  match F with
  | .typeResult o _ head _ _ => fun c' =>
    ∃ v, o.rank? L false c = some v ∧ head.admits v = true ∧ c' = head.bind v c
  | _ => fun c' => c' = c

/-- What upholds a part upholds the node. -/
theorem Upholds.plug {F : Frame} {e d : Expr}
    (h : ∀ c', F.Meets L c c' → Upholds L (F.mutes m) e c' d c') :
    Upholds L m (F.plug e) c (F.plug d) c := by
  refine (compatible L).plug fun c' hc' => h c' ?_
  cases F <;> exact hc'

/-- A node yields nothing if what is evaluated first yields nothing. -/
theorem Frame.rank?_first {F : Frame} (hF : F.IsFirst) {e : Expr}
    (he : e.rank? L (F.mutes m) c = none) : (F.plug e).rank? L m c = none := by
  cases F with
  | operand k ds fs span =>
    obtain rfl : ds = [] := hF
    have he : e.rank? L m c = none := he
    simp [Frame.plug, Expr.rank?, tally?, he]
  | argument fn ds fs tail span =>
    obtain rfl : ds = [] := hF
    have he : e.rank? L false c = none := he
    simp [Frame.plug, Expr.rank?, argRanks?, he]
  | callArgument fn span =>
    cases fn <;> simp only [Frame.mutes] at he <;> simp [Frame.plug, Expr.rank?, he]
  | caseValue | caseResult | switchDefault | typeResult | right => exact hF.elim
  | _ => simp only [Frame.mutes] at he; simp [Frame.plug, Expr.rank?, he]

/-! ## Contexts and equal expressions -/

namespace Upholds

/-- What an expression yields does not depend on a variable that it does not refer to. -/
theorem agree {x : Var} {e : Expr} (he : e.Avoids x) (h : c.AgreeOff x c') :
    Upholds L m e c e c' :=
  (compatible L).agree he h

/-- Of two structurally equal expressions of plain literals one yields what the other yields. -/
theorem same {V : Vocabulary} (hV : ∀ {v}, V.value v → v.Plain) {e d : Expr} (he : e.Over V)
    (hd : d.Over V) (h : e.same d = true) : Upholds L m e c d c :=
  (compatible L).of_same (fun hv hw h => Value.eq_of_same (hV hv) (hV hw) h) he hd h

end Upholds

end

end QueryExpr
