import QueryExpr.Proofs.Rules
import QueryExpr.Proofs.Same

/-!
# QueryExpr.Proofs.Sources

Where the scores of an expression come from, and which of them rewriting may take for one.

* `Expr.Carries`  — the parts whose scores reach the value of an expression.
* `Expr.Silent`   — no such part is a variable or a call that may yield a score.
* `Expr.Becomes`  — what rewriting may put in the place of an operand of a connective.
* `Distinct`      — two operands none of which may become a scored duplicate of the other.
-/

namespace QueryExpr

/-! ## Sources -/

/-- The variables, by number, and the functions, by name, that may yield scored booleans; and the
variables that cases bind, for which values may be put. -/
structure Scorers where
  var : Nat → Prop
  fn : String → Prop
  bound : Nat → Prop

namespace Expr

/-- A source of scores. -/
def IsSource (S : Scorers) : Expr → Prop
  | .var x _ => S.var x.id
  | .external fn _ _ _ => S.fn fn.name
  | _ => False

/-- The parts whose scores reach the value of a node. -/
def scoreParts : Expr → List Expr
  | .connective _ es _ => es
  | .switch _ cs d _ => d :: cs.map (·.2)
  | .typeswitch _ cs _ => cs.map (·.2)
  | .call .boolean e _ => [e]
  | _ => []

/-- The score of a part, however deep, reaches the value of an expression. -/
inductive Carries : Expr → Expr → Prop where
  | self (e : Expr) : Carries e e
  | part {e d s : Expr} : d ∈ e.scoreParts → Carries d s → Carries e s

/-- No source of a score reaches the value of an expression. -/
def Silent (S : Scorers) (e : Expr) : Prop := ∀ s, e.Carries s → ¬ s.IsSource S

end Expr

section
variable {S : Scorers} {checks : Checks} {k : Connective} {e e' d : Expr}

namespace Expr

theorem silent_iff : e.Silent S ↔ ¬ e.IsSource S ∧ ∀ d ∈ e.scoreParts, d.Silent S := by
  refine ⟨fun h => ⟨h e (.self e), fun d hd s hs => h s (.part hd hs)⟩, fun h s hs => ?_⟩
  cases hs with
  | self => exact h.1
  | part hd hs => exact h.2 _ hd s hs

theorem Silent.part (he : e.Silent S) (hd : d ∈ e.scoreParts) : d.Silent S :=
  (silent_iff.mp he).2 d hd

theorem silent_literal (v : Value) : (Expr.literal v).Silent S := silent_iff.mpr ⟨id, nofun⟩

theorem silent_failing (t : CompileError) (type : SeqType) (span : Span) :
    (Expr.failing t type span).Silent S :=
  silent_iff.mpr ⟨id, nofun⟩

theorem silent_not (e : Expr) (span : Span) : (Expr.call .not e span).Silent S :=
  silent_iff.mpr ⟨id, nofun⟩

theorem silent_boolean (he : e.Silent S) (span : Span) : (Expr.call .boolean e span).Silent S :=
  silent_iff.mpr ⟨id, List.forall_mem_singleton.mpr he⟩

/-! ## Equal expressions -/

theorem IsSource.same (h : e.same d = true) (he : e.IsSource S) : d.IsSource S := by
  cases e with
  | var x s =>
    cases d with
    | var y s' =>
      have hid : x.id = y.id := by simpa [Expr.same, Var.same] using h
      exact (congrArg S.var hid).mp he
    | _ => simp [Expr.same] at h
  | external fn es tail s =>
    cases d with
    | external fn' ds tail' s' =>
      simp only [Expr.same, Bool.and_eq_true, beq_iff_eq] at h
      exact (congrArg S.fn h.1).mp he
    | _ => simp [Expr.same] at h
  | _ => exact he.elim

theorem scoreParts_same (h : e.same d = true) :
    List.Forall₂ (fun x y => x.same y = true) e.scoreParts d.scoreParts := by
  cases e with
  | connective k es s =>
    cases d with
    | connective k' ds s' =>
      simp only [Expr.same, Bool.and_eq_true] at h
      exact sameList_forall₂ h.2 fun _ _ _ _ h => h
    | _ => simp [Expr.same] at h
  | switch e cs o s =>
    cases d with
    | switch d ds o' s' =>
      simp only [Expr.same, Bool.and_eq_true] at h
      refine .cons h.2 (List.forall₂_map_left_iff.mpr (List.forall₂_map_right_iff.mpr ?_))
      exact sameCases_forall₂ h.1.2 fun _ _ _ _ _ h => h
    | _ => simp [Expr.same] at h
  | typeswitch e cs s =>
    cases d with
    | typeswitch d ds s' =>
      simp only [Expr.same, Bool.and_eq_true] at h
      refine List.forall₂_map_left_iff.mpr (List.forall₂_map_right_iff.mpr ?_)
      exact sameTypeCases_forall₂ h.2 fun _ _ _ _ _ h => h
    | _ => simp [Expr.same] at h
  | call fn e s =>
    cases d with
    | call fn' d s' =>
      simp only [Expr.same, Bool.and_eq_true, beq_iff_eq] at h
      obtain ⟨rfl, h⟩ := h
      cases fn with
      | not => exact .nil
      | boolean => exact .cons h .nil
    | _ => simp [Expr.same] at h
  | _ => cases d <;> first | exact .nil | simp [Expr.same] at h

/-- What is equal to an expression without a source has no source. -/
theorem Silent.same (h : e.same d = true) (hd : d.Silent S) : e.Silent S := by
  intro s hs hm
  induction hs generalizing d with
  | self => exact (silent_iff.mp hd).1 (hm.same h)
  | part hx _ ih =>
    obtain ⟨i, hi, rfl⟩ := List.getElem_of_mem hx
    have hparts := scoreParts_same h
    have hi' := hparts.length_eq ▸ hi
    exact ih (hparts.get hi hi') (hd.part (List.getElem_mem hi')) hm

end Expr

/-! ## What becomes of operands -/

/-- The known variables are among those that cases bind. -/
def Known.Within (S : Scorers) (K : Known) : Prop := ∀ p ∈ K, S.bound p.1.id

/-- What rewriting may put in the place of an operand of a connective: what the operand is rewritten
to, and the operands of that where it is a connective of the kind, or its argument where it is a
call of `boolean`. -/
inductive Expr.Becomes (checks : Checks) (S : Scorers) (k : Connective) : Expr → Expr → Prop where
  | refl (e : Expr) : Becomes checks S k e e
  | rewrites {K : Known} {e e' x : Expr} :
      K.Within S → Rewrites checks K e (.ok e') → Becomes checks S k e' x → Becomes checks S k e x
  | operand {es : List Expr} {span : Span} {e x : Expr} :
      e ∈ es → Becomes checks S k e x → Becomes checks S k (.connective k es span) x
  | argument {e x : Expr} {span : Span} :
      Becomes checks S k e x → Becomes checks S k (.call .boolean e span) x

/-- Two operands of a connective, the first of them before the other. Unless it is without a source
then, the second may not become a duplicate of the first that is dropped, nor, behind a scored first
one, a connective of the kind. -/
structure Distinct (checks : Checks) (S : Scorers) (k : Connective) (d e : Expr) : Prop where
  same : ∀ x y, d.Becomes checks S k x → e.Becomes checks S k y → y.isRandom = false →
    y.same x = true → y.Silent S
  flat : d.Silent S ∨ ∀ es span, e.Becomes checks S k (.connective k es span) →
    (Expr.connective k es span).Silent S

/-- All that an operand becomes, another one becomes, too, or it is without a source. -/
structure Follows (checks : Checks) (S : Scorers) (k : Connective) (e e' : Expr) : Prop where
  silent : e.Silent S → e'.Silent S
  becomes : ∀ x, e'.Becomes checks S k x → e.Becomes checks S k x ∨ x.Silent S

namespace Follows

theorem refl (e : Expr) : Follows checks S k e e := ⟨id, fun _ h => .inl h⟩

theorem operand {es : List Expr} (he : e ∈ es) (span : Span) :
    Follows checks S k (.connective k es span) e :=
  ⟨fun h => h.part he, fun _ h => .inl (.operand he h)⟩

theorem argument (e : Expr) (span : Span) : Follows checks S k (.call .boolean e span) e :=
  ⟨fun h => h.part (List.mem_singleton_self e), fun _ h => .inl (.argument h)⟩

end Follows

theorem Distinct.follow {d' : Expr} (h : Distinct checks S k d e) (hd : Follows checks S k d d')
    (he : Follows checks S k e e') : Distinct checks S k d' e' := by
  refine ⟨fun x y hx hy hr hs => ?_, h.flat.imp hd.silent fun h es span hc => ?_⟩
  · rcases he.becomes y hy with hy | hy
    · rcases hd.becomes x hx with hx | hx
      · exact h.same x y hx hy hr hs
      · exact hx.same hs
    · exact hy
  · exact (he.becomes _ hc).elim (h es span) id

/-! ## Blank expressions -/

/-- Literals, refused parts and tests, of which nothing else becomes. -/
def Expr.Blank : Expr → Prop
  | .literal _ => True
  | .failing _ _ _ => True
  | .position _ _ _ => True
  | .range _ _ _ => True
  | .compare _ _ _ _ => True
  | _ => False

theorem Expr.Blank.silent (h : e.Blank) : e.Silent S := by
  cases e <;> first | exact h.elim | exact silent_iff.mpr ⟨id, nofun⟩

theorem Rule.blank (h : Rule checks e (.ok e')) (he : e.Blank) : e'.Blank := by
  cases h <;> first | exact he.elim | trivial

theorem Rewrites.blank {K : Known} {r : Except CompileError Expr} (h : Rewrites checks K e r)
    (he : e.Blank) : ∀ e', r = .ok e' → e'.Blank := by
  induction h with
  | refl => intro e' hr; cases hr; exact he
  | trans _ _ ih₁ ih₂ => exact ih₂ (ih₁ he _ rfl)
  | rule h => intro e' hr; subst hr; exact h.blank he
  | inside F => intro e' hr; cases hr; cases F <;> first | exact he.elim | trivial
  | park => intro e' hr; cases hr; trivial
  | first => intro e' hr; cases hr
  | known => exact he.elim
  | bound => exact he.elim
  | boundFails => exact he.elim

theorem Expr.Becomes.blank {x : Expr} (h : e.Becomes checks S k x) (he : e.Blank) : x.Blank := by
  induction h with
  | refl => exact he
  | rewrites _ hr _ ih => exact ih (hr.blank he _ rfl)
  | operand => exact he.elim
  | argument => exact he.elim

theorem Follows.of_blank (h : e'.Blank) : Follows checks S k e e' :=
  ⟨fun _ => h.silent, fun _ hx => .inr (hx.blank h).silent⟩

end

end QueryExpr
