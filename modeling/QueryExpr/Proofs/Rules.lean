import QueryExpr.Proofs.Normal
import QueryExpr.Proofs.Outcome

/-!
# QueryExpr.Proofs.Rules

The rules of compilation as a relation between an expression and what becomes of it: another
expression or a compile error.

* `OperandRule` — a rule inside the operands of a connective.
* `Rule`        — a rule at the root of an expression.
* `Rewrites`    — rules applied anywhere, in any order. Known values stand for variables, an error
  in what is evaluated first is an error of the whole, and any other error may be parked.

Compilation and substitution take such steps only. So a property that all steps share is a
property of compilation, whatever the order in which the rules are tried.
-/

namespace QueryExpr

/-! ## Rules -/

/-- A rule inside the operands of a connective. -/
inductive OperandRule (c : Connective) (span : Span) : List Expr → List Expr → Prop where
  | unwrap {ds fs : List Expr} {e : Expr} {s : Span} :
      OperandRule c span (ds ++ .call .boolean e s :: fs) (ds ++ e :: fs)
  | splice {ds es fs : List Expr} {s : Span} :
      OperandRule c span (ds ++ .connective c es s :: fs) (ds ++ es ++ fs)
  | neutral {ds fs : List Expr} {v : Value} {b : Truth} :
      v.ebv span = .ok b → b.value = !c.absorbing →
      OperandRule c span (ds ++ .literal v :: fs) (ds ++ fs)
  | decided {ds fs : List Expr} {v : Value} {b : Truth} :
      v.ebv span = .ok b → b.value = c.absorbing →
      OperandRule c span (ds ++ .literal v :: fs) (ds ++ [.ofBool c.absorbing])
  | undefined {ds fs : List Expr} {v : Value} {t : EvalError} :
      v.ebv span = .error t →
      OperandRule c span (ds ++ .literal v :: fs) (ds ++ [.failing (.eval t) v.type span])
  | unreached {ds fs : List Expr} {t : CompileError} {type : SeqType} {s : Span} :
      OperandRule c span (ds ++ .failing t type s :: fs) (ds ++ [.failing t type s])
  | duplicate {ds fs : List Expr} {d e : Expr} :
      e.isRandom = false → d ∈ ds → e.same d = true →
      OperandRule c span (ds ++ e :: fs) (ds ++ fs)
  | merged {ds fs : List Expr} {d e : Expr} {m : Noted Expr} :
      d.AtRest → e.AtRest → d.merge? c e = some m →
      OperandRule c span (ds ++ d :: e :: fs) (ds ++ m.value :: fs)

/-- A rule at the root of an expression. -/
inductive Rule (checks : Checks) : Expr → Except CompileError Expr → Prop where
  | operands {c : Connective} {es fs : List Expr} {span : Span} :
      OperandRule c span es fs → Rule checks (.connective c es span) (.ok (.connective c fs span))
  | undefinedFirst {c : Connective} {v : Value} {fs : List Expr} {span : Span} {t : EvalError} :
      v.ebv span = .error t → Rule checks (.connective c (.literal v :: fs) span) (.error (.eval t))
  | noOperand {c : Connective} {span : Span} :
      Rule checks (.connective c [] span) (.ok (.ofBool !c.absorbing))
  | decidedOperand {c : Connective} {span : Span} :
      Rule checks (.connective c [.ofBool c.absorbing] span) (.ok (.ofBool c.absorbing))
  | singleOperand {c : Connective} {e : Expr} {span : Span} :
      Rule checks (.connective c [e] span) (.ok (.call .boolean e span))
  | negations {c : Connective} {es args : List Expr} {span : Span} :
      es ≠ [] → negated? es = some args →
      Rule checks (.connective c es span)
        (.ok (.call .not (.connective c.opposite args span) span))
  | core {fn : Builtin} {e : Expr} {s span : Span} :
      Rule checks (.call fn (.call .boolean e s) span) (.ok (.call fn e span))
  | undefinedArgument {fn : Builtin} {v : Value} {span : Span} {t : EvalError} :
      v.ebv span = .error t → Rule checks (.call fn (.literal v) span) (.error (.eval t))
  | booleanLiteral {v : Value} {span : Span} {b : Truth} :
      v.ebv span = .ok b →
      Rule checks (.call .boolean (.literal v) span) (.ok (.literal (.ofTruth b)))
  | notLiteral {v : Value} {span : Span} {b : Truth} :
      v.ebv span = .ok b → Rule checks (.call .not (.literal v) span) (.ok (.ofBool !b.value))
  | isBoolean {e : Expr} {span : Span} :
      e.type = .booleanOne → Rule checks (.call .boolean e span) (.ok e)
  | doubleNegation {e : Expr} {s span : Span} :
      Rule checks (.call .not (.call .not e s) span) (.ok (.call .boolean e span))
  | castTarget {e : Expr} {t : SeqType} {span : Span} :
      t.isCastTarget = false → Rule checks (.cast e t span) (.error (.invalidCastTarget t span))
  | castLong {e : Expr} {t : SeqType} {span : Span} :
      1 < e.type.occurs.min →
      Rule checks (.cast e t span)
        (.error (.typeMismatch (Atom.anyAtomic.name ++ "?") e.type.text span))
  | castLiteral {v w : Value} {t : SeqType} {span : Span} :
      v.cast t span = .ok w → Rule checks (.cast (.literal v) t span) (.ok (.literal w))
  | castFails {v : Value} {t : SeqType} {span : Span} {cause : EvalError} :
      v.cast t span = .error cause → Rule checks (.cast (.literal v) t span) (.error (.eval cause))
  | castVoid {e : Expr} {t : SeqType} {span : Span} :
      castIsVoid e.type t = true → Rule checks (.cast e t span) (.ok e)
  | compareLiterals {op : CompareOp} {v w : Value} {span : Span} {b : Bool} :
      v.compare op span w = .ok b →
      Rule checks (.compare op (.literal v) (.literal w) span) (.ok (.ofBool b))
  | compareFails {op : CompareOp} {v w : Value} {span : Span} {t : EvalError} :
      v.compare op span w = .error t →
      Rule checks (.compare op (.literal v) (.literal w) span) (.error (.eval t))
  | rangeEmpty {b : Bounds} {e : Expr} {span : Span} :
      b.isEmpty = true → Rule checks (.range b e span) (.ok (.ofBool false))
  | rangeLiteral {b : Bounds} {v : Value} {span : Span} {a : Bool} :
      b.test span v = .ok a → Rule checks (.range b (.literal v) span) (.ok (.ofBool a))
  | rangeFails {b : Bounds} {v : Value} {span : Span} {t : EvalError} :
      b.test span v = .error t → Rule checks (.range b (.literal v) span) (.error (.eval t))
  | positionConstant {min max : Int64} {span : Span} {b : Bool} :
      positionConstant? min max = some b → Rule checks (.position min max span) (.ok (.ofBool b))
  | switchLong {v : Value} {cs : List (Expr × Expr)} {d : Expr} {span : Span} {t : EvalError} :
      v.single? span = .error t → Rule checks (.switch (.literal v) cs d span) (.error (.eval t))
  | switchFails {v : Value} {i : Option Item} {cs : List (Expr × Expr)} {d : Expr} {span : Span}
      {t : EvalError} :
      v.single? span = .ok i → chooseCase i span cs = .error t →
      Rule checks (.switch (.literal v) cs d span) (.error (.eval t))
  | switchDefault {v : Value} {i : Option Item} {cs : List (Expr × Expr)} {d : Expr}
      {span : Span} :
      v.single? span = .ok i → chooseCase i span cs = .ok .fallback →
      Rule checks (.switch (.literal v) cs d span) (.ok d)
  | switchBranch {v : Value} {i : Option Item} {cs : List (Expr × Expr)} {d r : Expr}
      {span : Span} :
      v.single? span = .ok i → chooseCase i span cs = .ok (.branch r) →
      Rule checks (.switch (.literal v) cs d span) (.ok r)
  | noDefault {e : Expr} {cs : List (CaseHead × Expr)} {span : Span} :
      endsInDefault cs = false →
      Rule checks (.typeswitch e cs span) (.error (.missingDefaultCase span))
  | vacuous {e : Expr} {cs : List (CaseHead × Expr)} {span : Span} :
      (∀ p ∈ cs, p.2.isVacuous = true) → e.isRandom = false →
      Rule checks (.typeswitch e cs span) (.ok (.literal []))
  | typeCase {v : Value} {cs : List (CaseHead × Expr)} {span : Span} {head : CaseHead} {r : Expr} :
      cs.find? (fun c => c.1.admits v) = some (head, r) → head.var = none →
      Rule checks (.typeswitch (.literal v) cs span) (.ok r)
  | rejected {fn : ExternalFn} {es : List Expr} {tail : Bool} {span : Span} {t : CompileError} :
      checks fn es span = .error t → Rule checks (.external fn es tail span) (.error t)

/-! ## Places -/

/-- A place for one part of a node, with all other parts of the node. -/
inductive Frame where
  | operand (c : Connective) (ds fs : List Expr) (span : Span)
  | switchOperand (cs : List (Expr × Expr)) (d : Expr) (span : Span)
  | caseValue (e : Expr) (bs : List (Expr × Expr)) (r : Expr) (cs : List (Expr × Expr)) (d : Expr)
      (span : Span)
  | caseResult (e : Expr) (bs : List (Expr × Expr)) (v : Expr) (cs : List (Expr × Expr)) (d : Expr)
      (span : Span)
  | switchDefault (e : Expr) (cs : List (Expr × Expr)) (span : Span)
  | typeOperand (cs : List (CaseHead × Expr)) (span : Span)
  | typeResult (e : Expr) (bs : List (CaseHead × Expr)) (head : CaseHead)
      (cs : List (CaseHead × Expr)) (span : Span)
  | castOperand (t : SeqType) (span : Span)
  | callArgument (fn : Builtin) (span : Span)
  | left (op : CompareOp) (r : Expr) (span : Span)
  | right (op : CompareOp) (l : Expr) (span : Span)
  | rangeOperand (b : Bounds) (span : Span)
  | argument (fn : ExternalFn) (ds fs : List Expr) (tail : Bool) (span : Span)

namespace Frame

/-- The node with a part in the place. -/
def plug : Frame → Expr → Expr
  | .operand c ds fs span, e => .connective c (ds ++ e :: fs) span
  | .switchOperand cs d span, e => .switch e cs d span
  | .caseValue o bs r cs d span, e => .switch o (bs ++ (e, r) :: cs) d span
  | .caseResult o bs v cs d span, e => .switch o (bs ++ (v, e) :: cs) d span
  | .switchDefault o cs span, e => .switch o cs e span
  | .typeOperand cs span, e => .typeswitch e cs span
  | .typeResult o bs head cs span, e => .typeswitch o (bs ++ (head, e) :: cs) span
  | .castOperand t span, e => .cast e t span
  | .callArgument fn span, e => .call fn e span
  | .left op r span, e => .compare op e r span
  | .right op l span, e => .compare op l e span
  | .rangeOperand b span, e => .range b e span
  | .argument fn ds fs tail span, e => .external fn (ds ++ e :: fs) tail span

/-- The part in the place is what is evaluated first. -/
def IsFirst : Frame → Prop
  | .operand _ ds _ _ => ds = []
  | .switchOperand _ _ _ => True
  | .caseValue _ _ _ _ _ _ => False
  | .caseResult _ _ _ _ _ _ => False
  | .switchDefault _ _ _ => False
  | .typeOperand _ _ => True
  | .typeResult _ _ _ _ _ => False
  | .castOperand _ _ => True
  | .callArgument _ _ => True
  | .left _ _ _ => True
  | .right _ _ _ => False
  | .rangeOperand _ _ => True
  | .argument _ ds _ _ _ => ds = []

/-- The variable that the node binds for the part in the place. -/
def binds : Frame → Option Var
  | .typeResult _ _ head _ _ => head.var
  | _ => none

theorem mem_children (F : Frame) (e : Expr) : e ∈ (F.plug e).children := by
  cases F <;> simp [plug, Expr.children]

/-- A part in the place of another is the only new part of the node. -/
theorem mem_children_plug {F : Frame} {e e' d : Expr} (hd : d ∈ (F.plug e').children) :
    d = e' ∨ d ∈ (F.plug e).children := by
  cases F <;> simp [plug, Expr.children] at hd ⊢ <;> grind

/-- Every part of a node has a place. -/
theorem exists_plug {e d : Expr} (hd : d ∈ e.children) : ∃ F : Frame, e = F.plug d := by
  cases e with
  | connective c es span =>
    obtain ⟨ds, fs, rfl⟩ := List.append_of_mem hd
    exact ⟨.operand c ds fs span, rfl⟩
  | switch e cs o span =>
    simp only [Expr.children, List.mem_append, List.mem_cons, List.mem_flatMap, List.not_mem_nil,
      or_false] at hd
    rcases hd with (rfl | ⟨⟨v, r⟩, hp, rfl | rfl⟩) | rfl
    · exact ⟨.switchOperand cs o span, rfl⟩
    · obtain ⟨bs, ds, rfl⟩ := List.append_of_mem hp
      exact ⟨.caseValue e bs r ds o span, rfl⟩
    · obtain ⟨bs, ds, rfl⟩ := List.append_of_mem hp
      exact ⟨.caseResult e bs v ds o span, rfl⟩
    · exact ⟨.switchDefault e cs span, rfl⟩
  | typeswitch e cs span =>
    simp only [Expr.children, List.mem_cons, List.mem_map] at hd
    rcases hd with rfl | ⟨⟨head, r⟩, hp, rfl⟩
    · exact ⟨.typeOperand cs span, rfl⟩
    · obtain ⟨bs, ds, rfl⟩ := List.append_of_mem hp
      exact ⟨.typeResult e bs head ds span, rfl⟩
  | cast e t span => exact ⟨.castOperand t span, by rw [List.mem_singleton.mp hd]; rfl⟩
  | call fn e span => exact ⟨.callArgument fn span, by rw [List.mem_singleton.mp hd]; rfl⟩
  | compare op l r span =>
    simp only [Expr.children, List.mem_cons, List.not_mem_nil, or_false] at hd
    rcases hd with rfl | rfl
    · exact ⟨.left op r span, rfl⟩
    · exact ⟨.right op l span, rfl⟩
  | range b e span => exact ⟨.rangeOperand b span, by rw [List.mem_singleton.mp hd]; rfl⟩
  | external fn es tail span =>
    obtain ⟨ds, fs, rfl⟩ := List.append_of_mem hd
    exact ⟨.argument fn ds fs tail span, rfl⟩
  | _ => cases hd

section
variable {q : Expr → Prop} {F : Frame} {e e' : Expr}

theorem every_plug (h : (F.plug e).Every q) : e.Every q :=
  (Expr.every_iff.mp h).2 e (F.mem_children e)

/-- What all nodes have is not lost with another part, unless the node itself loses it. -/
theorem every_replace (h : (F.plug e).Every q) (hn : q (F.plug e')) (he' : e'.Every q) :
    (F.plug e').Every q := by
  refine Expr.every_iff.mpr ⟨hn, fun d hd => ?_⟩
  rcases mem_children_plug hd with rfl | hd
  · exact he'
  · exact (Expr.every_iff.mp h).2 d hd

end

end Frame

/-! ## Rewriting -/

/-- A node refers to a variable. -/
def Expr.RefersTo (x : Var) : Expr → Prop
  | .var y _ => y.same x = true
  | _ => False

/-- No node of an expression refers to a variable. -/
def Expr.Avoids (x : Var) (e : Expr) : Prop := e.Every fun n => ¬ n.RefersTo x

/-- Values that stand for variables. -/
abbrev Known := List (Var × Value)

/-- What may become of an expression by rules at its nodes. -/
inductive Rewrites (checks : Checks) : Known → Expr → Except CompileError Expr → Prop where
  | refl {K : Known} {e : Expr} : Rewrites checks K e (.ok e)
  | trans {K : Known} {e e' : Expr} {r : Except CompileError Expr} :
      Rewrites checks K e (.ok e') → Rewrites checks K e' r → Rewrites checks K e r
  | rule {K : Known} {e : Expr} {r : Except CompileError Expr} :
      Rule checks e r → Rewrites checks K e r
  | inside {K : Known} {e e' : Expr} (F : Frame) :
      Rewrites checks K e (.ok e') → Rewrites checks K (F.plug e) (.ok (F.plug e'))
  | first {K : Known} {e : Expr} {t : CompileError} (F : Frame) :
      F.IsFirst → Rewrites checks K e (.error t) → Rewrites checks K (F.plug e) (.error t)
  | park {K : Known} {e : Expr} {t : CompileError} :
      Rewrites checks K e (.error t) → Rewrites checks K e (.ok (.failing t e.type e.span))
  | known {K : Known} {x y : Var} {v : Value} {span : Span} :
      (x, v) ∈ K → y.same x = true → Rewrites checks K (.var y span) (.ok (.literal v))
  | bound {K : Known} {v : Value} {cs : List (CaseHead × Expr)} {span : Span} {head : CaseHead}
      {x : Var} {r r' : Expr} :
      cs.find? (fun c => c.1.admits v) = some (head, r) → head.var = some x →
      Rewrites checks ((x, v) :: K) r (.ok r') → r'.Avoids x →
      Rewrites checks K (.typeswitch (.literal v) cs span) (.ok r')
  | boundFails {K : Known} {v : Value} {cs : List (CaseHead × Expr)} {span : Span}
      {head : CaseHead} {x : Var} {r : Expr} {t : CompileError} :
      cs.find? (fun c => c.1.admits v) = some (head, r) → head.var = some x →
      Rewrites checks ((x, v) :: K) r (.error t) →
      Rewrites checks K (.typeswitch (.literal v) cs span) (.error t)

/-! ## Rewriting several parts -/

/-- A node over a list of parts that are evaluated from left to right. -/
def IsRow (mk : List Expr → Expr) : Prop :=
  ∀ ds fs, ∃ F : Frame, (∀ e, F.plug e = mk (ds ++ e :: fs)) ∧ (ds = [] → F.IsFirst)

theorem isRow_connective (c : Connective) (span : Span) : IsRow fun es => .connective c es span :=
  fun ds fs => ⟨.operand c ds fs span, fun _ => rfl, id⟩

theorem isRow_external (fn : ExternalFn) (tail : Bool) (span : Span) :
    IsRow fun es => .external fn es tail span :=
  fun ds fs => ⟨.argument fn ds fs tail span, fun _ => rfl, id⟩

namespace Rewrites

section
variable {checks : Checks} {K : Known} {f : Expr → Expr}

theorem parked {e : Expr} {r : Except CompileError Expr} (h : Rewrites checks K e r) :
    Rewrites checks K e (.ok (parkedAs e r)) := by
  cases r with
  | ok e' => exact h
  | error t => exact .park h

theorem row {mk : List Expr → Expr} (hmk : IsRow mk) {es : List Expr}
    (hes : ∀ e ∈ es, Rewrites checks K e (.ok (f e))) (ds : List Expr) :
    Rewrites checks K (mk (ds ++ es)) (.ok (mk (ds ++ es.map f))) := by
  induction es generalizing ds with
  | nil => exact .refl
  | cons e es ih =>
    obtain ⟨he, hes⟩ := List.forall_mem_cons.mp hes
    obtain ⟨F, hF, _⟩ := hmk ds es
    have h := Rewrites.inside F he
    rw [hF, hF] at h
    have h' := ih hes (ds ++ [f e])
    simp only [List.append_assoc, List.singleton_append] at h'
    exact .trans h h'

theorem rowFails {mk : List Expr → Expr} (hmk : IsRow mk) {e : Expr} {es : List Expr}
    {t : CompileError} (he : Rewrites checks K e (.error t)) :
    Rewrites checks K (mk (e :: es)) (.error t) := by
  obtain ⟨F, hF, hfirst⟩ := hmk [] es
  have h := Rewrites.first F (hfirst rfl) he
  rw [hF] at h
  exact h

theorem cases {o d : Expr} {cs : List (Expr × Expr)} {span : Span}
    (hcs : ∀ p ∈ cs, Rewrites checks K p.1 (.ok (f p.1)) ∧ Rewrites checks K p.2 (.ok (f p.2)))
    (bs : List (Expr × Expr)) :
    Rewrites checks K (.switch o (bs ++ cs) d span)
      (.ok (.switch o (bs ++ cs.map fun p => (f p.1, f p.2)) d span)) := by
  induction cs generalizing bs with
  | nil => exact .refl
  | cons p cs ih =>
    obtain ⟨v, r⟩ := p
    obtain ⟨⟨hv, hr⟩, hcs⟩ := List.forall_mem_cons.mp hcs
    have h₁ := Rewrites.inside (.caseValue o bs r cs d span) hv
    have h₂ := Rewrites.inside (.caseResult o bs (f v) cs d span) hr
    have h₃ := ih hcs (bs ++ [(f v, f r)])
    simp only [List.append_assoc, List.singleton_append] at h₃
    exact .trans h₁ (.trans h₂ h₃)

theorem typeCases {o : Expr} {cs : List (CaseHead × Expr)} {span : Span}
    (hcs : ∀ p ∈ cs, Rewrites checks K p.2 (.ok (f p.2))) (bs : List (CaseHead × Expr)) :
    Rewrites checks K (.typeswitch o (bs ++ cs) span)
      (.ok (.typeswitch o (bs ++ cs.map fun p => (p.1, f p.2)) span)) := by
  induction cs generalizing bs with
  | nil => exact .refl
  | cons p cs ih =>
    obtain ⟨head, r⟩ := p
    obtain ⟨hr, hcs⟩ := List.forall_mem_cons.mp hcs
    have h₁ := Rewrites.inside (.typeResult o bs head cs span) hr
    have h₂ := ih hcs (bs ++ [(head, f r)])
    simp only [List.append_assoc, List.singleton_append] at h₂
    exact .trans h₁ h₂

end

end Rewrites

end QueryExpr
