import QueryExpr.Proofs.NormalForm
import QueryExpr.Proofs.Preservation

/-!
# QueryExpr.Proofs.Substitution

What a compiled expression yields when a literal takes the place of a variable: what it yields with
the variable bound to the value.

* `Settled.counts`      — in compiled expressions there is no position test left to fold.
* `inline_substitutes`  — the substitution, where no case binds the variable once more.
* `inline_into_shadow`  — where a case does, its result gets the outer value.
-/

namespace QueryExpr

section
variable {checks : Checks} {L : Library} {D : Declarations} {c : Context}

theorem Expr.Settled.counts {e : Expr} (he : e.Settled) (c : Context) : c.Counts e := by
  refine .inr (Expr.Every.imp (fun n hn => ?_) he)
  cases n with
  | position a b span => exact hn
  | _ => trivial

/-- Substitution of a value in a settled expression is rewriting with the value known. -/
theorem inline_substituted {e : Expr} (he : e.Settled) (x : Var) (v : Value) :
    Substituted checks [] x v e (e.inline x (.literal v)).value :=
  inlineWith_substituted (substitute_works _) he (Nat.le_add_right _ _)

/-- With its variable bound, a value that may be known is known. -/
theorem Known.Holds.bind {e : Expr} {x : Var} (he : e.Over (.unshadowed x)) (v : Value) :
    Known.Holds [(x, v)] (c.bind x.id v) e := by
  refine ⟨fun p hp => ?_, fun p hp => ?_⟩
  · cases List.mem_singleton.mp hp
    exact .inr ((Context.lookup_bind c x.id x.id v).trans (if_pos rfl))
  · cases List.mem_singleton.mp hp
    exact he

/-- Substitution of a value for a variable that no case binds. If a compiled expression yields
something with the variable bound to the value, then the substitution succeeds, and without the
binding the outcome yields the same. -/
theorem inline_substitutes {σ : Type} {h : Host σ} (hh : h.Steady L) {ctx : CompileContext}
    {e₀ e : Expr} (hcomp : (ctx.compile checks e₀).1 = .ok e) (he : e.Over (.regular checks L D))
    {x : Var} (hfree : e.Over (.unshadowed x)) {v : Value} (hx : D.Binds x v) (hv : v.Plain)
    (hc : c.Declared D) {s s' : σ} {w : Value}
    (heval : e.eval h (c.bind x.id v) s = (.ok w, s')) (ctx' : CompileContext) :
    ∃ r, (ctx'.inline e x (.literal v)).1 = .ok r ∧
      ∀ s, ∃ s', r.value.eval h c s = (.ok w, s') := by
  have hset : e.Settled := Expr.compile_settled hcomp
  have hsub : Substituted checks [] x v e (e.inline x (.literal v)).value :=
    inline_substituted hset x v
  have hK : (Vocabulary.regular checks L D).Knows [(x, v)] := by
    intro p hp
    cases List.mem_singleton.mp hp
    exact ⟨hx, hv⟩
  have hbound := hc.bind hv hx
  have hvalue : e.value? L (c.bind x.id v) = some w :=
    Expr.value?_of_eval hh Vocabulary.scoped_yieldsPlain he.scoped hbound.plain heval
  have hyields {r : Except CompileError Expr} (hr : Rewrites checks [(x, v)] e r) :
      Yields L (c.bind x.id v) r w :=
    hr.yields hK he hbound (hset.counts _) (.bind hfree v) hvalue
  cases hr : (e.inline x (.literal v)).value with
  | error t =>
    obtain ⟨e', he', -⟩ := hyields (hsub.failed t hr)
    cases he'
  | ok r =>
    have hrev := hsub.revision r hr
    refine ⟨r, hr, fun s => ?_⟩
    obtain ⟨e', he', hw⟩ := hyields hrev.rewrites
    cases he'
    -- The variable is gone, so the binding may go, too.
    have hw' := Refines.agree hrev.avoids (Context.agreeOff_bind x v) w hw
    have ho := hrev.rewrites.over Vocabulary.regular_closed hK he r.value rfl
    exact Expr.eval_of_value? hh Vocabulary.scoped_yieldsPlain ho.scoped hc.plain hw' s

/-- The comparison of a variable with what a typeswitch binds to the result of a call. -/
def comparedResult : Expr :=
  let x : Var := ⟨0, "x", some (.one .integer)⟩
  let y : Var := ⟨1, "y", some (.one .integer)⟩
  .typeswitch (.external ⟨0, "five", .one .integer, true⟩ [.var x .unknown] false .unknown)
    [(⟨some y, some (.one .integer)⟩, .compare .eq (.var y .unknown) (.var x .unknown) .unknown),
      (⟨none, none⟩, .ofBool false)] .unknown

theorem comparedResult_over : comparedResult.Over (.regular (fun _ _ _ => .ok ())
    (fun _ _ => some [.integer 5]) fun _ => some (.one .integer)) := by
  have hfive : Value.Plain [.integer 5] := Value.plain_singleton.mpr trivial
  refine Expr.every_typeswitch.mpr
    ⟨⟨rfl, ?_⟩, Expr.every_external.mpr ⟨⟨fun _ _ => rfl, ?_⟩, ?_⟩, ?_⟩
  · refine List.forall_mem_cons.mpr ⟨fun z hz => ?_, List.forall_mem_singleton.mpr nofun⟩
    cases hz
    refine ⟨rfl, fun t v ht hv => by cases ht; exact hv, ?_⟩
    exact Expr.every_compare.mpr
      ⟨trivial, Expr.every_var.mpr trivial, Expr.every_var.mpr trivial⟩
  · intro vs v hv
    cases hv
    exact ⟨rfl, hfive⟩
  · exact List.forall_mem_singleton.mpr (Expr.every_var.mpr rfl)
  · refine List.forall_mem_cons.mpr ⟨?_, List.forall_mem_singleton.mpr ?_⟩
    · exact Expr.every_compare.mpr ⟨fun _ => rfl, Expr.every_var.mpr rfl, Expr.every_var.mpr rfl⟩
    · exact Expr.every_literal.mpr (Value.plain_ofBool false)

theorem comparedResult_unshadowed :
    comparedResult.Over (.unshadowed ⟨0, "x", some (.one .integer)⟩) := by
  refine Expr.every_typeswitch.mpr ⟨?_, Expr.every_external.mpr ⟨trivial, ?_⟩, ?_⟩
  · refine List.forall_mem_cons.mpr ⟨fun y hy hs => ?_, List.forall_mem_singleton.mpr nofun⟩
    cases hy
    cases hs
  · exact List.forall_mem_singleton.mpr (Expr.every_var.mpr trivial)
  · refine List.forall_mem_cons.mpr ⟨?_, List.forall_mem_singleton.mpr ?_⟩
    · exact Expr.every_compare.mpr
        ⟨trivial, Expr.every_var.mpr trivial, Expr.every_var.mpr trivial⟩
    · exact Expr.every_literal.mpr trivial

/-- With five for the variable, the comparison with five is true. -/
theorem inline_substitutes_comparedResult :
    comparedResult.eval (Library.host fun _ _ => some [.integer 5])
      ((Context.empty true).bind 0 [.integer 5]) () = (.ok (.ofBool true), ()) ∧
    ∃ r, ((CompileContext.start {} .empty).inline comparedResult
        ⟨0, "x", some (.one .integer)⟩ (.literal [.integer 5])).1 = .ok r ∧
      ∀ s, ∃ s', r.value.eval (Library.host fun _ _ => some [.integer 5]) (Context.empty true) s =
        (.ok (.ofBool true), s') := by
  have hcomp : ((CompileContext.start {} .empty).compile (fun _ _ _ => .ok ()) comparedResult).1 =
      .ok comparedResult := rfl
  have heval : comparedResult.eval (Library.host fun _ _ => some [.integer 5])
      ((Context.empty true).bind 0 [.integer 5]) () = (.ok (.ofBool true), ()) := rfl
  have hx : Declarations.Binds (fun _ => some (.one .integer)) ⟨0, "x", some (.one .integer)⟩
      [.integer 5] := ⟨rfl, fun t ht => by cases ht; rfl⟩
  have hempty : (Context.empty true).Declared fun _ => some (.one .integer) := ⟨nofun, nofun⟩
  exact ⟨heval, inline_substitutes (Library.host_steady _) hcomp comparedResult_over
    comparedResult_unshadowed hx (Value.plain_singleton.mpr trivial) hempty heval _⟩

/-- A typeswitch whose only case binds a variable once more and refers to it. -/
def shadowed : Expr :=
  .typeswitch (.external ⟨0, "f", .one .string, true⟩ [] false .unknown)
    [(⟨some ⟨0, "x", none⟩, none⟩, .var ⟨0, "x", none⟩ .unknown)] .unknown

/-- It is compiled already. Evaluated with one for the variable it yields what the call does, but
the substitution of one yields one. -/
theorem inline_into_shadow :
    let h := Library.host fun _ _ => some [.string "a"]
    let ctx := CompileContext.start {} .empty
    (ctx.compile (fun _ _ _ => .ok ()) shadowed).1 = .ok shadowed ∧
    shadowed.eval h ((Context.empty true).bind 0 [.integer 1]) () = (.ok [.string "a"], ()) ∧
    ∃ r, (ctx.inline shadowed ⟨0, "x", none⟩ (.literal [.integer 1])).1 = .ok r ∧
      r.value.eval h (Context.empty true) () = (.ok [.integer 1], ()) :=
  ⟨rfl, rfl, _, rfl, rfl⟩

end

end QueryExpr
