import QueryExpr.Proofs.Stepwise

/-!
# QueryExpr.Proofs.Observation

Nobody who listens to a compilation has a part in it.

* `CompileContext.Extends` — what a compilation may do to a context: add to the logs that are kept.
* `record_extends`, `recordAll_extends` — one event, and all events of a run.
* `compilation_unobserved` — every operation of compilation yields the same tree or the same error
  in all contexts, and leaves a context that extends the one it was given.

The operations are those that have the context at hand in every step; `Proofs.Stepwise` is what
makes them independent of it.
-/

namespace QueryExpr

namespace CompileContext

/-- `d` is `c` after more has been recorded in it: nothing that was there is lost or changed, and a
log that is not kept does not grow. -/
structure Extends (c d : CompileContext) : Prop where
  config : d.config = c.config
  scope : d.scope = c.scope
  diagnostics : c.diagnostics <+: d.diagnostics
  replacements : c.replacements <+: d.replacements
  trace : c.trace <+: d.trace
  noDiagnostics : c.config.diagnostics.enabled = false → d.diagnostics = c.diagnostics
  noReplacements : c.config.diagnostics.replacements = false → d.replacements = c.replacements

namespace Extends

variable {c d d' : CompileContext}

theorem refl (c : CompileContext) : c.Extends c :=
  ⟨rfl, rfl, List.prefix_rfl, List.prefix_rfl, List.prefix_rfl, fun _ => rfl, fun _ => rfl⟩

theorem trans (h : c.Extends d) (h' : d.Extends d') : c.Extends d' where
  config := h'.config.trans h.config
  scope := h'.scope.trans h.scope
  diagnostics := h.diagnostics.trans h'.diagnostics
  replacements := h.replacements.trans h'.replacements
  trace := h.trace.trans h'.trace
  noDiagnostics off := (h'.noDiagnostics (h.config ▸ off)).trans (h.noDiagnostics off)
  noReplacements off := (h'.noReplacements (h.config ▸ off)).trans (h.noReplacements off)

end Extends

theorem record_extends (c : CompileContext) (e : Event) : c.Extends (c.record e) := by
  cases e with
  | note category message =>
    constructor <;> cases h : c.config.diagnostics.enabled <;>
      cases h' : c.config.diagnostics.log <;> simp [record, h, h']
  | replacement source target span =>
    cases h : c.config.diagnostics.replacements with
    | false => simpa [record, h] using Extends.refl c
    | true =>
      constructor <;> cases h' : c.config.diagnostics.log <;> simp [record, h, h']
  | analysed accessible => constructor <;> simp [record]

theorem recordAll_extends (c : CompileContext) (events : List Event) :
    c.Extends (c.recordAll events) := by
  induction events generalizing c with
  | nil => exact .refl c
  | cons e es ih => exact (c.record_extends e).trans (ih (c.record e))

end CompileContext

/-- `p` is an operation that works in the context step by step, and `q` is the operation of which
all events are recorded at the end. They are the same; their result does not depend on the context,
and the context is only added to. -/
structure Unobserved {α : Type} (p : Compiling α) (q : CompileContext → α × CompileContext) :
    Prop where
  recorded : ∀ c : CompileContext, p c = q c
  result : ∀ c d : CompileContext, (p c).1 = (p d).1
  logs : ∀ c : CompileContext, c.Extends (p c).2

theorem Unobserved.perform {α : Type} (x : Noted α) : Unobserved x.perform (·.run x) where
  recorded _ := rfl
  result _ _ := rfl
  logs c := c.recordAll_extends x.events

/-- Compilation, optimisation, the reduction to a condition, substitution and merging each yield
the same in every context, errors included, and only add to the logs that are kept. -/
theorem compilation_unobserved (checks : Checks) (k : Connective) (e f w : Expr) (x : Var) :
    Unobserved (Stepwise.compile checks e).run (·.compile checks e) ∧
    Unobserved (Stepwise.optimize e).run (·.optimize e) ∧
    Unobserved (Stepwise.asCondition e) (·.asCondition e) ∧
    Unobserved (Stepwise.inline e x w).run (·.inline e x w) ∧
    Unobserved (Stepwise.merge? k e f) (·.merge? k e f) := by
  refine ⟨?_, ?_, ?_, ?_, ?_⟩
  · rw [Stepwise.compile_eq]
    exact .perform _
  · rw [Stepwise.optimize_eq]
    exact .perform _
  · rw [Stepwise.asCondition_eq]
    exact .perform _
  · rw [Stepwise.inline_eq]
    exact .perform _
  · rw [Stepwise.merge?_eq]
    have hrun (c : CompileContext) : c.merge? k e f = c.run (.ofOption (e.merge? k f)) := by
      unfold CompileContext.merge?
      cases e.merge? k f <;> rfl
    simpa only [hrun] using Unobserved.perform _

end QueryExpr
