import QueryExpr.Proofs.Fixed
import QueryExpr.Proofs.Live
import QueryExpr.Proofs.Placeless

/-!
# QueryExpr.Proofs.Idempotence

When a compiled expression compiles to itself, up to places in the text: if and only if it passes
the checks that substitution leaves out.

* `Expr.unplaced`   — an expression without places.
* `accepted_of_live` — a compilation that parks nothing makes all its checks with success.
* `compile_again_iff` — the condition, with an expression that fails it.
-/

namespace QueryExpr

/-! ## Places -/

mutual

/-- The expression without the places where it was written. -/
def Expr.unplaced : Expr → Expr
  | .connective c es _ => .connective c (unplacedList es) .unknown
  | .switch e cs d _ => .switch e.unplaced (unplacedCases cs) d.unplaced .unknown
  | .typeswitch e cs _ => .typeswitch e.unplaced (unplacedTypeCases cs) .unknown
  | .cast e t _ => .cast e.unplaced t .unknown
  | .call fn e _ => .call fn e.unplaced .unknown
  | .compare op l r _ => .compare op l.unplaced r.unplaced .unknown
  | .range b e _ => .range b e.unplaced .unknown
  | .position a b _ => .position a b .unknown
  | .literal v => .literal v
  | .var x _ => .var x .unknown
  | .external fn es tail _ => .external fn (unplacedList es) tail .unknown
  | .failing cause type _ => .failing cause.unplaced type .unknown

def unplacedList : List Expr → List Expr
  | [] => []
  | e :: es => e.unplaced :: unplacedList es

def unplacedCases : List (Expr × Expr) → List (Expr × Expr)
  | [] => []
  | (v, r) :: cs => (v.unplaced, r.unplaced) :: unplacedCases cs

def unplacedTypeCases : List (CaseHead × Expr) → List (CaseHead × Expr)
  | [] => []
  | (head, r) :: cs => (head, r.unplaced) :: unplacedTypeCases cs

end

theorem liveList_unplaced {es : List Expr} (h : ∀ e ∈ es, e.unplaced.live = e.live) :
    liveList (unplacedList es) = liveList es := by
  induction es with
  | nil => rfl
  | cons e es ih =>
    obtain ⟨he, hes⟩ := List.forall_mem_cons.mp h
    simp only [unplacedList, liveList, he, ih hes]

theorem liveCases_unplaced {cs : List (Expr × Expr)}
    (h : ∀ p ∈ cs, p.1.unplaced.live = p.1.live ∧ p.2.unplaced.live = p.2.live) :
    liveCases (unplacedCases cs) = liveCases cs := by
  induction cs with
  | nil => rfl
  | cons p cs ih =>
    obtain ⟨hp, hcs⟩ := List.forall_mem_cons.mp h
    simp only [unplacedCases, liveCases, hp.1, hp.2, ih hcs]

theorem liveTypeCases_unplaced {cs : List (CaseHead × Expr)}
    (h : ∀ p ∈ cs, p.2.unplaced.live = p.2.live) :
    liveTypeCases (unplacedTypeCases cs) = liveTypeCases cs := by
  induction cs with
  | nil => rfl
  | cons p cs ih =>
    obtain ⟨hp, hcs⟩ := List.forall_mem_cons.mp h
    simp only [unplacedTypeCases, liveTypeCases, hp, ih hcs]

theorem Expr.live_unplaced (e : Expr) : e.unplaced.live = e.live := by
  induction e with
  | connective c es span ih => simp only [Expr.unplaced, Expr.live, liveList_unplaced ih]
  | switch e cs d span ihe ihcs ihd =>
    simp only [Expr.unplaced, Expr.live, ihe, liveCases_unplaced ihcs, ihd]
  | typeswitch e cs span ihe ihcs =>
    simp only [Expr.unplaced, Expr.live, ihe, liveTypeCases_unplaced ihcs]
  | external fn es tail span ih => simp only [Expr.unplaced, Expr.live, liveList_unplaced ih]
  | cast e t span ih => simp only [Expr.unplaced, Expr.live, ih]
  | call fn e span ih => simp only [Expr.unplaced, Expr.live, ih]
  | compare op l r span ihl ihr => simp only [Expr.unplaced, Expr.live, ihl, ihr]
  | range b e span ih => simp only [Expr.unplaced, Expr.live, ih]
  | _ => rfl

section
variable {checks : Checks}

/-! ## Parts that lose nothing -/

theorem live_compiled_le (checks : Checks) (e : Expr) : (e.compiled checks).live ≤ e.live := by
  have h : Rewrites checks [] e (.ok (e.compiled checks)) := e.compiled_rewrites
  exact h.live _ rfl

/-- What loses nothing is compiled without an error. -/
theorem compile_of_live {e : Expr} (h : (e.compiled checks).live = e.live) :
    ∃ e', (e.compile checks).value = .ok e' ∧ e'.live = e.live := by
  cases hr : (e.compile checks).value with
  | ok e' => exact ⟨e', rfl, by rw [← h, compiled_of_ok hr]⟩
  | error t =>
    have hz : e.live = 0 := by rw [← h, Expr.compiled, hr]; rfl
    obtain ⟨t', type, span, rfl⟩ := Expr.live_eq_zero hz
    cases hr

theorem compileOperands_map {es fs : List Expr}
    (h : (compileOperands checks es).value = .ok fs) : fs = es.map (·.compiled checks) := by
  cases es with
  | nil => cases h; rfl
  | cons e es =>
    cases hr : (e.compile checks).value with
    | error t => rw [compileOperands_of_error hr] at h; cases h
    | ok e' =>
      rw [compileOperands_of_ok hr] at h
      cases h
      rw [List.map_cons, compiled_of_ok hr]

theorem compileOperands_settled {es fs : List Expr}
    (h : (compileOperands checks es).value = .ok fs) : ∀ e ∈ fs, e.Settled := by
  rw [compileOperands_map h]
  intro e he
  obtain ⟨d, _, rfl⟩ := List.mem_map.mp he
  exact d.compiled_settled

theorem Reaches.live {e : Expr} {r : Except CompileError Expr} (h : Reaches checks [] e r)
    {e' : Expr} (hr : r = .ok e') : e'.live ≤ e.live :=
  h.rewrites.live e' hr

/-- What is rewritten from a node over compiled parts has lost nothing only if no part has. -/
theorem parts_of_live {e d n : Expr} {r : Except CompileError Expr} (hr : Reaches checks [] d r)
    (hn : r = .ok n) (hlive : n.live = e.live)
    (hparts : d.children = e.children.map (·.compiled checks))
    (he : ∀ t type span, e ≠ .failing t type span) (hd : ∀ t type span, d ≠ .failing t type span) :
    ∀ p ∈ e.children, (p.compiled checks).live = p.live := by
  have hle := hr.live hn
  rw [hlive, Expr.live_count.node e he, Expr.live_count.node d hd, hparts] at hle
  exact totalOf_map_eq (f := (·.compiled checks)) (fun p _ => live_compiled_le checks p) (by omega)

/-! ## Trees that lose nothing -/

/-- A settled expression that loses nothing when it is compiled is accepted. -/
theorem accepted_of_live {e : Expr} (hs : e.Settled)
    (h : (e.compiled checks).live = e.live) : e.Accepted checks := by
  induction e with
  | connective c es span ih =>
    have hs := (Expr.every_connective.mp hs).2
    obtain ⟨n, hn, hlive⟩ := compile_of_live h
    obtain ⟨fs, hfs, hn⟩ := Attempt.andThen_eq_ok.mp hn
    have hparts := parts_of_live (e := .connective c es span)
      (optimizeConnective_reaches (compileOperands_settled hfs)) hn hlive (compileOperands_map hfs)
      (by simp) (by simp)
    exact Expr.every_connective.mpr ⟨trivial, fun e he => ih e he (hs e he) (hparts e he)⟩
  | switch e cs d span ihe ihcs ihd =>
    obtain ⟨-, hse, hscs, hsd⟩ := Expr.every_switch.mp hs
    obtain ⟨n, hn, hlive⟩ := compile_of_live h
    obtain ⟨e', he', hn⟩ := Attempt.andThen_eq_ok.mp hn
    simp only [Attempt.andThen_lift, compileCases_value, Attempt.parked_value] at hn
    have hr : Reaches checks [] (.switch e' (cs.map fun p =>
        (p.1.compiled checks, p.2.compiled checks)) (d.compiled checks) span) _ :=
      optimizeSwitch_reaches (Expr.compile_settled he') (fun p hp => by
        obtain ⟨q, _, rfl⟩ := List.mem_map.mp hp
        exact ⟨q.1.compiled_settled, q.2.compiled_settled⟩) d.compiled_settled span
    have hparts := parts_of_live (e := .switch e cs d span) hr hn hlive (by
      rw [← compiled_of_ok he']
      simp [Expr.children, List.flatMap_map, List.map_flatMap]) (by simp) (by simp)
    obtain ⟨he, hcs, hd⟩ := Expr.forall_children_switch.mp hparts
    refine Expr.every_switch.mpr ⟨trivial, ihe hse he, fun p hp => ?_, ihd hsd hd⟩
    exact ⟨(ihcs p hp).1 (hscs p hp).1 (hcs p hp).1, (ihcs p hp).2 (hscs p hp).2 (hcs p hp).2⟩
  | typeswitch e cs span ihe ihcs =>
    obtain ⟨⟨hdef, -⟩, hse, hscs⟩ := Expr.every_typeswitch.mp hs
    obtain ⟨n, hn, hlive⟩ := compile_of_live h
    simp only [Expr.compile, hdef, if_true] at hn
    obtain ⟨e', he', hn⟩ := Attempt.andThen_eq_ok.mp hn
    simp only [Attempt.andThen_lift, compileTypeCases_value] at hn
    have hr : Reaches checks [] (.typeswitch e' (cs.map fun p => (p.1, p.2.compiled checks)) span)
        _ :=
      optimize_typeswitch_reaches (Expr.compile_settled he') (fun p hp => by
        obtain ⟨q, _, rfl⟩ := List.mem_map.mp hp
        exact q.2.compiled_settled)
        ((endsInDefault_map cs fun e => e.compiled checks).trans hdef) span
    have hparts := parts_of_live (e := .typeswitch e cs span) hr hn hlive (by
      rw [← compiled_of_ok he']
      simp [Expr.children]) (by simp) (by simp)
    obtain ⟨he, hcs⟩ := Expr.forall_children_typeswitch.mp hparts
    exact Expr.every_typeswitch.mpr
      ⟨trivial, ihe hse he, fun p hp => ihcs p hp (hscs p hp) (hcs p hp)⟩
  | cast e t span ih =>
    obtain ⟨⟨ht, -⟩, hse⟩ := Expr.every_cast.mp hs
    obtain ⟨n, hn, hlive⟩ := compile_of_live h
    simp only [Expr.compile, ht, if_true] at hn
    obtain ⟨e', he', hn⟩ := Attempt.andThen_eq_ok.mp hn
    have hparts := parts_of_live (e := .cast e t span)
      (checkedCast_reaches (Expr.compile_settled he') ht span) hn hlive
      (by rw [← compiled_of_ok he']; rfl) (by simp) (by simp)
    have ha := ih hse (hparts e (List.mem_singleton_self e))
    cases he'.symm.trans (Expr.compile_fixed hse ha)
    simp only [checkedCast] at hn
    split at hn
    · cases hn
    · rename_i hshort
      exact Expr.every_cast.mpr ⟨Nat.not_lt.mp hshort, ha⟩
  | call fn e span ih =>
    obtain ⟨n, hn, hlive⟩ := compile_of_live h
    obtain ⟨e', he', hn⟩ := Attempt.andThen_eq_ok.mp hn
    have hparts := parts_of_live (e := .call fn e span)
      (optimizeCall_reaches fn (Expr.compile_settled he') span) hn hlive
      (by rw [← compiled_of_ok he']; rfl) (by simp) (by simp)
    exact Expr.every_call.mpr
      ⟨trivial, ih (Expr.every_call.mp hs).2 (hparts e (List.mem_singleton_self e))⟩
  | compare op l r span ihl ihr =>
    obtain ⟨-, hsl, hsr⟩ := Expr.every_compare.mp hs
    obtain ⟨n, hn, hlive⟩ := compile_of_live h
    obtain ⟨l', hl', hn⟩ := Attempt.andThen_eq_ok.mp hn
    simp only [Attempt.andThen_lift, Attempt.parked_value] at hn
    have hparts := parts_of_live (e := .compare op l r span)
      (optimizeCompare_reaches op (Expr.compile_settled hl') r.compiled_settled span) hn hlive
      (by rw [← compiled_of_ok hl']; rfl) (by simp) (by simp)
    exact Expr.every_compare.mpr ⟨trivial, ihl hsl (hparts l (by simp [Expr.children])),
      ihr hsr (hparts r (by simp [Expr.children]))⟩
  | range b e span ih =>
    obtain ⟨n, hn, hlive⟩ := compile_of_live h
    obtain ⟨e', he', hn⟩ := Attempt.andThen_eq_ok.mp hn
    have hparts := parts_of_live (e := .range b e span)
      (optimizeRange_reaches b (Expr.compile_settled he') span) hn hlive
      (by rw [← compiled_of_ok he']; rfl) (by simp) (by simp)
    exact Expr.every_range.mpr
      ⟨trivial, ih (Expr.every_range.mp hs).2 (hparts e (List.mem_singleton_self e))⟩
  | position a b span => exact Expr.every_position.mpr trivial
  | literal v => exact Expr.every_literal.mpr trivial
  | var x span => exact Expr.every_var.mpr trivial
  | external fn es tail span ih =>
    have hs := (Expr.every_external.mp hs).2
    obtain ⟨n, hn, hlive⟩ := compile_of_live h
    obtain ⟨fs, hfs, hn⟩ := Attempt.andThen_eq_ok.mp hn
    split at hn
    · cases hn
    · rename_i u hc
      have hr : Reaches checks [] (.external fn fs tail span) (.ok (.external fn fs tail span)) :=
        .self (Expr.every_external.mpr ⟨trivial, compileOperands_settled hfs⟩)
      have hparts := parts_of_live (e := .external fn es tail span) hr hn hlive
        (compileOperands_map hfs) (by simp) (by simp)
      have ha (e : Expr) (he : e ∈ es) := ih e he (hs e he) (hparts e he)
      have hfixed := compileOperands_fixed fun e he => Expr.compile_fixed (hs e he) (ha e he)
      cases hfs.symm.trans hfixed
      exact Expr.every_external.mpr ⟨hc, ha⟩
  | failing c t span => exact Expr.every_failing.mpr trivial

/-- A compiled expression compiles to itself, up to places in the text, if and only if it passes
the checks that substitution leaves out. -/
theorem compile_again_iff {ctx ctx' : CompileContext} {e c : Expr}
    (h : (ctx.compile checks e).1 = .ok c) :
    (∃ c', (ctx'.compile checks c).1 = .ok c' ∧ c'.unplaced = c.unplaced) ↔ c.Accepted checks := by
  have hs : c.Settled := Expr.compile_settled h
  constructor
  · rintro ⟨c', hc', hu⟩
    refine accepted_of_live hs ?_
    rw [compiled_of_ok hc', ← c'.live_unplaced, hu, c.live_unplaced]
  · intro ha
    exact ⟨c, Expr.compile_fixed hs ha, rfl⟩

/-- Two position tests become one, which is left as it is. -/
theorem compile_again_iff_positions :
    ((CompileContext.start {} .empty).compile (fun _ _ _ => .ok ())
      (.connective .conjunction [.position 1 3 .unknown, .position 2 5 .unknown] .unknown)).1 =
      .ok (.position 2 3 .unknown) ∧
    ((∃ c', ((CompileContext.start {} .empty).compile (fun _ _ _ => .ok ())
        (.position 2 3 .unknown)).1 = .ok c' ∧
        c'.unplaced = (Expr.position 2 3 .unknown).unplaced) ↔
      (Expr.position 2 3 .unknown).Accepted fun _ _ _ => .ok ()) := by
  refine ⟨?h, compile_again_iff ?h⟩
  rfl

end

/-! ## A check that comes too late -/

/-- A function that takes a pattern. -/
def matchesFn : ExternalFn := ⟨0, "matches", .booleanOne, true⟩

/-- A check that refuses literal patterns with an open group. -/
def refusesGroup : Checks := fun _ es span =>
  match es with
  | [.literal [.string s]] =>
    if s = "a(b" then .error (.malformedPattern s "rejected" span) else .ok ()
  | _ => .ok ()

/-- The pattern takes the place of a variable after the call was checked, so that the call is
compiled once and refused the second time. -/
theorem compile_again_refused :
    ((CompileContext.start {} .empty).compile refusesGroup
      (.typeswitch (.literal [.string "a(b"])
        [(⟨some ⟨0, "x", none⟩, none⟩,
          .external matchesFn [.var ⟨0, "x", none⟩ .unknown] false .unknown)] .unknown)).1 =
      .ok (.external matchesFn [.literal [.string "a(b"]] false .unknown) ∧
    ¬ ∃ c', ((CompileContext.start {} .empty).compile refusesGroup
        (.external matchesFn [.literal [.string "a(b"]] false .unknown)).1 = .ok c' ∧
      c'.unplaced =
        (Expr.external matchesFn [.literal [.string "a(b"]] false .unknown).unplaced := by
  refine ⟨rfl, ?_⟩
  rintro ⟨c', hc', _⟩
  cases hc'

end QueryExpr
