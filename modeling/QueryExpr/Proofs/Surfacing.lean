import QueryExpr.Proofs.Preservation

/-!
# QueryExpr.Proofs.Surfacing

Compilation swallows no error, except where it presumes to know a value.

* `Invents`           — what becomes of an expression yields something that the expression does not.
* `Swallows`          — it does so since a value was presumed on the way, of a part that fails.
* `Rewrites.reflects` — what rules applied anywhere invent, they swallow.
* `compile_surfaces`  — an error that is not swallowed is a compile error, or it is raised after
  compilation, too.
-/

namespace QueryExpr

section
variable {checks : Checks} {L : Library} {D : Declarations} {c : Context}

/-! ## Places -/

/-- A part stands in a typed context, in which the known variables have their values. -/
theorem Frame.Enters.typed {F : Frame} {e : Expr} {c' : Context} (h : F.Enters L c c')
    (he : (F.plug e).Over (.typed L D)) (hc : c.Typed D) {K : Known}
    (hK : K.Holds c (F.plug e)) : c'.Typed D ∧ K.Holds c' e := by
  cases F with
  | typeResult o bs head cs span =>
    obtain ⟨v, hv, hadm, rfl⟩ := h
    have hmem : (head, e) ∈ bs ++ (head, e) :: cs := by simp
    exact ⟨hc.inCase he hv hmem hadm, hK.bindCase hmem v⟩
  | _ =>
    cases h
    exact ⟨hc, hK.plug⟩

/-- In the result of a case its variable is known, too. -/
theorem Known.Holds.typed {K : Known} {v : Value} {cs : List (CaseHead × Expr)} {span : Span}
    {head : CaseHead} {x : Var} {r : Expr}
    (he : (Expr.typeswitch (.literal v) cs span).Over (.typed L D)) (hc : c.Typed D)
    (hf : cs.find? (fun c => c.1.admits v) = some (head, r)) (hx : head.var = some x)
    (hK : K.Holds c (.typeswitch (.literal v) cs span)) :
    (c.bind x.id v).Typed D ∧ Known.Holds ((x, v) :: K) (c.bind x.id v) r := by
  have hv : (Expr.literal v).value? L c = some v := rfl
  have hmem := List.mem_of_find?_eq_some hf
  have hadm := List.find?_some hf
  have htyped := hc.inCase he hv hmem hadm
  simp only [CaseHead.bind, hx] at htyped
  exact ⟨htyped, hK.boundCase ((Expr.every_typeswitch.mp he).1 _ hmem x hx).2.2 hf hx⟩

/-! ## Invention -/

/-- What becomes of an expression yields something that the expression itself does not yield. -/
def Invents (L : Library) (c : Context) (e e' : Expr) : Prop :=
  ∃ v, e'.value? L c = some v ∧ e.value? L c ≠ some v

namespace Invents

variable {e d e' : Expr}

/-- What two steps invent, one of them does. -/
theorem either (h : Invents L c e e') (d : Expr) : Invents L c e d ∨ Invents L c d e' := by
  obtain ⟨v, hv, hn⟩ := h
  by_cases hd : d.value? L c = some v
  · exact .inl ⟨v, hd, hn⟩
  · exact .inr ⟨v, hv, hd⟩

/-- What a node invents, the new part invents where it is evaluated. -/
theorem part {F : Frame} (h : Invents L c (F.plug e) (F.plug e')) :
    ∃ c', F.Enters L c c' ∧ Invents L c' e e' := by
  obtain ⟨v, hv, hn⟩ := h
  by_contra hpart
  refine hn (Refines.plug (fun c' hc' w hw => ?_) v hv)
  by_contra hw'
  exact hpart ⟨c', hc', w, hw, hw'⟩

/-- What the result of a case invents in the place of the typeswitch, it invents with the variable
bound. -/
theorem case {v : Value} {cs : List (CaseHead × Expr)} {span : Span} {head : CaseHead} {x : Var}
    {r r' : Expr} (hf : cs.find? (fun c => c.1.admits v) = some (head, r)) (hx : head.var = some x)
    (hav : r'.Avoids x) (h : Invents L c (.typeswitch (.literal v) cs span) r') :
    Invents L (c.bind x.id v) r r' := by
  obtain ⟨w, hw, hn⟩ := h
  rw [value?_typeswitch hf] at hn
  simp only [CaseHead.bind, hx] at hn
  -- Within the case the variable is bound, to something else than outside of it.
  exact ⟨w, Refines.agree hav (Context.agreeOff_bind _ _).symm w hw, hn⟩

end Invents

/-- Where an expression yields nothing, what becomes of it yields something since, on the way, a
part is replaced by a value that is presumed and that the part does not yield where it is evaluated.
All that the part is in yields something of the kind, too. -/
inductive Swallows (checks : Checks) (L : Library) : Known → Context → Expr → Expr → Prop where
  | presumed {K : Known} {c : Context} {e e' : Expr} :
      e.Presumes e' → Invents L c e e' → Swallows checks L K c e e'
  | before {K : Known} {c : Context} {e d e' : Expr} :
      Rewrites checks K e (.ok d) → Swallows checks L K c d e' → Invents L c e e' →
      Swallows checks L K c e e'
  | after {K : Known} {c : Context} {e d e' : Expr} :
      Swallows checks L K c e d → Rewrites checks K d (.ok e') → Invents L c e e' →
      Swallows checks L K c e e'
  | inside {K : Known} {c c' : Context} {e e' : Expr} (F : Frame) :
      F.Enters L c c' → Swallows checks L K c' e e' → Invents L c (F.plug e) (F.plug e') →
      Swallows checks L K c (F.plug e) (F.plug e')
  | bound {K : Known} {c : Context} {v : Value} {cs : List (CaseHead × Expr)} {span : Span}
      {head : CaseHead} {x : Var} {r r' : Expr} :
      cs.find? (fun c => c.1.admits v) = some (head, r) → head.var = some x →
      Swallows checks L ((x, v) :: K) (c.bind x.id v) r r' → r'.Avoids x →
      Invents L c (.typeswitch (.literal v) cs span) r' →
      Swallows checks L K c (.typeswitch (.literal v) cs span) r'

/-! ## Rewriting -/

/-- What a rule at the root of an expression invents is presumed. -/
theorem Rule.reflects {e e' : Expr} (h : Rule checks e (.ok e')) (he : e.Over (.typed L D))
    (hc : c.Typed D) (hn : Invents L c e e') : e.Presumes e' := by
  refine (h.keeps he hc).resolve_left fun heq => ?_
  obtain ⟨v, hv, hne⟩ := hn
  exact hne (heq.trans hv)

/-- What rules applied anywhere invent, they swallow. -/
theorem Rewrites.reflects {K : Known} {e : Expr} {r : Except CompileError Expr}
    (h : Rewrites checks K e r) (hV : (Vocabulary.typed L D).Knows K) (he : e.Over (.typed L D))
    (hc : c.Typed D) (hK : K.Holds c e) {e' : Expr} (hr : r = .ok e') (hn : Invents L c e e') :
    Swallows checks L K c e e' := by
  -- For every context, since the result of a case is evaluated in one with its variable bound.
  induction h generalizing c e' with
  | refl =>
    cases hr
    obtain ⟨v, hv, hne⟩ := hn
    exact absurd hv hne
  | @trans K e d r h₁ h₂ ih₁ ih₂ =>
    subst hr
    rcases hn.either d with hd | hd
    · exact .after (ih₁ hV he hc hK rfl hd) h₂ hn
    · have ho := h₁.over Vocabulary.typed_closed hV he d rfl
      exact .before h₁ (ih₂ hV ho hc (hK.rewrites h₁) rfl hd) hn
  | rule h =>
    subst hr
    exact .presumed (h.reflects he hc hn) hn
  | inside F _ ih =>
    cases hr
    obtain ⟨c', hc', hpart⟩ := hn.part
    obtain ⟨htyped, hK'⟩ := hc'.typed he hc hK
    exact .inside F hc' (ih hV (Frame.over_plug he) htyped hK' rfl hpart) hn
  | first => cases hr
  | park =>
    cases hr
    obtain ⟨v, hv, -⟩ := hn
    cases hv
  | @known K x y w span hx hs =>
    cases hr
    have hid : y.id = x.id := by simpa [Var.same] using hs
    have hw := (hK.lookup _ hx).resolve_left fun hav => Expr.every_var.mp hav hs
    obtain ⟨v, hv, hne⟩ := hn
    exact absurd ((congrArg c.lookup hid).trans (hw.trans hv)) hne
  | bound hf hx _ hav ih =>
    cases hr
    have hclosed : (Vocabulary.typed L D).Closed checks := Vocabulary.typed_closed
    obtain ⟨hV', hr⟩ := hclosed.bound hV hf hx he
    obtain ⟨htyped, hK'⟩ := hK.typed he hc hf hx
    exact .bound hf hx (ih hV' hr htyped hK' rfl (hn.case hf hx hav)) hav hn
  | boundFails => cases hr

theorem Swallows.invents {K : Known} {e e' : Expr} (h : Swallows checks L K c e e') :
    Invents L c e e' := by
  cases h <;> assumption

/-! ## Compilation -/

/-- Compilation swallows no error, except where it presumes to know a value. Where the evaluation of
a typed expression in a typed context and with a steady host raises an error, it does not compile,
or the evaluation of the compiled expression raises an error, too, or the error is swallowed: on the
way the expression has come by a value that a part of it does not yield. -/
theorem compile_surfaces {σ : Type} {h : Host σ} (hh : h.Steady L) {e : Expr}
    (he : e.Over (.typed L D)) (hc : c.Typed D) {s s' : σ} {t : EvalError}
    (ht : e.eval h c s = (.error t, s')) (ctx : CompileContext) :
    (∃ t, (ctx.compile checks e).1 = .error t) ∨
      ∃ e', (ctx.compile checks e).1 = .ok e' ∧
        ((∀ s, ∃ t s', e'.eval h c s = (.error t, s')) ∨ Swallows checks L [] c e e') := by
  have hvalue : e.value? L c = none := by
    have heval := Expr.eval_unscored hh Vocabulary.typed_unscored he hc.unscored s
    rw [ht] at heval
    exact heval.symm
  have hr : Reaches checks [] e (e.compile checks).value := e.compile_reaches
  have hcomp : (ctx.compile checks e).1 = (e.compile checks).value := rfl
  rw [hcomp]
  cases hres : (e.compile checks).value with
  | error t => exact .inl ⟨t, rfl⟩
  | ok e' =>
    refine .inr ⟨e', rfl, ?_⟩
    rw [hres] at hr
    cases hvalue' : e'.value? L c with
    | none =>
      refine .inl fun s => ?_
      have ho := hr.rewrites.over Vocabulary.typed_closed (fun p hp => nomatch hp) he e' rfl
      have heval := Expr.eval_unscored hh Vocabulary.typed_unscored ho hc.unscored s
      rw [hvalue'] at heval
      rcases outcome_cases heval with ⟨t, s', ht, -⟩ | ⟨v, s', -, hv⟩
      · exact ⟨t, s', ht⟩
      · cases hv
    | some v =>
      have hn : Invents L c e e' := ⟨v, hvalue', by rw [hvalue]; exact nofun⟩
      exact .inr (hr.rewrites.reflects (fun p hp => nomatch hp) he hc
        ⟨fun p hp => (nomatch hp), fun p hp => (nomatch hp)⟩ rfl hn)

/-- A host whose functions all raise one error. -/
def refusing (t : EvalError) : Host Unit where
  poll s := (false, s)
  invoke _ _ _ s := (.error t, s)

theorem refusing_steady (t : EvalError) : (refusing t).Steady fun _ _ => none :=
  ⟨fun _ => rfl, fun _ _ _ _ => rfl⟩

theorem Format.one_lt_limit (f : Format) (h : 3 < f.precision) : 1 < f.limit :=
  Nat.one_lt_two_pow (by omega)

/-- The least positive number. -/
def Binary.least : Double := .finite false 1 ⟨Format.one_lt_limit .double (by decide), rfl⟩

/-- A call that yields zero, and something between zero and the least positive number. -/
def zeroTests (inclusive : Bool) : Expr :=
  let call : Expr := .external ⟨0, "f", .one .integer, true⟩ [] false .unknown
  .connective .conjunction
    [.range ⟨.zero false, true, .zero false, true⟩ call .unknown,
      .range ⟨.zero false, inclusive, .least, true⟩ call .unknown]
    .unknown

theorem zeroTests_over (inclusive : Bool) :
    (zeroTests inclusive).Over (.typed (fun _ _ => none) fun _ => none) := by
  have hcall (s : Span) : (Expr.external ⟨0, "f", .one .integer, true⟩ [] false s).Over
      (.typed (fun _ _ => none) fun _ => none) := Expr.every_external.mpr ⟨nofun, nofun⟩
  refine Expr.every_connective.mpr ⟨trivial, List.forall_mem_cons.mpr ⟨?_, ?_⟩⟩
  · exact Expr.every_range.mpr ⟨trivial, hcall _⟩
  · exact List.forall_mem_singleton.mpr (Expr.every_range.mpr ⟨trivial, hcall _⟩)

/-- Where both ranges hold zero, the error of the call is kept. -/
theorem compile_surfaces_zeroTests :
    let h := refusing (.type "xs:integer" "xs:string" .unknown)
    let ctx := CompileContext.start {} .empty
    (zeroTests true).eval h (Context.empty true) () =
      (.error (.type "xs:integer" "xs:string" .unknown), ()) ∧
    ∃ e', (ctx.compile (fun _ _ _ => .ok ()) (zeroTests true)).1 = .ok e' ∧
      ∀ s, ∃ t s', e'.eval h (Context.empty true) s = (.error t, s') := by
  have hc : (Context.empty true).Typed fun _ => none :=
    ⟨fun _ _ _ h => (by cases h), fun _ _ h => (by cases h)⟩
  have ht : (zeroTests true).eval (refusing (.type "xs:integer" "xs:string" .unknown))
      (Context.empty true) () = (.error (.type "xs:integer" "xs:string" .unknown), ()) := rfl
  refine ⟨ht, ?_⟩
  rcases @compile_surfaces (fun _ _ _ => .ok ()) _ _ _ _ _ (refusing_steady _) _
    (zeroTests_over true) hc _ _ _ ht (.start {} .empty) with ⟨t, hfails⟩ | ⟨e', he', hs | hs⟩
  · cases hfails
  · exact ⟨e', he', hs⟩
  · -- What is left of the two ranges is one, whose operand fails.
    cases he'
    obtain ⟨v, hv, -⟩ := hs.invents
    cases hv

/-- Where one range ends before the other begins, it is lost. -/
theorem compile_loses_zeroTests :
    let h := refusing (.type "xs:integer" "xs:string" .unknown)
    let ctx := CompileContext.start {} .empty
    (zeroTests false).eval h (Context.empty true) () =
      (.error (.type "xs:integer" "xs:string" .unknown), ()) ∧
    (ctx.compile (fun _ _ _ => .ok ()) (zeroTests false)).1 = .ok (.ofBool false) ∧
    (Expr.ofBool false).eval h (Context.empty true) () = (.ok (.ofBool false), ()) :=
  ⟨rfl, rfl, rfl⟩

end

end QueryExpr
