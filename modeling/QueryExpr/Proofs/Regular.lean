import QueryExpr.Proofs.Typed

/-!
# QueryExpr.Proofs.Regular

Regular expressions and contexts: those for which compilation keeps every value.

* `Vocabulary.scoped`   — plain values, declared types, accepted calls, a default in every
  typeswitch, and no variable bound again where it is bound.
* `Vocabulary.regular`  — and at most one item on the left of every equality.
* `Context.Regular`     — plain values of the declared types, and a position within a sequence.
* `Context.Declared`    — the same without a word on positions.

Rewriting keeps all of these. That the left side of an equality has at most one item is kept since
rewriting narrows types, which needs that the rest is kept; hence the two steps.
-/

namespace QueryExpr

/-! ## Vocabularies -/

/-- A type that casts may name and that keeps values plain, and in which white space matters. -/
def SeqType.IsPlainTarget (t : SeqType) : Prop :=
  t.isCastTarget = true ∧ t.atom ≠ .float ∧ t.atom ≠ .double ∧ t.atom ≠ .anyUri

/-- The calls of a function are accepted, and its results are plain and of its type. -/
def ExternalFn.IsRegular (fn : ExternalFn) (checks : Checks) (L : Library) : Prop :=
  (∀ es span, checks fn es span = .ok ()) ∧
    ∀ vs v, L fn.name vs = some v → fn.type.admits v = true ∧ v.Plain

/-- Expressions of plain values and declared types. -/
def Vocabulary.scoped (checks : Checks) (L : Library) (D : Declarations) : Vocabulary where
  var x := x.type = D x.id
  fn f := f.IsRegular checks L
  cases cs := endsInDefault cs = true ∧ ∀ p ∈ cs, D.Scopes p
  left _ _ := True
  target := SeqType.IsPlainTarget
  value := Value.Plain
  known x v := D.Binds x v ∧ v.Plain
  parked _ := True

/-- Such expressions with at most one item on the left of every equality. -/
def Vocabulary.regular (checks : Checks) (L : Library) (D : Declarations) : Vocabulary :=
  { Vocabulary.scoped checks L D with left := fun op l => op = .eq → l.type.atMostOne = true }

section
variable {checks : Checks} {L : Library} {D : Declarations}

theorem endsInDefault_replace {bs cs : List (CaseHead × Expr)} {head : CaseHead} (r r' : Expr) :
    endsInDefault (bs ++ (head, r) :: cs) = endsInDefault (bs ++ (head, r') :: cs) := by
  cases cs <;> simp [endsInDefault]

/-- All but the left sides of comparisons stays as it should. -/
theorem Vocabulary.scoped_closed {left : CompareOp → Expr → Prop}
    (hleft : ∀ {K : Known} {op : CompareOp} {l l' : Expr}, (Vocabulary.scoped checks L D).Knows K →
      Rewrites checks K l (.ok l') → l.Over { Vocabulary.scoped checks L D with left } →
      left op l → left op l') :
    Vocabulary.Closed { Vocabulary.scoped checks L D with left } checks where
  empty := Value.plain_nil
  ofBool := Value.plain_ofBool
  truth hv hb := by
    rw [hv.ebv hb]
    exact Value.plain_ofBool _
  append := Value.Plain.append
  cast ht _ hw := Value.cast_plain hw ht.2.1 ht.2.2.1
  parked _ := trivial
  known h := h.2
  binds hcs hp hx hadm hv := by
    obtain ⟨hd, hc, _⟩ := hcs.2 _ hp _ hx
    exact ⟨⟨hd, fun t ht => hc t _ ht hadm⟩, hv⟩
  left := hleft
  case _ hr _ hcs := by
    obtain ⟨hdef, hcs⟩ := hcs
    exact ⟨(endsInDefault_replace _ _).trans hdef, forall_mem_replace hcs (·.replace hr)⟩

/-- To have at most one item is kept by rewriting. -/
theorem narrowing_atMostOne : Narrowing (.scoped checks L D) fun t => t.atMostOne = true where
  join := SeqType.atMostOne_join
  empty _ _ _ := rfl
  known hb hy hs ht := Value.type_atMostOne ht (hb.1.seqType hy hs)
  cast ht hw h := Value.type_atMostOne h (SeqType.castTarget_admits ht.1 hw)
  void ht hv h := by
    obtain ⟨m, hm, hle⟩ := Occurrence.atMostOne_iff.mp h
    obtain ⟨n, hn, hnm⟩ := (SeqType.castIsVoid_within ht.1 hv).occurs.max m hm
    exact Occurrence.atMostOne_iff.mpr ⟨n, hn, Nat.le_trans hnm hle⟩

theorem Expr.Over.scoped {e : Expr} (he : e.Over (.regular checks L D)) :
    e.Over (.scoped checks L D) := by
  refine he.imp fun n hn => ?_
  cases n with
  | compare => trivial
  | _ => exact hn

/-- Plain values are unscored. -/
theorem Expr.Over.typed {e : Expr} (he : e.Over (.scoped checks L D)) : e.Over (.typed L D) := by
  refine he.imp fun n hn => ?_
  cases n with
  | typeswitch e cs span => exact hn.2
  | cast e t span => exact hn.1
  | literal v => exact Value.Plain.unscored hn
  | external fn es tail span => exact fun vs v hv => ⟨(hn.2 vs v hv).1, (hn.2 vs v hv).2.unscored⟩
  | _ => exact hn

theorem Vocabulary.regular_closed : (Vocabulary.regular checks L D).Closed checks := by
  refine Vocabulary.scoped_closed fun hK hr hl h hop => ?_
  refine hr.narrows (Vocabulary.scoped_closed fun _ _ _ _ => trivial) narrowing_atMostOne hK ?_ _
    rfl (h hop)
  exact Expr.Over.scoped hl

theorem Vocabulary.scoped_yieldsPlain : (Vocabulary.scoped checks L D).YieldsPlain L where
  value := id
  fn hf hv := (hf.2 _ _ hv).2
  target ht := ⟨ht.2.1, ht.2.2.1⟩

end

/-! ## Contexts -/

/-- The bound values are plain and of the declared types, and the position is within a
sequence. -/
structure Context.Regular (D : Declarations) (c : Context) : Prop where
  conforms : c.Conforms D
  plain : c.Plain
  position : ∀ f, c.focus = some f → 1 ≤ f.position

/-- The bound values are plain and of the declared types. -/
structure Context.Declared (D : Declarations) (c : Context) : Prop where
  conforms : c.Conforms D
  plain : c.Plain

theorem Context.Regular.declared {D : Declarations} {c : Context} (hc : c.Regular D) :
    c.Declared D :=
  ⟨hc.conforms, hc.plain⟩

theorem Context.Declared.typed {D : Declarations} {c : Context} (hc : c.Declared D) : c.Typed D :=
  ⟨hc.conforms, fun id v hv => (hc.plain id v hv).unscored⟩

theorem Context.Declared.bind {D : Declarations} {c : Context} (hc : c.Declared D) {x : Var}
    {v : Value} (hv : v.Plain) (hx : D.Binds x v) : (c.bind x.id v).Declared D :=
  ⟨hc.conforms.bind fun t ht => hx.2 t (hx.1.trans ht), Context.Only.bind hc.plain _ hv⟩

theorem Context.Declared.bindCase {D : Declarations} {c : Context} (hc : c.Declared D)
    {head : CaseHead} {v : Value} (hv : v.Plain) (hb : ∀ x, head.var = some x → D.Binds x v) :
    (head.bind v c).Declared D := by
  unfold CaseHead.bind
  split
  · exact hc
  · rename_i x hx; exact hc.bind hv (hb x hx)

/-! ## Types -/

section
variable {checks : Checks} {L : Library} {D : Declarations} {c : Context}

/-- What a regular expression yields is an instance of its static type. -/
theorem Expr.value?_admits {e : Expr} (he : e.Over (.scoped checks L D)) (hc : c.Declared D)
    {v : Value} (hv : e.value? L c = some v) : e.type.admits v = true :=
  (Expr.value?_typed he.typed hc.typed hv).1

/-- The values bound for the result of a case are plain and of the declared types, too. -/
theorem Context.Declared.inCase {e : Expr} {cs : List (CaseHead × Expr)} {span : Span}
    (he : (Expr.typeswitch e cs span).Over (.scoped checks L D)) (hc : c.Declared D) {v : Value}
    (hv : e.value? L c = some v) {p : CaseHead × Expr} (hp : p ∈ cs)
    (hadm : p.1.admits v = true) : (p.1.bind v c).Declared D := by
  obtain ⟨hcs, he, -⟩ := Expr.every_typeswitch.mp he
  have hplain := Expr.value?_plain Vocabulary.scoped_yieldsPlain he hc.plain hv
  refine hc.bindCase hplain fun x hx => ?_
  obtain ⟨hd, hb, _⟩ := hcs.2 p hp x hx
  exact ⟨hd, fun t ht => hb t v ht hadm⟩

end

end QueryExpr
