import QueryExpr.Proofs.Decision
import QueryExpr.Proofs.Elision
import QueryExpr.Proofs.Sieve

/-!
# QueryExpr.Proofs.Preservation

Compilation keeps every value.

* `Context.Counts`     — position tests may be folded in a context.
* `Expr.Presumes`      — the rules that know what an expression yields without running it.
* `Rule.keeps`         — by any other rule nothing changes, neither a value nor a failure.
* `Rule.yields`        — a rule at the root keeps the value of a regular expression.
* `Rewrites.yields`    — so do rules applied anywhere, in any order.
* `compile_preserves`  — a regular expression that yields something compiles to an expression that
  yields the same.
-/

namespace QueryExpr

/-- An attempt has an expression that yields a value. -/
def Yields (L : Library) (c : Context) (r : Except CompileError Expr) (v : Value) : Prop :=
  ∃ e, r = .ok e ∧ e.value? L c = some v

section
variable {checks : Checks} {L : Library} {D : Declarations} {c : Context}

theorem Yields.ok {e : Expr} {v : Value} (h : e.value? L c = some v) : Yields L c (.ok e) v :=
  ⟨e, rfl, h⟩

/-! ## Casts -/

/-- A value that is known to be long is not cast. -/
theorem Value.cast?_long {v : Value} {s : SeqType} (hs : s.admits v = true)
    (hlong : 1 < s.occurs.min) (t : SeqType) : v.cast? t = none := by
  have hmin := (Occurrence.admits_iff.mp (SeqType.admits_iff.mp hs).1).1
  match v with
  | [] => simp only [List.length_nil] at hmin; omega
  | [_] => simp only [List.length_cons, List.length_nil] at hmin; omega
  | _ :: _ :: _ => rfl

theorem positionConstant?_answer {a b p : Int64} {r : Bool} (h : positionConstant? a b = some r)
    (hp : 1 ≤ p) : (decide (a ≤ p) && decide (p ≤ b)) = r := by
  have hmax := Int64.le_iff_toInt_le.mp (Int64.le_maxValue p)
  simp only [positionConstant?, Int64.lt_iff_toInt_lt, Int64.le_iff_toInt_le,
    ← Int64.toInt_inj] at h hp ⊢
  split at h
  · cases h
    simp only [Bool.or_eq_true, decide_eq_true_eq, Bool.and_eq_false_iff,
      decide_eq_false_iff_not] at *
    omega
  · split at h
    · cases h
      simp only [Bool.and_eq_true, decide_eq_true_eq] at *
      omega
    · cases h

/-- The position tests whose answer depends on the position. -/
def Sieve.open : Sieve where
  position a b := positionConstant? a b = none
  range _ := True
  call _ := True

theorem Sieve.open_overlaps : Sieve.open.Overlaps :=
  ⟨positionConstant?_inter, fun _ _ => trivial⟩

/-- A test whose answer does not depend on the position has this answer: positions count from one,
or there is no such test. -/
def Context.Counts (c : Context) (e : Expr) : Prop :=
  (∀ f, c.focus = some f → 1 ≤ f.position) ∨ e.Sifted .open

namespace Context.Counts

theorem regular (hc : c.Regular D) (e : Expr) : c.Counts e := .inl hc.position

theorem plug {F : Frame} {e : Expr} (h : c.Counts (F.plug e)) : c.Counts e :=
  h.imp_right Frame.every_plug

theorem rewrites {K : Known} {e e' : Expr} (h : c.Counts e)
    (hr : Rewrites checks K e (.ok e')) : c.Counts e' :=
  h.imp_right fun he => hr.sifted Sieve.open_overlaps he e' rfl

theorem typeResult {v : Value} {e r : Expr} {cs : List (CaseHead × Expr)} {span : Span}
    {head : CaseHead} (h : c.Counts (.typeswitch e cs span))
    (hf : cs.find? (fun c => c.1.admits v) = some (head, r)) : c.Counts r :=
  h.imp_right fun he => (Expr.every_typeswitch.mp he).2.2 _ (List.mem_of_find?_eq_some hf)

/-- Bindings do not matter. -/
theorem focus {c' : Context} {e : Expr} (h : c.Counts e) (hf : c'.focus = c.focus) :
    c'.Counts e :=
  h.imp_left fun hp f hf' => hp f (hf ▸ hf')

end Context.Counts

/-! ## Branches -/

/-- What a choice that is known before a switch runs yields. -/
def Choice.value? (L : Library) (c : Context) (default : Option Value) :
    Except EvalError Choice → Option Value → Prop
  | .error _, o => o = none
  | .ok .unknown, _ => True
  | .ok .fallback, o => o = default
  | .ok (.branch r), o => o = r.value? L c

/-- What is known of a switch before it runs is what it yields. -/
theorem chooseCase_value? (i : Option Item) (span : Span) (cs : List (Expr × Expr))
    (o : Option Value) : Choice.value? L c o (chooseCase i span cs) (caseValue? L i o cs c) := by
  induction cs with
  | nil => rfl
  | cons p cs ih =>
    obtain ⟨e, r⟩ := p
    cases e with
    | literal w =>
      simp only [chooseCase, caseValue?, Expr.value?, Option.bind_some]
      rcases w.single_cases span with ⟨t, hj, hi⟩ | ⟨j, hj, hi⟩
      · simp only [hj, hi]; rfl
      · simp only [hj, hi, Option.bind_some]
        by_cases hm : matchesCase i j = true
        · simp only [hm, if_true]; rfl
        · simp only [hm, Bool.false_eq_true, if_false]
          exact ih
    | _ => trivial

theorem typeCaseValue?_find {v : Value} {cs : List (CaseHead × Expr)} {p : CaseHead × Expr}
    (h : cs.find? (fun c => c.1.admits v) = some p) :
    typeCaseValue? L v cs c = p.2.value? L (p.1.bind v c) := by
  induction cs with
  | nil => cases h
  | cons q cs ih =>
    rw [typeCaseValue?]
    by_cases hq : q.1.admits v = true
    · rw [List.find?_cons_of_pos (by simpa using hq)] at h
      cases h
      rw [if_pos hq]
    · rw [List.find?_cons_of_neg (by simpa using hq)] at h
      rw [if_neg hq, ih h]

/-- A typeswitch on a value is the result of the first case that admits it. -/
theorem value?_typeswitch {v : Value} {cs : List (CaseHead × Expr)} {span : Span} {head : CaseHead}
    {r : Expr} (h : cs.find? (fun c => c.1.admits v) = some (head, r)) :
    (Expr.typeswitch (.literal v) cs span).value? L c = r.value? L (head.bind v c) := by
  rw [Expr.value?, Expr.value?, Option.bind_some, typeCaseValue?_find h]

/-! ## Nodes that rules replace -/

/-- One operand is all that a connective decides by. -/
theorem value?_singleOperand (k : Connective) (e : Expr) (s : Span) :
    (Expr.connective k [e] s).value? L c = (Expr.call .boolean e s).value? L c := by
  rw [value?_connective, truth?_cons, value?_call]
  cases e.test? L c with
  | none => rfl
  | some b => cases b <;> cases k <;> rfl

/-- Negated operands are the negation of what the opposite connective decides. -/
theorem value?_negations {es args : List Expr} (hn : negated? es = some args) (k : Connective)
    (s : Span) :
    (Expr.connective k es s).value? L c =
      (Expr.call .not (.connective k.opposite args s) s).value? L c := by
  rw [value?_connective, truth?_negated hn, Option.map_map, value?_call, test?_connective]
  rfl

theorem value?_core (fn : Builtin) (e : Expr) (s span : Span) :
    (Expr.call fn (.call .boolean e s) span).value? L c = (Expr.call fn e span).value? L c := by
  rw [value?_call, test?_boolean, value?_call]

theorem value?_doubleNegation (e : Expr) (s span : Span) :
    (Expr.call .not (.call .not e s) span).value? L c = (Expr.call .boolean e span).value? L c := by
  rw [value?_call, test?_call, value?_call]
  cases e.test? L c with
  | none => rfl
  | some b => cases b <;> rfl

/-- What is statically one boolean is its own truth. -/
theorem value?_isBoolean {e : Expr} (he : e.Over (.typed L D)) (hc : c.Typed D)
    (ht : e.type = .booleanOne) (span : Span) :
    (Expr.call .boolean e span).value? L c = e.value? L c := by
  rw [Expr.value?]
  cases hu : e.value? L c with
  | none => rfl
  | some u =>
    obtain ⟨hadm, hun⟩ := Expr.value?_typed he hc hu
    rw [ht] at hadm
    obtain ⟨b, rfl⟩ := SeqType.booleanOne_admits hadm
    rw [Truth.eq_plain (Value.unscored_singleton.mp hun)]
    rfl

/-- A cast that does nothing yields what its operand yields, unless it trims it. -/
theorem value?_castVoid {e : Expr} {t : SeqType} (he : e.Over (.typed L D)) (hc : c.Typed D)
    (ht : t.isCastTarget = true) (hu : t.atom ≠ .anyUri) (hvoid : castIsVoid e.type t = true)
    (span : Span) : (Expr.cast e t span).value? L c = e.value? L c := by
  rw [Expr.value?]
  cases hv : e.value? L c with
  | none => rfl
  | some v =>
    obtain ⟨hadm, hun⟩ := Expr.value?_typed he hc hv
    rw [Option.bind_some, Value.cast?_elided ht hu hvoid hadm hun]

/-- A typeswitch all of whose results are empty yields the empty sequence, if anything. -/
theorem value?_vacuous {e : Expr} {cs : List (CaseHead × Expr)} {span : Span} {v : Value}
    (he : (Expr.typeswitch e cs span).Over (.typed L D)) (hc : c.Typed D)
    (hvac : ∀ p ∈ cs, p.2.isVacuous = true)
    (hv : (Expr.typeswitch e cs span).value? L c = some v) : v = [] := by
  obtain ⟨u, hu, hv⟩ := Option.bind_eq_some_iff.mp hv
  obtain ⟨p, hp, hadm, hv⟩ := typeCaseValue?_result hv
  have hr := (Expr.every_typeswitch.mp he).2.2 p hp
  have hv' := (Expr.value?_typed hr (hc.inCase he hu hp hadm) hv).1
  exact SeqType.eq_nil_of_isEmpty (Expr.isEmpty_of_isVacuous (hvac p hp)) hv'

theorem value?_cast_literal (v : Value) (t : SeqType) (span : Span) :
    (Expr.cast (.literal v) t span).value? L c = v.cast? t := rfl

theorem value?_compare_literals (op : CompareOp) (v w : Value) (span : Span) :
    (Expr.compare op (.literal v) (.literal w) span).value? L c =
      (v.compare? op w).map .ofBool := rfl

theorem value?_range_literal (b : Bounds) (v : Value) (span : Span) :
    (Expr.range b (.literal v) span).value? L c = (b.test? v).map .ofBool := rfl

/-- A switch on a value that is no sequence yields what is chosen before it runs. -/
theorem value?_switch_literal {v : Value} {span : Span} {i : Option Item}
    (hi : v.single? span = .ok i) (cs : List (Expr × Expr)) (d : Expr) :
    Choice.value? L c (d.value? L c) (chooseCase i span cs)
      ((Expr.switch (.literal v) cs d span).value? L c) := by
  rw [Expr.value?, Expr.value?, Option.bind_some,
    toOption_eq_some (Value.single_toOption _ _) hi, Option.bind_some]
  exact chooseCase_value? i span cs _

/-! ## Rules -/

/-- Rules that know what an expression yields without running all of it: where it fails, what it is
replaced by may yield something. -/
inductive Expr.Presumes : Expr → Expr → Prop where
  /-- What operands decide is known without running all of them. -/
  | operands {k : Connective} {es fs : List Expr} {span : Span} :
      k.Presumes es fs → Presumes (.connective k es span) (.connective k fs span)
  /-- No number lies within empty bounds. -/
  | emptyRange {b : Bounds} {e : Expr} {span : Span} :
      b.isEmpty = true → Presumes (.range b e span) (.ofBool false)
  /-- Every position passes a test, or none does. -/
  | constantPosition {min max : Int64} {span : Span} {b : Bool} :
      positionConstant? min max = some b → Presumes (.position min max span) (.ofBool b)
  /-- All results of a typeswitch are empty. -/
  | emptyResults {e : Expr} {cs : List (CaseHead × Expr)} {span : Span} :
      (∀ p ∈ cs, p.2.isVacuous = true) → e.isRandom = false →
      Presumes (.typeswitch e cs span) (.literal [])
  /-- A cast to the type of its operand is left out, and with it the trimming of a URI. -/
  | untrimmed {e : Expr} {t : SeqType} {span : Span} :
      castIsVoid e.type t = true → t.atom = .anyUri → Presumes (.cast e t span) e

/-- After a rule at its root an expression yields what it yielded, and fails where it failed, unless
this is presumed. -/
theorem Rule.keeps {e e' : Expr} (h : Rule checks e (.ok e')) (he : e.Over (.typed L D))
    (hc : c.Typed D) : e.value? L c = e'.value? L c ∨ e.Presumes e' := by
  cases h with
  | operands h =>
    refine (h.keeps (Expr.every_connective.mp he).2 hc).imp (fun heq => ?_) .operands
    rw [value?_connective, value?_connective, heq]
  | noOperand => exact .inl rfl
  | decidedOperand =>
    refine .inl ?_
    rw [value?_connective, truth?_singleton]
    rfl
  | singleOperand => exact .inl (value?_singleOperand ..)
  | negations _ hn => exact .inl (value?_negations hn ..)
  | core => exact .inl (value?_core ..)
  | @booleanLiteral v span b hb =>
    have hun : v.Unscored := Expr.every_literal.mp (Expr.every_call.mp he).2
    refine .inl ?_
    rw [value?_call, test?_literal hb, hun.ebv hb]
    rfl
  | notLiteral hb =>
    refine .inl ?_
    rw [value?_call, test?_literal hb]
    rfl
  | isBoolean ht => exact .inl (value?_isBoolean (Expr.every_call.mp he).2 hc ht _)
  | doubleNegation => exact .inl (value?_doubleNegation ..)
  | castLiteral hw =>
    refine .inl ?_
    rw [value?_cast_literal, toOption_eq_some (Value.cast_toOption _ _ _) hw]
    rfl
  | @castVoid _ t span hvoid =>
    obtain ⟨ht, he'⟩ := Expr.every_cast.mp he
    by_cases hu : t.atom = .anyUri
    · exact .inr (.untrimmed hvoid hu)
    · exact .inl (value?_castVoid he' hc ht hu hvoid span)
  | compareLiterals hb =>
    refine .inl ?_
    rw [value?_compare_literals, toOption_eq_some (Value.compare_toOption _ _ _ _) hb]
    rfl
  | rangeEmpty hb => exact .inr (.emptyRange hb)
  | rangeLiteral ha =>
    refine .inl ?_
    rw [value?_range_literal, toOption_eq_some (Bounds.test_toOption _ _ _) ha]
    rfl
  | positionConstant hb => exact .inr (.constantPosition hb)
  | @switchDefault w i cs _ span hi hd =>
    have hcs := value?_switch_literal (L := L) (c := c) hi cs e'
    rw [hd] at hcs
    exact .inl hcs
  | @switchBranch w i cs d _ span hi hr =>
    have hcs := value?_switch_literal (L := L) (c := c) hi cs d
    rw [hr] at hcs
    exact .inl hcs
  | vacuous hvac hrandom => exact .inr (.emptyResults hvac hrandom)
  | typeCase hf hn =>
    refine .inl ?_
    rw [value?_typeswitch hf]
    simp only [CaseHead.bind, hn]

/-- What a regular expression yields is what is presumed of it. -/
theorem Expr.Presumes.yields {e e' : Expr} (h : e.Presumes e') (he : e.Over (.regular checks L D))
    (hc : c.Declared D) (hp : c.Counts e) {v : Value} (hv : e.value? L c = some v) :
    e'.value? L c = some v := by
  cases h with
  | operands h =>
    rw [value?_connective] at hv ⊢
    obtain ⟨b, hb, rfl⟩ := Option.map_eq_some_iff.mp hv
    rw [h.decides (Expr.every_connective.mp he).2 hc hb, Option.map_some]
  | emptyRange hb =>
    obtain ⟨u, hu, hv⟩ := Option.bind_eq_some_iff.mp hv
    obtain ⟨b, hb', rfl⟩ := Option.map_eq_some_iff.mp hv
    rw [Bounds.test?_of_isEmpty hb hb']
    rfl
  | constantPosition hb =>
    rcases hp with hp | hp
    · obtain ⟨f, hf, rfl⟩ := Option.map_eq_some_iff.mp hv
      rw [positionConstant?_answer hb (hp f hf)]
      rfl
    · cases hb.symm.trans (Expr.every_position.mp hp)
  | emptyResults hvac =>
    rw [value?_vacuous he.scoped.typed hc.typed hvac hv]
    rfl
  | untrimmed hvoid hu => exact absurd hu (Expr.every_cast.mp he).1.2.2.2

/-- What a rule refuses has no value. -/
theorem Rule.refuses {e : Expr} {t : CompileError} (h : Rule checks e (.error t))
    (he : e.Over (.regular checks L D)) (hc : c.Declared D) : e.value? L c = none := by
  cases h with
  | undefinedFirst ht =>
    rw [value?_connective, truth?_cons, test?_literal_error ht]
    rfl
  | undefinedArgument ht =>
    rw [value?_call, test?_literal_error ht]
    rfl
  | castTarget ht => cases ht.symm.trans (Expr.every_cast.mp he).1.1
  | castLong hlong =>
    have he' : Expr.Over _ _ := (Expr.every_cast.mp he).2
    rw [Expr.value?, Option.bind_eq_none_iff]
    exact fun u hu => Value.cast?_long (Expr.value?_admits he'.scoped hc hu) hlong _
  | castFails hw =>
    rw [value?_cast_literal, toOption_eq_none (Value.cast_toOption _ _ _) hw]
  | compareFails ht =>
    rw [value?_compare_literals, toOption_eq_none (Value.compare_toOption _ _ _ _) ht]
    rfl
  | rangeFails ht =>
    rw [value?_range_literal, toOption_eq_none (Bounds.test_toOption _ _ _) ht]
    rfl
  | switchLong ht =>
    rw [Expr.value?, Expr.value?, Option.bind_some,
      toOption_eq_none (Value.single_toOption _ _) ht]
    rfl
  | @switchFails w i cs d span t hi ht =>
    have hcs := value?_switch_literal (L := L) (c := c) hi cs d
    rw [ht] at hcs
    exact hcs
  | noDefault hd => cases hd.symm.trans (Expr.every_typeswitch.mp he).1.1
  | rejected ht => cases ht.symm.trans ((Expr.every_external.mp he).1.1 _ _)

/-- A rule at the root of a regular expression keeps its value. -/
theorem Rule.yields {e : Expr} {r : Except CompileError Expr} (h : Rule checks e r)
    (he : e.Over (.regular checks L D)) (hc : c.Declared D) (hp : c.Counts e) {v : Value}
    (hv : e.value? L c = some v) : Yields L c r v := by
  cases r with
  | error t => cases hv.symm.trans (h.refuses he hc)
  | ok e' =>
    rcases h.keeps he.scoped.typed hc.typed with heq | hpresumes
    · exact .ok (heq ▸ hv)
    · exact .ok (hpresumes.yields he hc hp hv)

/-! ## Rewriting -/

/-- The known variables have their values, as far as an expression refers to them, and no case binds
one of them for a result that does. -/
structure Known.Holds (K : Known) (c : Context) (e : Expr) : Prop where
  lookup : ∀ p ∈ K, e.Avoids p.1 ∨ c.lookup p.1.id = some p.2
  unshadowed : ∀ p ∈ K, e.Over (.unshadowed p.1)

namespace Known.Holds

variable {K : Known}

theorem rewrites {e e' : Expr} (h : K.Holds c e) (hr : Rewrites checks K e (.ok e')) :
    K.Holds c e' :=
  ⟨fun p hp => (h.lookup p hp).imp_left hr.avoids, fun p hp => hr.unshadowed (h.unshadowed p hp)⟩

theorem plug {F : Frame} {e : Expr} (h : K.Holds c (F.plug e)) : K.Holds c e :=
  ⟨fun p hp => (h.lookup p hp).imp_left Frame.every_plug,
    fun p hp => Frame.over_plug (h.unshadowed p hp)⟩

end Known.Holds

theorem Context.lookup_bindCase {head : CaseHead} {id : Nat} (v : Value)
    (h : ∀ x, head.var = some x → x.id ≠ id) : (head.bind v c).lookup id = c.lookup id := by
  unfold CaseHead.bind
  split
  · rfl
  · rename_i x hx
    rw [Context.lookup_bind, if_neg (h x hx)]

theorem Frame.Enters.focus {F : Frame} {c' : Context} (h : F.Enters L c c') :
    c'.focus = c.focus := by
  cases F with
  | typeResult o bs head cs span =>
    obtain ⟨v, _, _, rfl⟩ := h
    unfold CaseHead.bind
    split <;> rfl
  | _ => cases h; rfl

/-- In the result of a case the known variables keep their values, as far as it refers to them. -/
theorem Known.Holds.bindCase {K : Known} {e : Expr} {cs : List (CaseHead × Expr)} {span : Span}
    (h : K.Holds c (.typeswitch e cs span)) {head : CaseHead} {r : Expr} (hp : (head, r) ∈ cs)
    (v : Value) : K.Holds (head.bind v c) r := by
  refine ⟨fun p hK => ?_, fun p hK => (Expr.every_typeswitch.mp (h.unshadowed p hK)).2.2 _ hp⟩
  rcases h.lookup p hK with hav | hl
  · exact .inl ((Expr.every_typeswitch.mp hav).2.2 _ hp)
  by_cases hs : ∃ x, head.var = some x ∧ x.same p.1 = true
  · obtain ⟨x, hx, hs⟩ := hs
    exact .inl ((h.unshadowed p hK).node _ hp x hx hs)
  · refine .inr ((Context.lookup_bindCase v fun x hx => ?_).trans hl)
    exact fun hid => hs ⟨x, hx, by simpa [Var.same] using hid⟩

/-- A part stands in a context as declared, in which the known variables have their values. -/
theorem Frame.Enters.declared {F : Frame} {e : Expr} {c' : Context} (h : F.Enters L c c')
    (he : (F.plug e).Over (.regular checks L D)) (hc : c.Declared D) {K : Known}
    (hK : K.Holds c (F.plug e)) : c'.Declared D ∧ K.Holds c' e := by
  cases F with
  | typeResult o bs head cs span =>
    obtain ⟨v, hv, hadm, rfl⟩ := h
    have hmem : (head, e) ∈ bs ++ (head, e) :: cs := by simp
    exact ⟨hc.inCase he.scoped hv hmem hadm, hK.bindCase hmem v⟩
  | _ =>
    cases h
    exact ⟨hc, hK.plug⟩

/-- In the result of a case its variable is known, too. -/
theorem Known.Holds.boundCase {K : Known} {v : Value} {cs : List (CaseHead × Expr)} {span : Span}
    {head : CaseHead} {x : Var} {r : Expr} (hkeep : r.Over (.keeping x))
    (hf : cs.find? (fun c => c.1.admits v) = some (head, r)) (hx : head.var = some x)
    (hK : K.Holds c (.typeswitch (.literal v) cs span)) :
    Known.Holds ((x, v) :: K) (c.bind x.id v) r := by
  have hmem := List.mem_of_find?_eq_some hf
  have hr := hK.bindCase hmem v
  simp only [CaseHead.bind, hx] at hr
  refine ⟨List.forall_mem_cons.mpr ⟨.inr ?_, hr.lookup⟩,
    List.forall_mem_cons.mpr ⟨hkeep.unshadowed, hr.unshadowed⟩⟩
  rw [Context.lookup_bind, if_pos rfl]

theorem Known.Holds.bound {K : Known} {v : Value} {cs : List (CaseHead × Expr)} {span : Span}
    {head : CaseHead} {x : Var} {r : Expr}
    (he : (Expr.typeswitch (.literal v) cs span).Over (.regular checks L D)) (hc : c.Declared D)
    (hf : cs.find? (fun c => c.1.admits v) = some (head, r)) (hx : head.var = some x)
    (hK : K.Holds c (.typeswitch (.literal v) cs span)) :
    (c.bind x.id v).Declared D ∧ Known.Holds ((x, v) :: K) (c.bind x.id v) r := by
  have hv : (Expr.literal v).value? L c = some v := rfl
  have hadm := List.find?_some hf
  have hdec := hc.inCase he.scoped hv (List.mem_of_find?_eq_some hf) hadm
  simp only [CaseHead.bind, hx] at hdec
  have hcase := (Expr.every_typeswitch.mp he).1.2 _ (List.mem_of_find?_eq_some hf) x hx
  exact ⟨hdec, hK.boundCase hcase.2.2 hf hx⟩

/-- Rewriting keeps the value of a regular expression. -/
theorem Rewrites.yields {K : Known} {e : Expr} {r : Except CompileError Expr}
    (h : Rewrites checks K e r) (hV : (Vocabulary.regular checks L D).Knows K)
    (he : e.Over (.regular checks L D)) (hc : c.Declared D) (hp : c.Counts e) (hK : K.Holds c e)
    {v : Value} (hv : e.value? L c = some v) : Yields L c r v := by
  -- For every context, since the result of a case is evaluated in one with its variable bound.
  induction h generalizing c v with
  | refl => exact .ok hv
  | trans h₁ _ ih₁ ih₂ =>
    obtain ⟨e', he', hv'⟩ := ih₁ hV he hc hp hK hv
    cases he'
    have ho := h₁.over Vocabulary.regular_closed hV he _ rfl
    exact ih₂ hV ho hc (hp.rewrites h₁) (hK.rewrites h₁) hv'
  | rule h => exact h.yields he hc hp hv
  | inside F _ ih =>
    refine .ok (Refines.plug (fun c' hc' w hw => ?_) v hv)
    obtain ⟨hdec, hK'⟩ := hc'.declared he hc hK
    have hp' := hp.plug.focus hc'.focus
    obtain ⟨e', he', hw'⟩ := ih hV (Frame.over_plug he) hdec hp' hK' hw
    cases he'
    exact hw'
  | @first K e t F hF _ ih =>
    -- Had the part a value, it could not have been refused; and without one the node has none.
    cases hw : e.value? L c with
    | none => rw [F.value?_first hF hw] at hv; cases hv
    | some w =>
      obtain ⟨e', he', -⟩ := ih hV (Frame.over_plug he) hc hp.plug hK.plug hw
      cases he'
  | park _ ih =>
    obtain ⟨e', he', -⟩ := ih hV he hc hp hK hv
    cases he'
  | @known K x y w span hx hs =>
    have hid : y.id = x.id := by simpa [Var.same] using hs
    have hw := (hK.lookup _ hx).resolve_left fun hav => Expr.every_var.mp hav hs
    rw [Expr.value?, hid, hw] at hv
    cases hv
    exact .ok rfl
  | bound hf hx _ hav ih =>
    obtain ⟨hV', hr⟩ := Vocabulary.regular_closed.bound hV hf hx he
    obtain ⟨hdec, hK'⟩ := hK.bound he hc hf hx
    rw [value?_typeswitch hf] at hv
    simp only [CaseHead.bind, hx] at hv
    obtain ⟨e', he', hv'⟩ := ih hV' hr hdec ((hp.typeResult hf).focus rfl) hK' hv
    cases he'
    -- Outside of the case the variable is not bound, or to something else.
    exact .ok (Refines.agree hav (Context.agreeOff_bind _ _) v hv')
  | boundFails hf hx _ ih =>
    obtain ⟨hV', hr⟩ := Vocabulary.regular_closed.bound hV hf hx he
    obtain ⟨hdec, hK'⟩ := hK.bound he hc hf hx
    rw [value?_typeswitch hf] at hv
    simp only [CaseHead.bind, hx] at hv
    obtain ⟨e', he', -⟩ := ih hV' hr hdec ((hp.typeResult hf).focus rfl) hK' hv
    cases he'

theorem Rewrites.preserves {K : Known} {e : Expr} {r : Except CompileError Expr}
    (h : Rewrites checks K e r) (hV : (Vocabulary.regular checks L D).Knows K)
    (he : e.Over (.regular checks L D)) (hc : c.Regular D) (hK : K.Holds c e) {v : Value}
    (hv : e.value? L c = some v) : Yields L c r v :=
  h.yields hV he hc.declared (.regular hc e) hK hv

/-! ## Compilation -/

/-- Compilation keeps every value. Where a regular expression yields something in a regular context
and with a steady host, it compiles, and the compiled expression yields the same. -/
theorem compile_preserves {σ : Type} {h : Host σ} (hh : h.Steady L) {e : Expr}
    (he : e.Over (.regular checks L D)) (hc : c.Regular D) {s s' : σ} {v : Value}
    (hv : e.eval h c s = (.ok v, s')) (ctx : CompileContext) :
    ∃ e', (ctx.compile checks e).1 = .ok e' ∧ ∀ s, ∃ s', e'.eval h c s = (.ok v, s') := by
  have hvalue : e.value? L c = some v := by
    have heval := Expr.eval_eq hh Vocabulary.scoped_yieldsPlain he.scoped hc.plain s
    rw [hv] at heval
    exact heval.symm
  have hr : Reaches checks [] e (e.compile checks).value := e.compile_reaches
  obtain ⟨e', he', hv'⟩ := hr.rewrites.preserves (fun p hp => nomatch hp) he hc
    ⟨fun p hp => (nomatch hp), fun p hp => (nomatch hp)⟩ hvalue
  refine ⟨e', he', fun s => ?_⟩
  have ho := hr.rewrites.over Vocabulary.regular_closed (fun p hp => nomatch hp) he e' he'
  have heval := Expr.eval_eq hh Vocabulary.scoped_yieldsPlain ho.scoped hc.plain s
  rw [hv'] at heval
  rcases outcome_cases heval with ⟨t, s', _, ho⟩ | ⟨w, s', hw, ho⟩
  · cases ho
  · cases ho
    exact ⟨s', hw⟩

/-- A function that holds of everything. -/
def truism : ExternalFn := ⟨0, "holds", .booleanOne, true⟩

/-- A conjunction of a call and of a typeswitch that compares what it binds with a variable. -/
def boundComparison : Expr :=
  let x : Var := ⟨0, "x", some (.one .integer)⟩
  let y : Var := ⟨1, "y", some (.one .integer)⟩
  .connective .conjunction
    [.call .boolean (.external truism [.var x .unknown] false .unknown) .unknown,
      .typeswitch (.literal [.integer 5])
        [(⟨some y, some (.one .integer)⟩,
          .compare .eq (.var y .unknown) (.var x .unknown) .unknown),
          (⟨none, none⟩, .literal [])] .unknown] .unknown

theorem boundComparison_over : boundComparison.Over (.regular (fun _ _ _ => .ok ())
    (fun _ _ => some (.ofBool true)) fun _ => some (.one .integer)) := by
  have hfive : Value.Plain [.integer 5] := Value.plain_singleton.mpr trivial
  have hcall : truism.IsRegular (fun _ _ _ => .ok ()) fun _ _ => some (.ofBool true) := by
    refine ⟨fun _ _ => rfl, fun vs v hv => ?_⟩
    cases hv
    exact ⟨rfl, Value.plain_ofBool true⟩
  refine Expr.every_connective.mpr ⟨trivial, List.forall_mem_cons.mpr ⟨?_, ?_⟩⟩
  · refine Expr.every_call.mpr ⟨trivial, Expr.every_external.mpr ⟨hcall, fun d hd => ?_⟩⟩
    rw [List.mem_singleton.mp hd]
    exact Expr.every_var.mpr rfl
  · refine List.forall_mem_cons.mpr ⟨?_, fun d hd => nomatch hd⟩
    refine Expr.every_typeswitch.mpr ⟨⟨rfl, ?_⟩, Expr.every_literal.mpr hfive, ?_⟩
    · refine List.forall_mem_cons.mpr ⟨fun z hz => ?_, List.forall_mem_cons.mpr ⟨?_, ?_⟩⟩
      · cases hz
        refine ⟨rfl, fun t v ht hv => ?_, ?_⟩
        · cases ht; exact hv
        · exact Expr.every_compare.mpr
            ⟨trivial, Expr.every_var.mpr trivial, Expr.every_var.mpr trivial⟩
      · intro z hz; cases hz
      · intro d hd; cases hd
    · refine List.forall_mem_cons.mpr ⟨?_, List.forall_mem_cons.mpr ⟨?_, ?_⟩⟩
      · exact Expr.every_compare.mpr
          ⟨fun _ => rfl, Expr.every_var.mpr rfl, Expr.every_var.mpr rfl⟩
      · exact Expr.every_literal.mpr Value.plain_nil
      · intro d hd; cases hd

theorem boundComparison_context :
    Context.Regular (fun _ => some (.one .integer)) ⟨[(0, [.integer 5])], none, true⟩ := by
  have hl (id : Nat) (v : Value)
      (h : (Context.mk [(0, [.integer 5])] none true).lookup id = some v) : v = [.integer 5] := by
    by_cases hid : id = 0
    · subst hid; cases h; rfl
    · have hid' : (0 == id) = false := by simpa using fun h => hid h.symm
      simp [Context.lookup, hid'] at h
  refine ⟨fun id v t hv ht => ?_, fun id v hv => ?_, fun f hf => by cases hf⟩
  · cases ht
    rw [hl id v hv]; rfl
  · rw [hl id v hv]
    exact Value.plain_singleton.mpr trivial

/-- It is true, it compiles, and it is true after compilation. -/
theorem compile_preserves_boundComparison :
    boundComparison.eval (Library.host fun _ _ => some (.ofBool true))
      ⟨[(0, [.integer 5])], none, true⟩ () = (.ok (.ofBool true), ()) ∧
    ∃ e', ((CompileContext.start {} .empty).compile (fun _ _ _ => .ok ()) boundComparison).1 =
      .ok e' ∧ ∀ s, ∃ s', e'.eval (Library.host fun _ _ => some (.ofBool true))
        ⟨[(0, [.integer 5])], none, true⟩ s = (.ok (.ofBool true), s') := by
  have hv : boundComparison.eval (Library.host fun _ _ => some (.ofBool true))
      ⟨[(0, [.integer 5])], none, true⟩ () = (.ok (.ofBool true), ()) := rfl
  exact ⟨hv, compile_preserves (Library.host_steady _) boundComparison_over
    boundComparison_context hv _⟩

end

end QueryExpr
