import QueryExpr.Proofs.Places
import QueryExpr.Proofs.Ranking
import QueryExpr.Proofs.Regular

/-!
# QueryExpr.Proofs.Grading

Expressions whose functions and variables may yield scored booleans, and what they yield.

* `Vocabulary.graded` — regular expressions, apart from what functions yield.
* `Context.Graded`    — the same for what is bound.
* `Expr.rank?_proper`, `Expr.rank?_admits`, `Expr.rank?_unscored` — scores are in range, values are
  of the static types, and there are no scores where they are left out or have no source.
-/

namespace QueryExpr

/-! ## Vocabularies and contexts -/

/-- The calls of a function are accepted. Its results are of its type, with scores in range, and
without scores if the function is no source. -/
def ExternalFn.IsGraded (fn : ExternalFn) (checks : Checks) (L : Library) (S : Scorers) : Prop :=
  (∀ es span, checks fn es span = .ok ()) ∧
    ∀ vs v, L fn.name vs = some v →
      fn.type.admits v = true ∧ v.Proper ∧ (¬ S.fn fn.name → v.Unscored)

/-- Regular expressions, apart from the results of functions. -/
def Vocabulary.graded (checks : Checks) (L : Library) (D : Declarations) (S : Scorers) :
    Vocabulary :=
  { Vocabulary.regular checks L D with fn := fun f => f.IsGraded checks L S }

/-- The bound values are of the declared types, with scores in range, and without scores if the
variable is no source. -/
structure Context.Graded (S : Scorers) (D : Declarations) (c : Context) : Prop where
  conforms : c.Conforms D
  proper : c.Only Value.Proper
  unscored : ∀ id v, c.lookup id = some v → ¬ S.var id → v.Unscored

section
variable {checks : Checks} {L : Library} {D : Declarations} {S : Scorers}
  {R : Connective → Expr → Expr → Prop} {m : Bool}
  {k : Connective} {p : Place} {c : Context} {e : Expr}

theorem Context.Graded.bind {x : Var} {v : Value} (hc : c.Graded S D) (hx : D.Binds x v)
    (hv : v.Proper) (hs : ¬ S.var x.id → v.Unscored) : (c.bind x.id v).Graded S D := by
  refine ⟨hc.conforms.bind fun t ht => hx.2 t (hx.1.trans ht), hc.proper.bind _ hv, ?_⟩
  intro id w hw hid
  rw [Context.lookup_bind] at hw
  split at hw
  · rename_i h; cases hw; subst h; exact hs hid
  · exact hc.unscored id w hw hid

theorem CaseHead.bind_cases {P : Context → Prop} {head : CaseHead} {v : Value} (hc : P c)
    (h : ∀ x, head.var = some x → P (c.bind x.id v)) : P (head.bind v c) := by
  unfold CaseHead.bind
  split
  · exact hc
  · rename_i x hx; exact h x hx

/-- No function yields anything. -/
def Library.silent : Library := fun _ _ => none

/-- A function that is called without a result is regular. -/
theorem Expr.Over.regular (he : e.Over (.graded checks L D S)) :
    e.Over (.regular checks .silent D) := by
  refine he.imp fun n hn => ?_
  cases n with
  | external fn es tail span => exact ⟨hn.1, fun _ _ h => nomatch h⟩
  | _ => exact hn

/-- Expressions that call certain functions only. -/
def Vocabulary.calling (P : ExternalFn → Prop) : Vocabulary where
  var _ := True
  fn := P
  cases _ := True
  left _ _ := True
  target _ := True
  value _ := True
  known _ _ := True
  parked _ := True

theorem Vocabulary.calling_closed (P : ExternalFn → Prop) :
    (Vocabulary.calling P).Closed checks where
  empty := trivial
  ofBool _ := trivial
  truth _ _ := trivial
  append _ _ := trivial
  cast _ _ _ := trivial
  parked _ := trivial
  known _ := trivial
  binds _ _ _ _ _ := trivial
  left _ _ _ _ := trivial
  case _ _ _ _ := trivial

theorem Expr.over_graded : e.Over (.graded checks L D S) ↔
    e.Over (.regular checks .silent D) ∧ e.Over (.calling fun f => f.IsGraded checks L S) := by
  refine ⟨fun he => ⟨he.regular, he.imp fun n hn => ?_⟩, fun he n hn => ?_⟩
  · cases n with
    | external fn es tail span => exact hn
    | _ => trivial
  · have hr := he.1 n hn
    have hf := he.2 n hn
    cases n with
    | external fn es tail span => exact hf
    | _ => exact hr

/-- Rewriting keeps what is known of functions and their results. -/
theorem Rewrites.graded {K : Known} {e' : Expr} (h : Rewrites checks K e (.ok e'))
    (hK : (Vocabulary.regular checks .silent D).Knows K) (he : e.Over (.graded checks L D S)) :
    e'.Over (.graded checks L D S) := by
  obtain ⟨hr, hf⟩ := Expr.over_graded.mp he
  exact Expr.over_graded.mpr ⟨h.over Vocabulary.regular_closed hK hr e' rfl,
    h.over (Vocabulary.calling_closed _) (fun _ _ => trivial) hf e' rfl⟩

/-! ## Answers -/

theorem Expr.Answers.rank?_ofBool {v : Value} (hv : e.rank? L m c = some v) (he : e.Answers) :
    ∃ b, v = .ofBool b := by
  cases e with
  | call fn e span =>
    cases fn with
    | boolean => exact he.elim
    | not =>
      rw [rank?_not] at hv
      obtain ⟨b, -, rfl⟩ := Option.map_eq_some_iff.mp hv
      exact ⟨_, rfl⟩
  | compare op l r span =>
    obtain ⟨w, -, hv⟩ := Option.bind_eq_some_iff.mp hv
    obtain ⟨u, -, hv⟩ := Option.bind_eq_some_iff.mp hv
    obtain ⟨b, -, rfl⟩ := Option.map_eq_some_iff.mp hv
    exact ⟨b, rfl⟩
  | range b e span =>
    obtain ⟨w, -, hv⟩ := Option.bind_eq_some_iff.mp hv
    obtain ⟨b, -, rfl⟩ := Option.map_eq_some_iff.mp hv
    exact ⟨b, rfl⟩
  | position a b span =>
    obtain ⟨f, -, rfl⟩ := Option.map_eq_some_iff.mp hv
    exact ⟨_, rfl⟩
  | failing t type span => cases hv
  | _ => exact he.elim

/-- Scores that are left out do not matter to an answer. -/
theorem Expr.Answers.rank?_mute {v : Value} (hv : e.rank? L m c = some v) (he : e.Answers)
    (m' : Bool) : e.rank? L m' c = some v := by
  cases e with
  | call fn e span =>
    cases fn with
    | boolean => exact he.elim
    | not => rwa [rank?_not] at hv ⊢
  | compare | range | position | failing => rwa [Expr.rank?] at hv ⊢
  | _ => exact he.elim

/-! ## Without scores -/

/-- Operands without scores decide a connective or change nothing, whatever was before. -/
theorem tally?_unscored {es : List Expr}
    (h : ∀ e ∈ es, ∀ v, e.rank? L m c = some v → v.Unscored) {a a' : Truth}
    (ha : a.score.Proper) (ha' : a'.score.Proper) :
    tally? L m k es a c = (tally? L m k es a' c).map (·.map fun _ => a) := by
  induction es with
  | nil => rw [tally?, tally?]; rfl
  | cons e es ih =>
    obtain ⟨he, hes⟩ := List.forall_mem_cons.mp h
    rw [tally?_cons, tally?_cons]
    cases hb : e.grade? L m c with
    | none => rfl
    | some b =>
      obtain ⟨v, hv, hb⟩ := Option.bind_eq_some_iff.mp hb
      rw [(he v hv).grade? hb, Option.bind_some, Option.bind_some, Connective.add?_plain ha,
        Connective.add?_plain ha']
      split
      · rfl
      · exact ih hes

theorem tally?_unscored_cases {es : List Expr}
    (h : ∀ e ∈ es, ∀ v, e.rank? L m c = some v → v.Unscored) {a : Truth}
    (ha : a.score.Proper) {o : Option Truth} (ho : tally? L m k es a c = some o) :
    o = none ∨ o = some a := by
  rw [tally?_unscored h ha ha] at ho
  obtain ⟨o', _, rfl⟩ := Option.map_eq_some_iff.mp ho
  cases o' with
  | none => exact .inl rfl
  | some a' => exact .inr rfl

theorem connective_unscored {es : List Expr}
    (h : ∀ e ∈ es, ∀ v, e.rank? L m c = some v → v.Unscored) {span : Span} {v : Value}
    (hv : (Expr.connective k es span).rank? L m c = some v) : v.Unscored := by
  rw [rank?_connective] at hv
  obtain ⟨o, ho, rfl⟩ := Option.map_eq_some_iff.mp hv
  rcases tally?_unscored_cases h k.start_proper.1 ho with rfl | rfl
  · exact Value.unscored_ofBool _
  · exact Value.unscored_ofBool _

theorem caseRank?_result {i : Option Item} {o : Option Value} {cs : List (Expr × Expr)} {w : Value}
    (h : caseRank? L m i o cs c = some w) :
    o = some w ∨ ∃ p ∈ cs, p.2.rank? L m c = some w := by
  induction cs with
  | nil => exact .inl h
  | cons p cs ih =>
    obtain ⟨j, _, h⟩ := Option.bind_eq_some_iff.mp h
    split at h
    · exact .inr ⟨p, List.mem_cons_self .., h⟩
    · rcases ih h with h | ⟨q, hq, h⟩
      · exact .inl h
      · exact .inr ⟨q, List.mem_cons_of_mem _ hq, h⟩

theorem typeCaseRank?_result {v w : Value} {cs : List (CaseHead × Expr)}
    (h : typeCaseRank? L m v cs c = some w) :
    ∃ p ∈ cs, p.1.admits v = true ∧ p.2.rank? L m (p.1.bind v c) = some w := by
  induction cs with
  | nil => cases h
  | cons p cs ih =>
    rw [typeCaseRank?] at h
    split at h
    · rename_i hadm; exact ⟨p, List.mem_cons_self .., hadm, h⟩
    · obtain ⟨q, hq, h⟩ := ih h
      exact ⟨q, List.mem_cons_of_mem _ hq, h⟩

/-! ## Scores in range -/

theorem tally?_reached {es : List Expr}
    (h : ∀ e ∈ es, ∀ v, e.rank? L m c = some v → v.Proper) {a : Truth} (ha : k.Reached a)
    {o : Option Truth} (ho : tally? L m k es a c = some o) : ∀ a', o = some a' → k.Reached a' := by
  induction es generalizing a with
  | nil =>
    rw [tally?, Option.some.injEq] at ho
    intro a' ha'
    rw [← ho, Option.some.injEq] at ha'
    rw [← ha']
    exact ha
  | cons e es ih =>
    obtain ⟨he, hes⟩ := List.forall_mem_cons.mp h
    rw [tally?_cons] at ho
    obtain ⟨b, hb, ho⟩ := Option.bind_eq_some_iff.mp ho
    obtain ⟨v, hv, hb⟩ := Option.bind_eq_some_iff.mp hb
    cases hadd : k.add? a b with
    | none =>
      rw [hadd] at ho
      cases ho
      exact fun _ h => by cases h
    | some a' =>
      rw [hadd] at ho
      exact ih hes (Connective.add?_reached ha ((he v hv).grade? hb) hadd) ho

/-- All scores are in range. -/
theorem Expr.rank?_proper (he : e.Over (.graded checks L D S)) (hc : c.Only Value.Proper)
    {v : Value} (hv : e.rank? L m c = some v) : v.Proper := by
  induction e generalizing m c v with
  | connective k es span ih =>
    have hes := (Expr.every_connective.mp he).2
    rw [rank?_connective] at hv
    obtain ⟨o, ho, rfl⟩ := Option.map_eq_some_iff.mp hv
    refine Value.proper_ofTruth.mpr (Connective.Reached.outcome ?_)
    exact tally?_reached (fun e hm v hv => ih e hm (hes e hm) hc hv) k.start_reached ho
  | switch e cs d span _ ihcs ihd =>
    obtain ⟨-, -, hcs, hd⟩ := Expr.every_switch.mp he
    obtain ⟨w, -, hv⟩ := Option.bind_eq_some_iff.mp hv
    obtain ⟨i, -, hv⟩ := Option.bind_eq_some_iff.mp hv
    rcases caseRank?_result hv with hv | ⟨p, hp, hv⟩
    · exact ihd hd hc hv
    · exact (ihcs p hp).2 (hcs p hp).2 hc hv
  | typeswitch e cs span ihe ihcs =>
    obtain ⟨-, he, hcs⟩ := Expr.every_typeswitch.mp he
    obtain ⟨w, hw, hv⟩ := Option.bind_eq_some_iff.mp hv
    obtain ⟨p, hp, -, hv⟩ := typeCaseRank?_result hv
    exact ihcs p hp (hcs p hp) (hc.bindCase (ihe he hc hw) p.1) hv
  | call fn e span ih =>
    have he' := (Expr.every_call.mp he).2
    cases fn with
    | boolean =>
      rw [rank?_boolean] at hv
      obtain ⟨b, hb, rfl⟩ := Option.map_eq_some_iff.mp hv
      obtain ⟨w, hw, hb⟩ := Option.bind_eq_some_iff.mp hb
      exact Value.proper_ofTruth.mpr ((ih he' hc hw).grade? hb)
    | not =>
      obtain ⟨b, rfl⟩ := Answers.rank?_ofBool hv trivial
      exact (Value.unscored_ofBool b).proper
  | cast e t span _ =>
    obtain ⟨w, -, hv⟩ := Option.bind_eq_some_iff.mp hv
    exact (Value.cast_unscored (toOption_eq_some_iff.mp hv)).proper
  | compare | range | position =>
    obtain ⟨b, rfl⟩ := Answers.rank?_ofBool hv trivial
    exact (Value.unscored_ofBool b).proper
  | literal w =>
    cases hv
    have hw : w.Plain := Expr.every_literal.mp he
    exact hw.unscored.proper.kept m
  | var x span =>
    obtain ⟨w, hw, rfl⟩ := Option.map_eq_some_iff.mp hv
    exact (hc _ _ hw).kept m
  | external fn es tail span _ =>
    obtain ⟨w, hw, rfl⟩ := Option.map_eq_some_iff.mp hv
    obtain ⟨vs, -, hw⟩ := Option.bind_eq_some_iff.mp hw
    exact ((Expr.every_external.mp he).1.2 vs w hw).2.1.kept m
  | failing t type span => cases hv

/-! ## Types -/

/-- Values are instances of the static types. -/
theorem Expr.rank?_admits (he : e.Over (.graded checks L D S)) (hc : c.Conforms D) {v : Value}
    (hv : e.rank? L m c = some v) : e.type.admits v = true := by
  induction e generalizing m c v with
  | connective k es span _ =>
    rw [rank?_connective] at hv
    obtain ⟨o, _, rfl⟩ := Option.map_eq_some_iff.mp hv
    exact ofTruth_admits _
  | switch e cs d span _ ihcs ihd =>
    obtain ⟨-, -, hcs, hd⟩ := Expr.every_switch.mp he
    obtain ⟨w, -, hv⟩ := Option.bind_eq_some_iff.mp hv
    obtain ⟨i, -, hv⟩ := Option.bind_eq_some_iff.mp hv
    refine switchType_admits ?_
    rcases caseRank?_result hv with hv | ⟨p, hp, hv⟩
    · exact .inl (ihd hd hc hv)
    · exact .inr ⟨p, hp, (ihcs p hp).2 (hcs p hp).2 hc hv⟩
  | typeswitch e cs span _ ihcs =>
    obtain ⟨hn, -, hcs⟩ := Expr.every_typeswitch.mp he
    obtain ⟨w, -, hv⟩ := Option.bind_eq_some_iff.mp hv
    obtain ⟨p, hp, hadm, hv⟩ := typeCaseRank?_result hv
    refine typeswitchType_admits (.inr ⟨p, hp, ihcs p hp (hcs p hp) ?_ hv⟩)
    refine CaseHead.bind_cases hc fun x hx => hc.bind fun t ht => ?_
    obtain ⟨hd, hb, _⟩ := hn.2 p hp x hx
    exact hb t w (hd.trans ht) hadm
  | cast e t span _ =>
    obtain ⟨w, -, hv⟩ := Option.bind_eq_some_iff.mp hv
    exact SeqType.castTarget_admits (Expr.every_cast.mp he).1.1 (toOption_eq_some_iff.mp hv)
  | call fn e span _ =>
    cases fn with
    | boolean =>
      rw [rank?_boolean] at hv
      obtain ⟨b, _, rfl⟩ := Option.map_eq_some_iff.mp hv
      exact ofTruth_admits _
    | not =>
      obtain ⟨b, rfl⟩ := Answers.rank?_ofBool hv trivial
      exact ofTruth_admits _
  | compare | range | position =>
    obtain ⟨b, rfl⟩ := Answers.rank?_ofBool hv trivial
    exact ofTruth_admits _
  | literal w =>
    cases hv
    exact (Value.admits_kept _ _ _).trans (Value.admits_type w)
  | var x span =>
    have hx : x.type = D x.id := Expr.every_var.mp he
    obtain ⟨w, hw, rfl⟩ := Option.map_eq_some_iff.mp hv
    rw [Value.admits_kept, Expr.type, Var.seqType, hx]
    cases hD : D x.id with
    | none => exact SeqType.anyItems_admits _
    | some t => exact hc _ _ t hw hD
  | external fn es tail span _ =>
    obtain ⟨w, hw, rfl⟩ := Option.map_eq_some_iff.mp hv
    obtain ⟨vs, -, hw⟩ := Option.bind_eq_some_iff.mp hw
    rw [Value.admits_kept]
    exact ((Expr.every_external.mp he).1.2 vs w hw).1
  | failing t type span => cases hv

/-! ## Silent expressions -/

/-- What is bound for the result of a case is as declared, too. -/
theorem Context.Graded.inCase {cs : List (CaseHead × Expr)} {span : Span}
    (hc : c.Graded S D) (he : (Expr.typeswitch e cs span).Over (.graded checks L D S))
    (hr : (Expr.typeswitch e cs span).Ranked R S p) {v : Value} (hv : e.rank? L false c = some v)
    (hs : e.Silent S → v.Unscored) {q : CaseHead × Expr} (hq : q ∈ cs)
    (hadm : q.1.admits v = true) : (q.1.bind v c).Graded S D := by
  obtain ⟨hn, he, -⟩ := Expr.every_typeswitch.mp he
  refine CaseHead.bind_cases hc fun x hx => ?_
  obtain ⟨hd, hb, _⟩ := hn.2 q hq x hx
  refine hc.bind ⟨hd, fun t ht => hb t v ht hadm⟩ (Expr.rank?_proper he hc.proper hv) fun hns => ?_
  cases hr with
  | typeswitch _ _ _ hx' => exact hs (hx'.resolve_right fun h => hns (h q hq x hx))

/-- There are no scores where they are left out, and none without a source. -/
theorem Expr.rank?_unscored (he : e.Over (.graded checks L D S)) (hr : e.Ranked R S p)
    (hc : c.Graded S D) (hs : m = true ∨ e.Silent S) {v : Value}
    (hv : e.rank? L m c = some v) : v.Unscored := by
  have kept {v : Value} (hv : ¬ m = true → v.Unscored) : (v.kept m).Unscored := by
    cases m with
    | true => exact v.bare_unscored
    | false => exact hv (by decide)
  induction e generalizing m p c v with
  | connective k es span ih =>
    have hes := (Expr.every_connective.mp he).2
    refine connective_unscored (fun e hm v hv => ?_) hv
    exact ih e hm (hes e hm) (hr.part hm) hc (hs.imp_right fun h => h.part hm) hv kept
  | switch e cs d span _ ihcs ihd =>
    obtain ⟨-, -, hcs, hd⟩ := Expr.every_switch.mp he
    obtain ⟨w, -, hv⟩ := Option.bind_eq_some_iff.mp hv
    obtain ⟨i, -, hv⟩ := Option.bind_eq_some_iff.mp hv
    rcases caseRank?_result hv with hv | ⟨q, hq, hv⟩
    · have hmem : d ∈ (Expr.switch e cs d span).scoreParts := List.mem_cons_self ..
      exact ihd hd (hr.part hmem) hc (hs.imp_right fun h => h.part hmem) hv kept
    · have hmem : q.2 ∈ (Expr.switch e cs d span).scoreParts :=
        List.mem_cons_of_mem _ (List.mem_map.mpr ⟨q, hq, rfl⟩)
      exact (ihcs q hq).2 (hcs q hq).2 (hr.part hmem) hc (hs.imp_right fun h => h.part hmem) hv kept
  | typeswitch e cs span ihe ihcs =>
    obtain ⟨-, he', hcs⟩ := Expr.every_typeswitch.mp he
    obtain ⟨w, hw, hv⟩ := Option.bind_eq_some_iff.mp hv
    obtain ⟨q, hq, hadm, hv⟩ := typeCaseRank?_result hv
    have hmem : q.2 ∈ (Expr.typeswitch e cs span).scoreParts := List.mem_map.mpr ⟨q, hq, rfl⟩
    have hoperand : e.Ranked R S .exposed := by cases hr; assumption
    have hc' := hc.inCase he hr hw (fun h => ihe he' hoperand hc (.inr h) hw fun hv => hv nofun) hq
      hadm
    exact ihcs q hq (hcs q hq) (hr.part hmem) hc' (hs.imp_right fun h => h.part hmem) hv kept
  | cast e t span _ =>
    obtain ⟨w, -, hv⟩ := Option.bind_eq_some_iff.mp hv
    exact Value.cast_unscored (toOption_eq_some_iff.mp hv)
  | call fn e span ih =>
    cases fn with
    | boolean =>
      have hmem : e ∈ (Expr.call .boolean e span).scoreParts := List.mem_singleton_self e
      rw [rank?_boolean] at hv
      obtain ⟨b, hb, rfl⟩ := Option.map_eq_some_iff.mp hv
      obtain ⟨w, hw, hb⟩ := Option.bind_eq_some_iff.mp hb
      have hwu := ih (Expr.every_call.mp he).2 (hr.part hmem) hc
        (hs.imp_right fun h => h.part hmem) hw kept
      rw [hwu.grade? hb]
      exact Value.unscored_ofBool _
    | not =>
      obtain ⟨b, rfl⟩ := Answers.rank?_ofBool hv trivial
      exact Value.unscored_ofBool b
  | compare | range | position =>
    obtain ⟨b, rfl⟩ := Answers.rank?_ofBool hv trivial
    exact Value.unscored_ofBool b
  | literal w =>
    cases hv
    have hw : w.Plain := Expr.every_literal.mp he
    exact kept fun _ => hw.unscored
  | var x span =>
    obtain ⟨w, hw, rfl⟩ := Option.map_eq_some_iff.mp hv
    exact kept fun hm => hc.unscored _ _ hw fun hx => hs.resolve_left hm _ (.self _) hx
  | external fn es tail span _ =>
    obtain ⟨w, hw, rfl⟩ := Option.map_eq_some_iff.mp hv
    obtain ⟨vs, -, hw⟩ := Option.bind_eq_some_iff.mp hw
    exact kept fun hm => ((Expr.every_external.mp he).1.2 vs w hw).2.2 fun hf =>
      hs.resolve_left hm _ (.self _) hf
  | failing t type span => cases hv

/-- What is bound for the result of a case. -/
theorem Context.Graded.bindCase {cs : List (CaseHead × Expr)} {span : Span} (hc : c.Graded S D)
    (he : (Expr.typeswitch e cs span).Over (.graded checks L D S))
    (hr : (Expr.typeswitch e cs span).Ranked R S p) {v : Value} (hv : e.rank? L false c = some v)
    {q : CaseHead × Expr} (hq : q ∈ cs) (hadm : q.1.admits v = true) :
    (q.1.bind v c).Graded S D := by
  refine hc.inCase he hr hv (fun hs => ?_) hq hadm
  have hoperand : e.Ranked R S .exposed := by cases hr; assumption
  exact Expr.rank?_unscored (Expr.every_typeswitch.mp he).2.1 hoperand hc (.inr hs) hv

end

end QueryExpr
