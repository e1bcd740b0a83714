import QueryExpr.Compile.Inline
import QueryExpr.Fingerprint
import QueryExpr.Proofs.Same
import QueryExpr.Proofs.Wording

/-!
# QueryExpr.Proofs.Description

When two equal trees have one description.

* `attributesOf_inj`       — attributes with different keys are known from the list they make.
* `Expr.ReadsLike`         — two equal trees agree in what a description adds to equality.
* `Expr.describe_of_same`  — two equal trees have one description exactly if they do.

Spans of nodes are in no description. What equality leaves out and a description has is: the names
of variables, the declared types and the tail marks of external calls, the signs of zeros, and the
places in the messages of parked causes.
-/

namespace QueryExpr

/-! ## Attributes -/

/-- The attributes that a list of settings makes. -/
def attributesOf (kvs : List (String × String)) : List (String × String) :=
  kvs.foldl (fun as kv => setAttribute kv.1 kv.2 as) []

theorem lookup_cons_if (j k v : String) (as : List (String × String)) :
    ((k, v) :: as).lookup j = if j = k then some v else as.lookup j := by
  rw [List.lookup_cons]
  by_cases h : j = k
  · simp [h]
  · simp [h, beq_eq_false_iff_ne.mpr h]

theorem lookup_of_not_mem {k : String} {as : List (String × String)} (h : k ∉ as.map Prod.fst) :
    as.lookup k = none := by
  rw [List.lookup_eq_none_iff]
  rintro ⟨l, v⟩ hp
  rw [bne_iff_ne]
  rintro rfl
  exact h (List.mem_map_of_mem hp)

theorem lookup_setAttribute (k v j : String) (as : List (String × String)) :
    (setAttribute k v as).lookup j = if j = k then some v else as.lookup j := by
  induction as with
  | nil => rw [setAttribute, lookup_cons_if]
  | cons a as ih =>
    obtain ⟨k', v'⟩ := a
    rw [setAttribute]
    split
    · rw [lookup_cons_if]
    · split
      · rename_i hk
        subst hk
        simp only [lookup_cons_if]
        split <;> rfl
      · rename_i hk
        simp only [lookup_cons_if, ih]
        by_cases hj : j = k'
        · simp [hj, Ne.symm hk]
        · simp [hj]

/-- A setting whose key occurs once is in the list that is made. -/
theorem lookup_settings {kvs : List (String × String)} (h : (kvs.map Prod.fst).Nodup)
    (as : List (String × String)) (j : String) :
    (kvs.foldl (fun as kv => setAttribute kv.1 kv.2 as) as).lookup j =
      (kvs.lookup j).or (as.lookup j) := by
  induction kvs generalizing as with
  | nil => rfl
  | cons kv kvs ih =>
    obtain ⟨k, v⟩ := kv
    rw [List.map_cons, List.nodup_cons] at h
    rw [List.foldl_cons, ih h.2, lookup_setAttribute, lookup_cons_if]
    by_cases hj : j = k
    · rw [if_pos hj, if_pos hj, hj, lookup_of_not_mem h.1]
      rfl
    · simp [hj]

/-- Settings of the same different keys are known from their values. -/
theorem eq_of_lookup {ks ls : List (String × String)} (hkeys : ks.map Prod.fst = ls.map Prod.fst)
    (hnodup : (ks.map Prod.fst).Nodup) (h : ∀ j, ks.lookup j = ls.lookup j) : ks = ls := by
  induction ks generalizing ls with
  | nil => exact (List.map_eq_nil_iff.mp hkeys.symm).symm
  | cons p ks ih =>
    cases ls with
    | nil => simp at hkeys
    | cons q ls =>
      obtain ⟨k, v⟩ := p
      obtain ⟨l, w⟩ := q
      simp only [List.map_cons, List.cons.injEq] at hkeys
      obtain ⟨rfl, hkeys⟩ := hkeys
      rw [List.map_cons, List.nodup_cons] at hnodup
      obtain rfl : v = w := by simpa [lookup_cons_if] using h k
      refine congrArg _ (ih hkeys hnodup.2 fun j => ?_)
      by_cases hj : j = k
      · rw [hj, lookup_of_not_mem hnodup.1, lookup_of_not_mem (hkeys ▸ hnodup.1)]
      · simpa [lookup_cons_if, hj] using h j

theorem attributesOf_inj {ks ls : List (String × String)}
    (hkeys : ks.map Prod.fst = ls.map Prod.fst) (hnodup : (ks.map Prod.fst).Nodup) :
    attributesOf ks = attributesOf ls ↔ ks = ls := by
  refine ⟨fun h => eq_of_lookup hkeys hnodup fun j => ?_, fun h => h ▸ rfl⟩
  have hk : (attributesOf ks).lookup j = ks.lookup j := by
    rw [attributesOf, lookup_settings hnodup]; simp
  have hl : (attributesOf ls).lookup j = ls.lookup j := by
    rw [attributesOf, lookup_settings (hkeys ▸ hnodup)]; simp
  rw [← hk, ← hl, h]

/-! ## Nodes -/

namespace Kind

/-- The keys of the attributes of a kind of nodes. -/
def keys : Kind → List String
  | .cast => ["type"]
  | .comparison => ["op"]
  | .range => ["min", "max", "min_inclusive", "max_inclusive"]
  | .position => ["min", "max"]
  | .literal => ["value", "type"]
  | .var => ["name", "id"]
  | .external => ["name", "type", "tail"]
  | .failing => ["code", "error"]
  | _ => []

theorem keys_nodup (k : Kind) : k.keys.Nodup := by
  cases k <;> decide

end Kind

theorem PlanNode.attrs_leaf (name : String) (kvs : List (String × String)) :
    (leaf name).attrs kvs = .node name (attributesOf kvs) [] := by
  suffices h : ∀ as, (PlanNode.node name as []).attrs kvs =
      .node name (kvs.foldl (fun as kv => setAttribute kv.1 kv.2 as) as) [] from h []
  induction kvs with
  | nil => exact fun _ => rfl
  | cons kv kvs ih => exact fun as => ih (setAttribute kv.1 kv.2 as)

namespace Expr

theorem map_fst_attributes (e : Expr) : e.attributes.map Prod.fst = e.kind.keys := by
  cases e with
  | connective c es span => cases c <;> rfl
  | call fn e span => cases fn <;> rfl
  | _ => rfl

theorem describeOver_eq (e : Expr) (cs : List PlanNode) :
    e.describeOver cs = .node e.kind.name (attributesOf e.attributes) cs := by
  rw [describeOver, PlanNode.attrs_leaf]
  rfl

/-- Two nodes of one kind are described alike if they say the same of themselves and their operands
are described alike. -/
theorem describeOver_eq_iff {a b : Expr} (h : a.kind = b.kind) {cs ds : List PlanNode} :
    a.describeOver cs = b.describeOver ds ↔ a.attributes = b.attributes ∧ cs = ds := by
  have hkeys : a.attributes.map Prod.fst = b.attributes.map Prod.fst := by
    rw [map_fst_attributes, map_fst_attributes, h]
  have hnodup : (a.attributes.map Prod.fst).Nodup := by
    rw [map_fst_attributes]; exact a.kind.keys_nodup
  rw [describeOver_eq, describeOver_eq, h]
  simp [attributesOf_inj hkeys hnodup]

end Expr

/-- The variables of two equal case heads have one name. -/
def CaseHead.ReadsLike (h k : CaseHead) : Prop := h.var.map Var.name = k.var.map Var.name

theorem CaseHead.describe_eq_iff {h k : CaseHead} (hhk : h.same k = true) {p q : PlanNode} :
    h.describe p = k.describe q ↔ h.ReadsLike k ∧ p = q := by
  obtain ⟨v, t⟩ := h
  obtain ⟨w, u⟩ := k
  simp only [same, Bool.and_eq_true, beq_iff_eq] at hhk
  obtain ⟨hvar, rfl⟩ := hhk
  simp only [describe, PlanNode.attrs_leaf, PlanNode.withChildren, List.nil_append,
    PlanNode.node.injEq, true_and, List.cons.injEq, and_true]
  refine and_congr_left fun _ => ?_
  cases v with
  | none =>
    cases w with
    | none => simp [ReadsLike]
    | some w => simp [sameVar?] at hvar
  | some v =>
    cases w with
    | none => simp [sameVar?] at hvar
    | some w =>
      rw [attributesOf_inj (by cases t <;> rfl) (by cases t <;> simp)]
      simp [ReadsLike]

/-! ## Trees -/

mutual

/-- Two equal trees agree in what a description adds to equality: names of variables, declared types
and marks of external calls, numbers that are written out, and places that messages name. -/
def Expr.ReadsLike : Expr → Expr → Prop
  | .connective _ es _, .connective _ es' _ => allReadLike es es'
  | .switch e cs d _, .switch e' cs' d' _ =>
    e.ReadsLike e' ∧ allCasesReadLike cs cs' ∧ d.ReadsLike d'
  | .typeswitch e cs _, .typeswitch e' cs' _ => e.ReadsLike e' ∧ allTypeCasesReadLike cs cs'
  | .cast e _ _, .cast e' _ _ => e.ReadsLike e'
  | .call _ e _, .call _ e' _ => e.ReadsLike e'
  | .compare _ l r _, .compare _ l' r' _ => l.ReadsLike l' ∧ r.ReadsLike r'
  | .range b e _, .range b' e' _ => b = b' ∧ e.ReadsLike e'
  | .position _ _ _, .position _ _ _ => True
  | .literal v, .literal v' => v.ReadsLike v'
  | .var v _, .var v' _ => v.name = v'.name
  | .external fn es tail _, .external fn' es' tail' _ =>
    fn.type.text = fn'.type.text ∧ tail = tail' ∧ allReadLike es es'
  | .failing c _ _, .failing c' _ _ => c.place.Alike c'.place
  | _, _ => False
termination_by structural e => e

def allReadLike : List Expr → List Expr → Prop
  | [], [] => True
  | e :: es, e' :: es' => e.ReadsLike e' ∧ allReadLike es es'
  | _, _ => False
termination_by structural es => es

def allCasesReadLike : List (Expr × Expr) → List (Expr × Expr) → Prop
  | [], [] => True
  | (v, r) :: cs, (v', r') :: cs' => v.ReadsLike v' ∧ r.ReadsLike r' ∧ allCasesReadLike cs cs'
  | _, _ => False
termination_by structural cs => cs

def allTypeCasesReadLike : List (CaseHead × Expr) → List (CaseHead × Expr) → Prop
  | [], [] => True
  | (h, r) :: cs, (h', r') :: cs' =>
    h.ReadsLike h' ∧ r.ReadsLike r' ∧ allTypeCasesReadLike cs cs'
  | _, _ => False
termination_by structural cs => cs

end

theorem describeAll_eq_iff {es ds : List Expr}
    (h : List.Forall₂ (fun e d => e.describe = d.describe ↔ e.ReadsLike d) es ds) :
    describeAll es = describeAll ds ↔ allReadLike es ds := by
  induction h with
  | nil => simp [describeAll, allReadLike]
  | cons he _ ih => simp only [describeAll, allReadLike, List.cons.injEq, he, ih]

theorem describeCases_eq_iff {cs ds : List (Expr × Expr)}
    (h : List.Forall₂ (fun p q => (p.1.describe = q.1.describe ↔ p.1.ReadsLike q.1) ∧
      (p.2.describe = q.2.describe ↔ p.2.ReadsLike q.2)) cs ds) :
    describeCases cs = describeCases ds ↔ allCasesReadLike cs ds := by
  induction h with
  | nil => simp [describeCases, allCasesReadLike]
  | cons hp _ ih => simp only [describeCases, allCasesReadLike, List.cons.injEq, hp.1, hp.2, ih]

theorem describeTypeCases_eq_iff {cs ds : List (CaseHead × Expr)}
    (h : List.Forall₂ (fun p q => p.1.same q.1 = true ∧
      (p.2.describe = q.2.describe ↔ p.2.ReadsLike q.2)) cs ds) :
    describeTypeCases cs = describeTypeCases ds ↔ allTypeCasesReadLike cs ds := by
  induction h with
  | nil => simp [describeTypeCases, allTypeCasesReadLike]
  | cons hp _ ih =>
    simp only [describeTypeCases, allTypeCasesReadLike, List.cons.injEq,
      CaseHead.describe_eq_iff hp.1, hp.2, ih, and_assoc]

theorem Expr.describe_iff {a b : Expr} (h : a.same b = true) :
    a.describe = b.describe ↔ a.ReadsLike b := by
  refine same_induction (p := fun _ => True) (q := fun _ => True)
    (motive := fun a b => a.describe = b.describe ↔ a.ReadsLike b) ?connective ?switch ?typeswitch
    ?cast ?call ?compare ?range ?position ?literal ?var ?external ?failing
    (fun _ _ => trivial) (fun _ _ => trivial) h
  case connective =>
    intro k es ds s s' h
    rw [describe, describe, describeOver_eq_iff (by rfl), ReadsLike, describeAll_eq_iff h]
    simp [attributes]
  case switch =>
    intro e d cs ds o o' s s' he hcs ho
    rw [describe, describe, describeOver_eq_iff (by rfl), ReadsLike, ← he,
      ← describeCases_eq_iff hcs, ← ho]
    simp [attributes]
  case typeswitch =>
    intro e d cs ds s s' he hcs
    rw [describe, describe, describeOver_eq_iff (by rfl), ReadsLike, ← he,
      ← describeTypeCases_eq_iff hcs]
    simp [attributes]
  case cast =>
    intro e d t s s' he
    rw [describe, describe, describeOver_eq_iff (by rfl), ReadsLike, ← he]
    simp [attributes]
  case call =>
    intro fn e d s s' he
    rw [describe, describe, describeOver_eq_iff (by rfl), ReadsLike, ← he]
    simp [attributes]
  case compare =>
    intro op l l' r r' s s' hl hr
    rw [describe, describe, describeOver_eq_iff (by rfl), ReadsLike, ← hl, ← hr]
    simp [attributes]
  case range =>
    intro b b' e d s s' hb he
    have hincl : b.minInclusive = b'.minInclusive ∧ b.maxInclusive = b'.maxInclusive := by
      simp only [Bounds.same, Bool.and_eq_true, beq_iff_eq] at hb
      exact ⟨hb.1.1.2, hb.2⟩
    rw [describe, describe, describeOver_eq_iff (by rfl), ReadsLike, ← he, ← Bounds.texts_eq_iff hb]
    simp [attributes, hincl]
  case position => exact iff_of_true rfl trivial
  case literal =>
    intro v w _ _ h
    rw [describe, describe, describeOver_eq_iff (by rfl), ReadsLike, ← Value.text_eq_iff h]
    simp [attributes, Value.type_of_same h]
  case var =>
    intro x y s s' hid
    rw [describe, describe, describeOver_eq_iff (by rfl), ReadsLike]
    simp [attributes, hid]
  case external =>
    intro fn fn' es ds t t' s s' _ _ hfn h
    rw [describe, describe, describeOver_eq_iff (by rfl), ReadsLike, describeAll_eq_iff h]
    cases t <;> cases t' <;> simp [attributes, hfn, flagText]
  case failing =>
    intro c c' t t' s s' h
    rw [describe, describe, describeOver_eq_iff (by rfl), ReadsLike,
      ← CompileError.message_eq_iff h]
    simp [attributes, CompileError.code_of_same h]

/-- Two equal trees have one description exactly if they are read alike, and then, over one index
plan, one fingerprint. -/
theorem Expr.describe_of_same {a b : Expr} (h : a.same b = true) :
    (a.describe = b.describe ↔ a.ReadsLike b) ∧
      (a.ReadsLike b →
        ∀ i, (Plan.mk a.describe i).fingerprint = (Plan.mk b.describe i).fingerprint) :=
  ⟨describe_iff h, fun hread i => by rw [(describe_iff h).mpr hread]⟩

/-- A call with a variable, once written somewhere and once nowhere. -/
theorem Expr.describe_of_same_spans :
    let call (s : Span) : Expr :=
      .connective .conjunction
        [.external ⟨0, "f", .booleanOne, true⟩ [.var ⟨0, "x", none⟩ s] false s,
          .range ⟨.ofInt 1, true, .ofInt 2, false⟩ (.literal [.double (.ofInt 1)]) s] s
    let a := call ⟨1, 5⟩
    let b := call .unknown
    a.same b = true ∧ a.describe = b.describe ∧
      ∀ i, (Plan.mk a.describe i).fingerprint = (Plan.mk b.describe i).fingerprint := by
  intro call a b
  have hsame : a.same b = true := by decide +kernel
  have hread : a.ReadsLike b := by
    refine ⟨⟨rfl, rfl, rfl, trivial⟩, ⟨rfl, ?_⟩, trivial⟩
    exact .cons rfl .nil
  have h := describe_of_same hsame
  exact ⟨hsame, h.1.mpr hread, h.2 hread⟩

/-- A cast to an abstract type, parked for later. -/
def parkedCast (line : Nat) : Expr :=
  .connective .conjunction
    [.position 1 1 .unknown, .cast (.literal [.integer 1]) (.one .numeric) ⟨line, 17⟩] .unknown

/-- The same cast on two lines compiles to equal trees, which are described differently. -/
theorem Expr.describe_parkedCast :
    ∃ a b, ((parkedCast 1).compile fun _ _ _ => .ok ()).value = .ok a ∧
      ((parkedCast 2).compile fun _ _ _ => .ok ()).value = .ok b ∧
      a.same b = true ∧ a.describe ≠ b.describe := by
  let parked (line : Nat) : Expr :=
    .connective .conjunction
      [.position 1 1 .unknown,
        .failing (.invalidCastTarget (.one .numeric) ⟨line, 17⟩) (.one .numeric) ⟨line, 17⟩] .unknown
  have hsame : (parked 1).same (parked 2) = true := by decide +kernel
  refine ⟨parked 1, parked 2, rfl, rfl, hsame, fun h => ?_⟩
  obtain ⟨-, hplace, -⟩ := (describe_iff hsame).mp h
  rcases hplace with hplace | ⟨hunknown, -⟩
  · exact absurd hplace (by decide)
  · exact absurd hunknown (by decide)

end QueryExpr
