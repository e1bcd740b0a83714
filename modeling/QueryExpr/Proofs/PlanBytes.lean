import QueryExpr.Fingerprint

/-!
# QueryExpr.Proofs.PlanBytes

Plans are told apart by their bytes.

* `Plan.Fits`          — no text and no list of a plan is longer than four bytes can say.
* `Delimited`          — what fits is known from its bytes, whatever stands behind them.
* `Delimited.listed`   — so is a list with its number of entries in front, if its entries are.
* `PlanNode.delimited`, `IndexPlan.delimited` — so are the two kinds of trees in a plan.
* `Plan.bytes_injective` — two plans with the same bytes are equal.

What stands behind is part of every statement, since in a tree most parts stand in front of others
and none says where it ends but by its own bytes.
-/

namespace QueryExpr

/-! ## Plans that fit -/

/-- The length of a text fits into four bytes. -/
def TextFits (s : String) : Prop := s.utf8ByteSize < Nat.pow 2 32

/-- The number of entries fits into four bytes, and the entries fit. -/
def ListFits {α : Type} (fits : α → Prop) (as : List α) : Prop :=
  as.length < Nat.pow 2 32 ∧ ∀ a ∈ as, fits a

/-- Both parts of a pair fit. -/
def PairFits {α β : Type} (fits : α → Prop) (fits' : β → Prop) (p : α × β) : Prop :=
  fits p.1 ∧ fits' p.2

mutual

/-- All texts and lists of a tree fit. -/
def PlanNode.Fits : PlanNode → Prop
  | .node n as cs =>
    TextFits n ∧ ListFits (PairFits TextFits TextFits) as ∧ cs.length < Nat.pow 2 32 ∧
      allNodesFit cs

def allNodesFit : List PlanNode → Prop
  | [] => True
  | p :: ps => p.Fits ∧ allNodesFit ps

end

mutual

/-- All texts and lists of an index plan fit. -/
def IndexPlan.Fits : IndexPlan → Prop
  | .lookup key => TextFits key
  | .intersect ps => ps.length < Nat.pow 2 32 ∧ allIndexPlansFit ps
  | .union ps => ps.length < Nat.pow 2 32 ∧ allIndexPlansFit ps
  | .empty => True

def allIndexPlansFit : List IndexPlan → Prop
  | [] => True
  | p :: ps => p.Fits ∧ allIndexPlansFit ps

end

/-- All texts and lists of a plan fit. -/
structure Plan.Fits (p : Plan) : Prop where
  root : p.root.Fits
  index : ∀ i, p.index = some i → i.Fits

theorem allNodesFit_iff {ps : List PlanNode} : allNodesFit ps ↔ ∀ p ∈ ps, p.Fits := by
  induction ps with
  | nil => simp [allNodesFit]
  | cons p ps ih => simp [allNodesFit, ih]

theorem allIndexPlansFit_iff {ps : List IndexPlan} :
    allIndexPlansFit ps ↔ ∀ p ∈ ps, p.Fits := by
  induction ps with
  | nil => simp [allIndexPlansFit]
  | cons p ps ih => simp [allIndexPlansFit, ih]

theorem PlanNode.fits_node {n : String} {as : List (String × String)} {cs : List PlanNode} :
    (PlanNode.node n as cs).Fits ↔
      TextFits n ∧ ListFits (PairFits TextFits TextFits) as ∧ ListFits PlanNode.Fits cs := by
  rw [PlanNode.Fits, allNodesFit_iff, ListFits, ListFits]

theorem IndexPlan.fits_intersect {ps : List IndexPlan} :
    (IndexPlan.intersect ps).Fits ↔ ListFits IndexPlan.Fits ps := by
  rw [IndexPlan.Fits, allIndexPlansFit_iff, ListFits]

theorem IndexPlan.fits_union {ps : List IndexPlan} :
    (IndexPlan.union ps).Fits ↔ ListFits IndexPlan.Fits ps := by
  rw [IndexPlan.Fits, allIndexPlansFit_iff, ListFits]

/-! ## Induction over plans -/

/-- Induction over trees; the hypothesis speaks of the members of the list of children. -/
theorem PlanNode.induction {motive : PlanNode → Prop}
    (node : ∀ n as cs, (∀ p ∈ cs, motive p) → motive (.node n as cs)) (p : PlanNode) :
    motive p := by
  obtain ⟨n, as, cs⟩ := p
  refine node n as cs fun p h => ?_
  have := List.sizeOf_lt_of_mem h
  exact induction node p
termination_by sizeOf p
decreasing_by simp; omega

/-- Induction over index plans; the hypothesis speaks of the members of the list of inputs. -/
theorem IndexPlan.induction {motive : IndexPlan → Prop} (lookup : ∀ key, motive (.lookup key))
    (intersect : ∀ ps, (∀ p ∈ ps, motive p) → motive (.intersect ps))
    (union : ∀ ps, (∀ p ∈ ps, motive p) → motive (.union ps)) (empty : motive .empty)
    (p : IndexPlan) : motive p := by
  cases p with
  | lookup key => exact lookup key
  | intersect ps =>
    refine intersect ps fun p h => ?_
    have := List.sizeOf_lt_of_mem h
    exact induction lookup intersect union empty p
  | union ps =>
    refine union ps fun p h => ?_
    have := List.sizeOf_lt_of_mem h
    exact induction lookup intersect union empty p
  | empty => exact empty
termination_by sizeOf p
decreasing_by all_goals simp; omega

/-! ## Delimited bytes -/

/-- If something fits, then among all that fits it is known from its bytes, whatever stands behind
them. -/
def Delimited {α : Type} (fits : α → Prop) (bytes : α → List UInt8) (a : α) : Prop :=
  fits a → ∀ b, fits b → ∀ r s, bytes a ++ r = bytes b ++ s → a = b ∧ r = s

/-- The bytes of a pair: those of its parts, one after the other. -/
def pairBytes {α β : Type} (f : α → List UInt8) (g : β → List UInt8) (p : α × β) : List UInt8 :=
  f p.1 ++ g p.2

/-- The bytes of a list: its number of entries, and the bytes of the entries. -/
def listBytes {α : Type} (f : α → List UInt8) (as : List α) : List UInt8 :=
  lengthBytes as.length ++ as.flatMap f

/-- A length that fits into four bytes is written as it is. -/
theorem lengthBytes_eq {n : Nat} (h : n < Nat.pow 2 32) :
    lengthBytes n = [UInt8.ofNat (n / 16777216), UInt8.ofNat (n / 65536), UInt8.ofNat (n / 256),
      UInt8.ofNat n] := by
  have hmin : min n (Nat.pow 2 32 - 1) = n := Nat.min_eq_left (Nat.le_sub_one_of_lt h)
  rw [lengthBytes, hmin]

theorem lengthBytes_delimited (n : Nat) : Delimited (· < Nat.pow 2 32) lengthBytes n := by
  intro hn m hm r s h
  rw [lengthBytes_eq hn, lengthBytes_eq hm] at h
  simp only [List.cons_append, List.nil_append, List.cons.injEq, ← UInt8.toNat_inj,
    UInt8.toNat_ofNat'] at h
  obtain ⟨h₁, h₂, h₃, h₄, hr⟩ := h
  have hlimit : Nat.pow 2 32 = 4294967296 := rfl
  refine ⟨?_, hr⟩
  omega

namespace Delimited

section
variable {α β : Type} {P : α → Prop} {Q : β → Prop} {f : α → List UInt8} {g : β → List UInt8}

theorem byte (b : UInt8) : Delimited (fun _ => True) (fun b => [b]) b := by
  intro _ c _ r s h
  exact List.cons.inj h

theorem pair {a : α} {b : β} (ha : Delimited P f a) (hb : Delimited Q g b) :
    Delimited (PairFits P Q) (pairBytes f g) (a, b) := by
  rintro ⟨hPa, hQb⟩ ⟨c, d⟩ ⟨hPc, hQd⟩ r s h
  simp only [pairBytes, List.append_assoc] at h
  obtain ⟨hac, h₁⟩ := ha hPa c hPc _ _ h
  obtain ⟨hbd, h₂⟩ := hb hQb d hQd _ _ h₁
  exact ⟨Prod.ext hac hbd, h₂⟩

/-- Entries whose number is known are known one after the other. -/
theorem entries {as : List α} (h : ∀ a ∈ as, Delimited P f a) (has : ∀ a ∈ as, P a) {bs : List α}
    (hbs : ∀ b ∈ bs, P b) (hl : as.length = bs.length) {r s : List UInt8}
    (he : as.flatMap f ++ r = bs.flatMap f ++ s) : as = bs ∧ r = s := by
  induction as generalizing bs with
  | nil =>
    obtain rfl := List.length_eq_zero_iff.mp hl.symm
    exact ⟨rfl, he⟩
  | cons a as ih =>
    obtain ⟨b, cs, rfl⟩ := List.exists_cons_of_length_eq_add_one hl.symm
    obtain ⟨ha, h⟩ := List.forall_mem_cons.mp h
    obtain ⟨hPa, has⟩ := List.forall_mem_cons.mp has
    obtain ⟨hPb, hcs⟩ := List.forall_mem_cons.mp hbs
    simp only [List.flatMap_cons, List.append_assoc] at he
    obtain ⟨rfl, hrest⟩ := ha hPa b hPb _ _ he
    obtain ⟨rfl, hr⟩ := ih h has hcs (by simpa using hl) hrest
    exact ⟨rfl, hr⟩

theorem listed {as : List α} (h : ∀ a ∈ as, Delimited P f a) :
    Delimited (ListFits P) (listBytes f) as := by
  rintro ⟨hl, has⟩ bs ⟨hl', hbs⟩ r s he
  simp only [listBytes, List.append_assoc] at he
  obtain ⟨hn, he⟩ := lengthBytes_delimited as.length hl bs.length hl' _ _ he
  exact entries h has hbs hn he

end

end Delimited

/-! ## Texts -/

/-- The bytes of an array as its loop collects them. -/
theorem byteArray_toList_loop (bs : ByteArray) (i : Nat) (r : List UInt8) :
    ByteArray.toList.loop bs i r = r.reverse ++ bs.data.toList.drop i := by
  fun_induction ByteArray.toList.loop bs i r with
  | case1 i r h ih =>
    have hi : i < bs.data.toList.length := by simpa using h
    rw [ih, List.drop_eq_getElem_cons hi]
    simp [ByteArray.get!, h]
  | case2 i r h =>
    rw [List.drop_eq_nil_of_le (by simpa using Nat.le_of_not_lt h)]
    simp

theorem byteArray_toList (bs : ByteArray) : bs.toList = bs.data.toList := by
  rw [ByteArray.toList, byteArray_toList_loop]
  simp

theorem utf8_length (s : String) : s.toUTF8.toList.length = s.utf8ByteSize := by
  rw [byteArray_toList]
  rfl

theorem utf8_injective {s t : String} (h : s.toUTF8.toList = t.toUTF8.toList) : s = t := by
  rw [byteArray_toList, byteArray_toList, Array.toList_inj] at h
  exact String.toByteArray_inj.mp (ByteArray.ext h)

theorem textBytes_eq (s : String) : textBytes s = listBytes (fun b => [b]) s.toUTF8.toList := by
  simp only [textBytes, listBytes, List.flatMap_singleton']

theorem textFits_iff {s : String} : TextFits s ↔ ListFits (fun _ => True) s.toUTF8.toList := by
  rw [TextFits, ListFits, utf8_length]
  simp

theorem textBytes_delimited (s : String) : Delimited TextFits textBytes s := by
  intro hs t ht r r' h
  rw [textBytes_eq, textBytes_eq] at h
  have hd : Delimited (ListFits fun _ => True) (listBytes fun b => [b]) s.toUTF8.toList :=
    Delimited.listed fun b _ => Delimited.byte b
  obtain ⟨he, hr⟩ := hd (textFits_iff.mp hs) _ (textFits_iff.mp ht) _ _ h
  exact ⟨utf8_injective he, hr⟩

/-! ## Trees -/

theorem attributeBytes_eq (as : List (String × String)) :
    attributeBytes as = as.flatMap (pairBytes textBytes textBytes) := by
  induction as with
  | nil => rfl
  | cons a as ih => rw [attributeBytes, ih]; rfl

theorem nodesBytes_eq (ps : List PlanNode) : nodesBytes ps = ps.flatMap PlanNode.bytes := by
  induction ps with
  | nil => rfl
  | cons p ps ih => rw [nodesBytes, ih]; rfl

theorem indexPlansBytes_eq (ps : List IndexPlan) :
    indexPlansBytes ps = ps.flatMap IndexPlan.bytes := by
  induction ps with
  | nil => rfl
  | cons p ps ih => rw [indexPlansBytes, ih]; rfl

theorem PlanNode.bytes_node (n : String) (as : List (String × String)) (cs : List PlanNode) :
    (PlanNode.node n as cs).bytes =
      0x10 :: (textBytes n ++
        (listBytes (pairBytes textBytes textBytes) as ++ listBytes PlanNode.bytes cs)) := by
  rw [PlanNode.bytes, attributeBytes_eq, nodesBytes_eq]
  simp only [listBytes, List.cons_append, List.append_assoc]

theorem IndexPlan.bytes_intersect (ps : List IndexPlan) :
    (IndexPlan.intersect ps).bytes = 0x21 :: listBytes IndexPlan.bytes ps := by
  rw [IndexPlan.bytes, indexPlansBytes_eq]; rfl

theorem IndexPlan.bytes_union (ps : List IndexPlan) :
    (IndexPlan.union ps).bytes = 0x22 :: listBytes IndexPlan.bytes ps := by
  rw [IndexPlan.bytes, indexPlansBytes_eq]; rfl

theorem PlanNode.delimited (p : PlanNode) : Delimited PlanNode.Fits PlanNode.bytes p := by
  induction p using PlanNode.induction with
  | node n as cs ih =>
    rintro hp ⟨n', as', cs'⟩ hq r s h
    obtain ⟨hn, has, hcs⟩ := PlanNode.fits_node.mp hp
    obtain ⟨hn', has', hcs'⟩ := PlanNode.fits_node.mp hq
    simp only [PlanNode.bytes_node, List.cons_append, List.append_assoc, List.cons.injEq,
      true_and] at h
    obtain ⟨rfl, h₁⟩ := textBytes_delimited n hn n' hn' _ _ h
    have hattributes := Delimited.listed fun (a : String × String) (_ : a ∈ as) =>
      (textBytes_delimited a.1).pair (textBytes_delimited a.2)
    obtain ⟨rfl, h₂⟩ := hattributes has as' has' _ _ h₁
    obtain ⟨rfl, h₃⟩ := Delimited.listed ih hcs cs' hcs' _ _ h₂
    exact ⟨rfl, h₃⟩

/-- The first byte tells the four kinds apart. -/
theorem IndexPlan.delimited (p : IndexPlan) : Delimited IndexPlan.Fits IndexPlan.bytes p := by
  induction p using IndexPlan.induction with
  | lookup key =>
    intro hp q hq r s h
    cases q with
    | lookup key' =>
      simp only [IndexPlan.bytes, List.cons_append, List.cons.injEq, true_and] at h
      obtain ⟨rfl, hr⟩ := textBytes_delimited key hp key' hq _ _ h
      exact ⟨rfl, hr⟩
    | _ => simp [IndexPlan.bytes] at h
  | intersect ps ih =>
    intro hp q hq r s h
    cases q with
    | intersect qs =>
      simp only [IndexPlan.bytes_intersect, List.cons_append, List.cons.injEq, true_and] at h
      have hd := Delimited.listed ih (IndexPlan.fits_intersect.mp hp) qs
      obtain ⟨rfl, hr⟩ := hd (IndexPlan.fits_intersect.mp hq) _ _ h
      exact ⟨rfl, hr⟩
    | _ => simp [IndexPlan.bytes] at h
  | union ps ih =>
    intro hp q hq r s h
    cases q with
    | union qs =>
      simp only [IndexPlan.bytes_union, List.cons_append, List.cons.injEq, true_and] at h
      have hd := Delimited.listed ih (IndexPlan.fits_union.mp hp) qs
      obtain ⟨rfl, hr⟩ := hd (IndexPlan.fits_union.mp hq) _ _ h
      exact ⟨rfl, hr⟩
    | _ => simp [IndexPlan.bytes] at h
  | empty =>
    intro hp q hq r s h
    cases q with
    | empty =>
      simp only [IndexPlan.bytes, List.cons_append, List.nil_append, List.cons.injEq,
        true_and] at h
      exact ⟨rfl, h⟩
    | _ => simp [IndexPlan.bytes] at h

/-! ## Plans -/

/-- The bytes of what the index does, if it answers the query: a tag says whether it does. -/
def indexBytes : Option IndexPlan → List UInt8
  | some p => 0x02 :: p.bytes
  | none => [0x03]

theorem Plan.bytes_eq (p : Plan) :
    p.bytes = Plan.header ++ 0x01 :: (p.root.bytes ++ indexBytes p.index) := by
  obtain ⟨root, index⟩ := p
  cases index <;> simp [Plan.bytes, indexBytes]

theorem indexBytes_injective {i j : Option IndexPlan} (hi : ∀ p, i = some p → p.Fits)
    (hj : ∀ p, j = some p → p.Fits) (h : indexBytes i = indexBytes j) : i = j := by
  cases i with
  | none =>
    cases j with
    | none => rfl
    | some q => simp [indexBytes] at h
  | some p =>
    cases j with
    | none => simp [indexBytes] at h
    | some q =>
      have h : p.bytes ++ [] = q.bytes ++ [] := by simpa [indexBytes] using h
      rw [(p.delimited (hi p rfl) q (hj q rfl) _ _ h).1]

/-- No two plans have the same bytes. -/
theorem Plan.bytes_injective {p q : Plan} (hp : p.Fits) (hq : q.Fits) (h : p.bytes = q.bytes) :
    p = q := by
  rw [Plan.bytes_eq, Plan.bytes_eq, List.append_cancel_left_eq, List.cons.injEq] at h
  obtain ⟨hroot, hbytes⟩ := p.root.delimited hp.root q.root hq.root _ _ h.2
  have hindex : p.index = q.index := indexBytes_injective hp.index hq.index hbytes
  obtain ⟨root, index⟩ := p
  obtain ⟨root', index'⟩ := q
  rw [show root = root' from hroot, show index = index' from hindex]

/-- A range test whose bounds are given in two orders, over the same index. -/
theorem Plan.bytes_injective_attributeOrder :
    let i := IndexPlan.intersect [.lookup "word", .union [.empty, .lookup ""]]
    let p : Plan := ⟨((PlanNode.leaf "CmpR").attr "min" "2").attr "max" "30", some i⟩
    let q : Plan := ⟨((PlanNode.leaf "CmpR").attr "max" "30").attr "min" "2", some i⟩
    p.Fits ∧ q.Fits ∧ p.bytes = q.bytes ∧ p = q := by
  intro i p q
  have hi : ∀ j, some i = some j → j.Fits := by
    rintro j ⟨⟩
    simp only [i, IndexPlan.Fits, allIndexPlansFit, TextFits]
    decide
  have hroot : p.root.Fits := by
    simp only [p, PlanNode.leaf, PlanNode.attr, setAttribute, PlanNode.Fits, allNodesFit, ListFits,
      PairFits, TextFits]
    decide
  have hp : p.Fits := ⟨hroot, hi⟩
  have hq : q.Fits := ⟨hroot, hi⟩
  exact ⟨hp, hq, rfl, bytes_injective hp hq rfl⟩

end QueryExpr
