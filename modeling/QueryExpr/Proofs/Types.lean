import QueryExpr.Compile.Tree

/-!
# QueryExpr.Proofs.Types

Sequence types as an order.

* `SeqType.Within`   — a type is contained in another, item type and bounds apart.
* `SeqType.join_within` — the join of two types is the least type that contains both.
* `SeqType.Within.admits` — a value of a type is a value of every type that contains it.
* `Occurrence.Named` — one of the five bounds that have a name.
* `Occurrence.Family` — bounds among which are the named ones and the join of any two.
-/

namespace QueryExpr

/-! ## Item types -/

namespace Atom

/-- Every item of the first type is one of the second. No item has the type `item` itself, so that
the two most general types have the same items. -/
def within (a b : Atom) : Bool := a.instanceOf b || b == .anyAtomic

@[simp] theorem within_self (a : Atom) : a.within a = true := by cases a <;> rfl

theorem mem_all (a : Atom) : a ∈ all := by cases a <;> decide

theorem join_within (a b c : Atom) : (a.join b).within c = (a.within c && b.within c) := by
  have h : ∀ a ∈ all, ∀ b ∈ all, ∀ c ∈ all,
      (a.join b).within c = (a.within c && b.within c) := by decide +kernel
  exact h a (mem_all a) b (mem_all b) c (mem_all c)

theorem within_trans {a b c : Atom} (hab : a.within b = true) (hbc : b.within c = true) :
    a.within c = true := by
  have h : ∀ a ∈ all, ∀ b ∈ all, ∀ c ∈ all,
      a.within b = true → b.within c = true → a.within c = true := by decide +kernel
  exact h a (mem_all a) b (mem_all b) c (mem_all c) hab hbc

theorem instanceOf_within {a b : Atom} {i : Item} (h : i.type.instanceOf a = true)
    (hab : a.within b = true) : i.type.instanceOf b = true := by
  have hall : ∀ a ∈ all, ∀ b ∈ all, ∀ c ∈ all, a ≠ item →
      a.instanceOf b = true → b.within c = true → a.instanceOf c = true := by decide +kernel
  have hi : i.type ≠ item := by cases i <;> simp [Item.type]
  exact hall _ (mem_all _) a (mem_all a) b (mem_all b) hi h hab

theorem within_of_instanceOf {a b : Atom} (h : a.instanceOf b = true) : a.within b = true := by
  rw [within, h, Bool.true_or]

end Atom

/-! ## Bounds -/

namespace Occurrence

/-- The bounds are contained in others. -/
structure Within (o p : Occurrence) : Prop where
  min : p.min ≤ o.min
  max : ∀ n, p.max = some n → ∃ m, o.max = some m ∧ m ≤ n

theorem within_self (o : Occurrence) : o.Within o :=
  ⟨Nat.le_refl _, fun n h => ⟨n, h, Nat.le_refl n⟩⟩

theorem Within.trans {o p q : Occurrence} (hop : o.Within p) (hpq : p.Within q) : o.Within q := by
  refine ⟨Nat.le_trans hpq.min hop.min, fun n hn => ?_⟩
  obtain ⟨m, hm, hmn⟩ := hpq.max n hn
  obtain ⟨k, hk, hkm⟩ := hop.max m hm
  exact ⟨k, hk, Nat.le_trans hkm hmn⟩

theorem admits_iff {o : Occurrence} {n : Nat} :
    o.admits n = true ↔ o.min ≤ n ∧ ∀ m, o.max = some m → n ≤ m := by
  unfold admits
  cases o.max with
  | none => simp
  | some m => simp

theorem Within.admits {o p : Occurrence} (h : o.Within p) {n : Nat} (hn : o.admits n = true) :
    p.admits n = true := by
  obtain ⟨h₁, h₂⟩ := admits_iff.mp hn
  refine admits_iff.mpr ⟨Nat.le_trans h.min h₁, fun k hk => ?_⟩
  obtain ⟨m, hm, hle⟩ := h.max k hk
  exact Nat.le_trans (h₂ m hm) hle

theorem join_within {o p q : Occurrence} : (o.join p).Within q ↔ o.Within q ∧ p.Within q := by
  constructor
  · rintro ⟨hmin, hmax⟩
    simp only [join] at hmin hmax
    refine ⟨⟨by omega, fun n hn => ?_⟩, ⟨by omega, fun n hn => ?_⟩⟩
    · obtain ⟨m, hm, hle⟩ := hmax n hn
      split at hm
      · rename_i k l hk hl; cases hm; exact ⟨k, hk, by omega⟩
      · cases hm
    · obtain ⟨m, hm, hle⟩ := hmax n hn
      split at hm
      · rename_i k l hk hl; cases hm; exact ⟨l, hl, by omega⟩
      · cases hm
  · rintro ⟨ho, hp⟩
    have := ho.min
    have := hp.min
    refine ⟨by simp only [join]; omega, fun n hn => ?_⟩
    obtain ⟨k, hk, hkn⟩ := ho.max n hn
    obtain ⟨l, hl, hln⟩ := hp.max n hn
    exact ⟨Max.max k l, by simp only [join, hk, hl], by omega⟩

theorem atMostOne_iff {o : Occurrence} : o.atMostOne = true ↔ ∃ m, o.max = some m ∧ m ≤ 1 := by
  unfold atMostOne
  cases o.max with
  | none => simp
  | some m => simp

/-- The bounds that have a name. -/
def Named (o : Occurrence) : Prop :=
  o = .zero ∨ o = .one ∨ o = .zeroOrOne ∨ o = .zeroOrMore ∨ o = .oneOrMore

theorem Named.join {o p : Occurrence} (ho : o.Named) (hp : p.Named) : (o.join p).Named := by
  rcases ho with rfl | rfl | rfl | rfl | rfl <;> rcases hp with rfl | rfl | rfl | rfl | rfl <;>
    simp [Named, Occurrence.join, zero, one, zeroOrOne, zeroOrMore, oneOrMore]

theorem Named.min_le {o : Occurrence} (h : o.Named) : o.min ≤ 1 := by
  rcases h with rfl | rfl | rfl | rfl | rfl <;> decide

theorem Named.max {o : Occurrence} (h : o.Named) : ∀ m, o.max = some m → m ≤ 1 := by
  rcases h with rfl | rfl | rfl | rfl | rfl <;>
    simp [zero, one, zeroOrOne, zeroOrMore, oneOrMore]

theorem Named.zero {o : Occurrence} (h : o.Named) (hz : o.max = some 0) : o.min = 0 := by
  rcases h with rfl | rfl | rfl | rfl | rfl <;> first | rfl | cases hz

/-- A choice of bounds that has the named ones and the join of any two of its own. -/
structure Family (P : Occurrence → Prop) : Prop where
  named : ∀ {o : Occurrence}, o.Named → P o
  join : ∀ {o p : Occurrence}, P o → P p → P (o.join p)

theorem family_named : Family Named := ⟨id, Named.join⟩

end Occurrence

/-! ## Sequence types -/

namespace SeqType

/-- A type is contained in another. The item type of a type without items does not matter. -/
structure Within (s t : SeqType) : Prop where
  occurs : s.occurs.Within t.occurs
  atom : s.isEmpty = true ∨ s.atom.within t.atom = true

theorem within_self (t : SeqType) : t.Within t := ⟨t.occurs.within_self, .inr t.atom.within_self⟩

theorem admits_iff {t : SeqType} {v : Value} :
    t.admits v = true ↔
      t.occurs.admits v.length = true ∧ ∀ i ∈ v, i.type.instanceOf t.atom = true := by
  simp [admits]

theorem eq_nil_of_isEmpty {t : SeqType} {v : Value} (h : t.isEmpty = true)
    (hv : t.admits v = true) : v = [] := by
  have hmax := (Occurrence.admits_iff.mp (admits_iff.mp hv).1).2 0 (by simpa [isEmpty] using h)
  exact List.length_eq_zero_iff.mp (Nat.le_zero.mp hmax)

theorem Within.admits {s t : SeqType} (h : s.Within t) {v : Value} (hv : s.admits v = true) :
    t.admits v = true := by
  obtain ⟨hl, hi⟩ := admits_iff.mp hv
  refine admits_iff.mpr ⟨h.occurs.admits hl, fun i hm => ?_⟩
  rcases h.atom with he | ha
  · rw [eq_nil_of_isEmpty he hv] at hm; cases hm
  · exact Atom.instanceOf_within (hi i hm) ha

theorem isEmpty_iff {t : SeqType} : t.isEmpty = true ↔ t.occurs.max = some 0 := by simp [isEmpty]

theorem Within.trans {s t u : SeqType} (hst : s.Within t) (htu : t.Within u) : s.Within u := by
  refine ⟨hst.occurs.trans htu.occurs, ?_⟩
  rcases hst.atom with hs | hs
  · exact .inl hs
  · rcases htu.atom with ht | ht
    · obtain ⟨m, hm, hle⟩ := hst.occurs.max 0 (isEmpty_iff.mp ht)
      exact .inl (isEmpty_iff.mpr (by rw [hm, Nat.le_zero.mp hle]))
    · exact .inr (Atom.within_trans hs ht)

theorem isEmpty_join {s t : SeqType} :
    (s.join t).isEmpty = true ↔ s.isEmpty = true ∧ t.isEmpty = true := by
  simp only [isEmpty_iff, join, Occurrence.join]
  cases s.occurs.max with
  | none => simp
  | some m =>
    cases t.occurs.max with
    | none => simp
    | some n => simp only [Option.some.injEq]; omega

/-- The join of two types is the least type that contains both. -/
theorem join_within {s t u : SeqType} : (s.join t).Within u ↔ s.Within u ∧ t.Within u := by
  constructor
  · rintro ⟨ho, ha⟩
    obtain ⟨hs, ht⟩ := Occurrence.join_within.mp ho
    rw [isEmpty_join] at ha
    cases hse : s.isEmpty <;> cases hte : t.isEmpty <;>
      simp [hse, hte, join, Atom.join_within] at ha
    · exact ⟨⟨hs, .inr ha.1⟩, ⟨ht, .inr ha.2⟩⟩
    · exact ⟨⟨hs, .inr ha⟩, ⟨ht, .inl hte⟩⟩
    · exact ⟨⟨hs, .inl hse⟩, ⟨ht, .inr ha⟩⟩
    · exact ⟨⟨hs, .inl hse⟩, ⟨ht, .inl hte⟩⟩
  · rintro ⟨hs, ht⟩
    refine ⟨Occurrence.join_within.mpr ⟨hs.occurs, ht.occurs⟩, ?_⟩
    rw [isEmpty_join]
    have has := hs.atom
    have hat := ht.atom
    cases hse : s.isEmpty <;> cases hte : t.isEmpty <;>
      simp [hse, hte, join, Atom.join_within] at has hat ⊢
    · exact ⟨has, hat⟩
    · exact has
    · exact hat

theorem within_join_left (s t : SeqType) : s.Within (s.join t) :=
  (join_within.mp (within_self _)).1

theorem within_join_right (s t : SeqType) : t.Within (s.join t) :=
  (join_within.mp (within_self _)).2

theorem atMostOne_join {s t : SeqType} :
    (s.join t).atMostOne = true ↔ s.atMostOne = true ∧ t.atMostOne = true := by
  simp only [atMostOne, Occurrence.atMostOne, join, Occurrence.join]
  cases s.occurs.max with
  | none => simp
  | some m =>
    cases t.occurs.max with
    | none => simp
    | some n => simp only [decide_eq_true_eq]; omega

end SeqType

/-! ## Types of values -/

namespace Value

theorem foldl_join_within (a : Atom) (v : Value) (b : Atom) :
    (v.foldl (fun a j => a.join j.type) a).within b = true ↔
      a.within b = true ∧ ∀ i ∈ v, i.type.within b = true := by
  induction v generalizing a with
  | nil => simp
  | cons i v ih =>
    rw [List.foldl_cons, ih, Atom.join_within, Bool.and_eq_true, List.forall_mem_cons, and_assoc]

theorem type_named (v : Value) : v.type.occurs.Named := by
  match v with
  | [] => exact .inl rfl
  | [_] => exact .inr (.inl rfl)
  | _ :: _ :: _ => exact .inr (.inr (.inr (.inr rfl)))

/-- A value is an instance of its own type. -/
theorem admits_type (v : Value) : v.type.admits v = true := by
  have hself (i : Item) : i.type.instanceOf i.type = true := by cases i <;> rfl
  match v with
  | [] => rfl
  | [i] => simp [type, SeqType.admits_iff, SeqType.one, Occurrence.one, Occurrence.admits, hself]
  | i :: j :: is =>
    obtain ⟨hi, his⟩ := (foldl_join_within i.type (j :: is) _).mp (Atom.within_self _)
    refine SeqType.admits_iff.mpr ⟨?_, fun k hk => ?_⟩
    · simp [type, Occurrence.oneOrMore, Occurrence.admits]
    · rcases List.mem_cons.mp hk with rfl | hk
      · exact Atom.instanceOf_within (hself k) hi
      · exact Atom.instanceOf_within (hself k) (his k hk)

/-- The type of a value is the least of the types with a name that admit the value. -/
theorem type_within {t : SeqType} (ht : t.occurs.Named) {v : Value} (hv : t.admits v = true) :
    v.type.Within t := by
  obtain ⟨hl, hi⟩ := SeqType.admits_iff.mp hv
  obtain ⟨hmin, hmax⟩ := Occurrence.admits_iff.mp hl
  match v with
  | [] => exact ⟨⟨hmin, fun n _ => ⟨0, rfl, Nat.zero_le n⟩⟩, .inl rfl⟩
  | [i] =>
    refine ⟨⟨hmin, fun n hn => ⟨1, rfl, hmax n hn⟩⟩, .inr ?_⟩
    exact Atom.within_of_instanceOf (hi i (List.mem_singleton_self i))
  | i :: j :: is =>
    refine ⟨⟨ht.min_le, fun n hn => ?_⟩, .inr ?_⟩
    · have h₁ := hmax n hn
      have h₂ := ht.max n hn
      simp only [List.length_cons] at h₁
      omega
    · obtain ⟨h₁, h₂⟩ := List.forall_mem_cons.mp hi
      exact (foldl_join_within i.type (j :: is) _).mpr
        ⟨Atom.within_of_instanceOf h₁, fun k hk => Atom.within_of_instanceOf (h₂ k hk)⟩

theorem type_atMostOne {t : SeqType} (ht : t.atMostOne = true) {v : Value}
    (hv : t.admits v = true) : v.type.atMostOne = true := by
  obtain ⟨m, hm, hle⟩ := Occurrence.atMostOne_iff.mp ht
  have hlen := (Occurrence.admits_iff.mp (SeqType.admits_iff.mp hv).1).2 m hm
  match v with
  | [] => rfl
  | [_] => rfl
  | i :: j :: is => simp only [List.length_cons] at hlen; omega

end Value

theorem SeqType.booleanOne_admits {v : Value} (h : SeqType.booleanOne.admits v = true) :
    ∃ b, v = [.bool b] := by
  match v with
  | [] => cases h
  | [i] =>
    cases i with
    | bool b => exact ⟨b, rfl⟩
    | _ => cases h
  | _ :: _ :: _ =>
    have hmax := (Occurrence.admits_iff.mp (SeqType.admits_iff.mp h).1).2 1 rfl
    simp at hmax

/-! ## Casts -/

/-- A cast yields an item of the type that was asked for. -/
theorem Item.cast_type {i j : Item} {a : Atom} (h : i.cast a = .ok j) : j.type = a := by
  have hmap {α : Type} {x : Except CastError α} {f : α → Item} (hf : ∀ b, (f b).type = a)
      (h : x.map f = .ok j) : j.type = a := by
    cases x with
    | error e => cases h
    | ok b => cases h; exact hf b
  cases a <;> simp only [Item.cast] at h
  case string => cases h; rfl
  case untyped => cases h; rfl
  case boolean => exact hmap (fun _ => rfl) h
  case integer => exact hmap (fun _ => rfl) h
  case double => exact hmap (fun _ => rfl) h
  case float => exact hmap (fun _ => rfl) h
  case anyUri => exact hmap (fun _ => rfl) h
  case qname => exact hmap (fun _ => rfl) h
  all_goals cases h

/-- A cast turns nothing into nothing, if the target allows it, and one item into one item. -/
theorem Value.cast_eq_ok {v w : Value} {t : SeqType} {span : Span} (h : v.cast t span = .ok w) :
    (v = [] ∧ w = [] ∧ t.occurs.min = 0) ∨ ∃ i j, v = [i] ∧ w = [j] ∧ i.cast t.atom = .ok j := by
  unfold Value.cast at h
  match v with
  | [] =>
    simp only [Value.single?] at h
    split at h
    · rename_i hmin; cases h; exact .inl ⟨rfl, rfl, hmin⟩
    · cases h
  | [i] =>
    simp only [Value.single?] at h
    split at h
    · cases h
    · rename_i j hj; cases h; exact .inr ⟨i, j, rfl, rfl, hj⟩
  | _ :: _ :: _ => cases h

namespace SeqType

/-- The bounds of a cast target: exactly one item, or at most one. -/
theorem castTarget_occurs {t : SeqType} (h : t.isCastTarget = true) :
    t.occurs = .one ∨ t.occurs = .zeroOrOne := by
  obtain ⟨a, ⟨min, max⟩⟩ := t
  simp only [isCastTarget, Bool.and_eq_true, decide_eq_true_eq, beq_iff_eq] at h
  obtain ⟨⟨_, hmin⟩, rfl⟩ := h
  match min with
  | 0 => exact .inr rfl
  | 1 => exact .inl rfl
  | n + 2 => omega

theorem castTarget_named {t : SeqType} (h : t.isCastTarget = true) : t.occurs.Named := by
  rcases castTarget_occurs h with h | h
  · exact .inr (.inl h)
  · exact .inr (.inr (.inl h))

theorem castTarget_admits {t : SeqType} (ht : t.isCastTarget = true) {v w : Value} {span : Span}
    (h : v.cast t span = .ok w) : t.admits w = true := by
  rcases Value.cast_eq_ok h with ⟨_, rfl, hmin⟩ | ⟨i, j, _, rfl, hj⟩
  · refine admits_iff.mpr ⟨?_, by simp⟩
    exact Occurrence.admits_iff.mpr ⟨Nat.le_of_eq hmin, fun _ _ => Nat.zero_le _⟩
  · refine admits_iff.mpr ⟨?_, fun k hk => ?_⟩
    · rcases castTarget_occurs ht with h | h <;> rw [h] <;> rfl
    · rw [List.mem_singleton.mp hk, Item.cast_type hj]
      cases t.atom <;> rfl

/-- A cast that does nothing starts from a type within its target. -/
theorem castIsVoid_within {s t : SeqType} (ht : t.isCastTarget = true)
    (h : castIsVoid s t = true) : s.Within t := by
  simp only [castIsVoid, Bool.and_eq_true, Bool.or_eq_true, decide_eq_true_eq, isOne,
    beq_iff_eq] at h
  rcases h.2 with rfl | ⟨⟨ha, ho⟩, _⟩
  · exact within_self s
  · refine ⟨?_, .inr (by rw [ha]; exact Atom.within_self _)⟩
    rw [ho]
    rcases castTarget_occurs ht with h | h <;> rw [h]
    · exact Occurrence.within_self _
    · exact ⟨Nat.zero_le _, fun n hn => ⟨1, rfl, by cases hn; exact Nat.le_refl 1⟩⟩

end SeqType

end QueryExpr
