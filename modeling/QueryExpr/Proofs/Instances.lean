import QueryExpr.Proofs.Types

/-!
# QueryExpr.Proofs.Instances

Sequence types and their instances: one type is contained in another as soon as all its instances
are instances of the other, so that the order of types is the order of what they admit.

* `Atom.within_iff`, `Occurrence.within_iff`, `SeqType.within_iff` — containment of item types, of
  bounds, and of sequence types, by items, lengths and values.
* `SeqType.join_admits_least` — the join of two types admits what either of them admits, and
  nothing that a type with all of that would not admit.
-/

namespace QueryExpr

/-! ## Item types -/

namespace Atom

/-- Every type that is not abstract is the type of an item. -/
theorem exists_type {a : Atom} (ha : a.isCastable = true) : ∃ i : Item, i.type = a := by
  cases a with
  | untyped => exact ⟨.untyped "", rfl⟩
  | string => exact ⟨.string "", rfl⟩
  | boolean => exact ⟨.bool (.plain false), rfl⟩
  | integer => exact ⟨.integer 0, rfl⟩
  | float => exact ⟨.float (.zero false), rfl⟩
  | double => exact ⟨.double (.zero false), rfl⟩
  | anyUri => exact ⟨.anyUri "", rfl⟩
  | qname => exact ⟨.qname ⟨none, ""⟩, rfl⟩
  | _ => cases ha

theorem exists_instance (a : Atom) : ∃ i : Item, i.type.instanceOf a = true := by
  have hsome : ∀ a ∈ all, ∃ b ∈ all, b.isCastable = true ∧ b.instanceOf a = true := by
    decide +kernel
  obtain ⟨b, -, hb, hba⟩ := hsome a (mem_all a)
  obtain ⟨i, rfl⟩ := exists_type hb
  exact ⟨i, hba⟩

/-- Containment of item types is containment of their items. An abstract type has no items of its
own, so that the items of the types below it must do to tell it from others. -/
theorem within_iff {a b : Atom} :
    a.within b = true ↔ ∀ i : Item, i.type.instanceOf a = true → i.type.instanceOf b = true := by
  constructor
  · intro hab i hi
    exact instanceOf_within hi hab
  · intro h
    have hall : ∀ a ∈ all, ∀ b ∈ all,
        (∀ c ∈ all, c.isCastable = true → c.instanceOf a = true → c.instanceOf b = true) →
          a.within b = true := by
      decide +kernel
    refine hall a (mem_all a) b (mem_all b) fun c _ hc hca => ?_
    obtain ⟨i, rfl⟩ := exists_type hc
    exact h i hca

end Atom

/-! ## Bounds -/

namespace Occurrence

variable {o p : Occurrence}

/-- The least number is no more than the greatest. -/
def Ordered (o : Occurrence) : Prop := ∀ m, o.max = some m → o.min ≤ m

instance (o : Occurrence) : Decidable o.Ordered :=
  decidable_of_iff (o.max.all fun m => o.min ≤ m) (by simp [Ordered, Option.all_eq_true])

theorem Ordered.admits_min (ho : o.Ordered) : o.admits o.min = true :=
  admits_iff.mpr ⟨Nat.le_refl _, ho⟩

/-- Bounds that allow an item allow a sequence that has one. -/
theorem Ordered.exists_pos (ho : o.Ordered) (hmax : o.max ≠ some 0) :
    ∃ n, 0 < n ∧ o.admits n = true := by
  cases hm : o.max with
  | none => exact ⟨o.min + 1, by omega, admits_iff.mpr ⟨by omega, by simp [hm]⟩⟩
  | some m =>
    have hpos : m ≠ 0 := fun h => hmax (by rw [hm, h])
    have hmin := ho m hm
    exact ⟨m, by omega, admits_iff.mpr ⟨hmin, by simp [hm]⟩⟩

/-- Containment of bounds is containment of the lengths within them. -/
theorem within_iff (ho : o.Ordered) :
    o.Within p ↔ ∀ n, o.admits n = true → p.admits n = true := by
  constructor
  · intro h n hn
    exact h.admits hn
  · intro h
    refine ⟨(admits_iff.mp (h _ ho.admits_min)).1, fun k hk => ?_⟩
    cases hm : o.max with
    | none =>
      -- Without an upper bound there is a length beyond that of the other bounds.
      have hlong : o.admits (Max.max o.min (k + 1)) = true :=
        admits_iff.mpr ⟨by omega, by simp [hm]⟩
      have hle := (admits_iff.mp (h _ hlong)).2 k hk
      omega
    | some m =>
      have hlast : o.admits m = true := admits_iff.mpr ⟨ho m hm, by simp [hm]⟩
      exact ⟨m, rfl, (admits_iff.mp (h _ hlast)).2 k hk⟩

end Occurrence

/-! ## Sequence types -/

namespace SeqType

variable {s t : SeqType}

theorem admits_replicate {i : Item} (hi : i.type.instanceOf s.atom = true) {n : Nat}
    (hn : s.occurs.admits n = true) : s.admits (List.replicate n i) = true := by
  refine admits_iff.mpr ⟨by rwa [List.length_replicate], fun j hj => ?_⟩
  rw [List.eq_of_mem_replicate hj]
  exact hi

/-- Containment of sequence types is containment of their instances. -/
theorem within_iff (hs : s.occurs.Ordered) :
    s.Within t ↔ ∀ v, s.admits v = true → t.admits v = true := by
  constructor
  · intro h v hv
    exact h.admits hv
  · intro h
    constructor
    · rw [Occurrence.within_iff hs]
      intro n hn
      obtain ⟨i, hi⟩ := Atom.exists_instance s.atom
      have ht := (admits_iff.mp (h _ (admits_replicate hi hn))).1
      rwa [List.length_replicate] at ht
    · by_cases hempty : s.isEmpty = true
      · exact .inl hempty
      · right
        obtain ⟨n, hpos, hn⟩ := hs.exists_pos (fun hmax => hempty (isEmpty_iff.mpr hmax))
        rw [Atom.within_iff]
        intro i hi
        have ht := (admits_iff.mp (h _ (admits_replicate hi hn))).2
        exact ht i (List.mem_replicate.mpr ⟨by omega, rfl⟩)

/-- The join of two types admits what either of them admits, and a type that admits all of that
admits whatever the join does. -/
theorem join_admits_least (hs : s.occurs.Ordered) (ht : t.occurs.Ordered) :
    (∀ v, s.admits v = true ∨ t.admits v = true → (s.join t).admits v = true) ∧
    ∀ u : SeqType, (∀ v, s.admits v = true → u.admits v = true) →
      (∀ v, t.admits v = true → u.admits v = true) →
      ∀ v, (s.join t).admits v = true → u.admits v = true := by
  constructor
  · rintro v (hv | hv)
    · exact (within_join_left s t).admits hv
    · exact (within_join_right s t).admits hv
  · intro u hsu htu v hv
    have hjoin : (s.join t).Within u :=
      join_within.mpr ⟨(within_iff hs).mpr hsu, (within_iff ht).mpr htu⟩
    exact hjoin.admits hv

/-- Between one integer and three single floats lie two numbers, neither of them a single float. -/
theorem join_admits_least_between :
    let s : SeqType := .one .integer
    let t : SeqType := ⟨.float, ⟨3, some 3⟩⟩
    let v : Value := [.double (.zero false), .integer 1]
    s.occurs.Ordered ∧ t.occurs.Ordered ∧ s.admits v = false ∧ t.admits v = false ∧
      (s.join t).admits v = true ∧
      ∀ u : SeqType, (∀ w, s.admits w = true → u.admits w = true) →
        (∀ w, t.admits w = true → u.admits w = true) → u.admits v = true := by
  intro s t v
  have hs : s.occurs.Ordered := by decide
  have ht : t.occurs.Ordered := by decide
  have hv : (s.join t).admits v = true := rfl
  exact ⟨hs, ht, rfl, rfl, hv, fun u hsu htu => (join_admits_least hs ht).2 u hsu htu v hv⟩

end SeqType
end QueryExpr
