import Mathlib.Data.List.DropRight
import QueryExpr.Proofs.Plain
import QueryExpr.Proofs.Rounding

/-!
# QueryExpr.Proofs.Conversion

Conversion lands among the items that the same conversion leaves alone.

* `Text.trim_trim`          — what is trimmed has no white space left at its ends.
* `Binary.convert_convert`  — a number that goes to a wider format comes back as it was.
* `Item.cast_own_type`      — what conversion to its own type does to an item.
* `Item.cast_again`         — an item that came out of a conversion is not changed by it.
* `Value.cast_lands`        — the same for values, together with the type of the outcome.
-/

namespace QueryExpr

/-! ## White space -/

namespace Text

theorem trimList_eq (cs : List Char) :
    trimList cs = (cs.dropWhile isBlank).rdropWhile isBlank := rfl

/-- Taking white space from the end uncovers none at the front. -/
theorem dropWhile_trimList (cs : List Char) : (trimList cs).dropWhile isBlank = trimList cs := by
  have hfront : (cs.dropWhile isBlank).dropWhile isBlank = cs.dropWhile isBlank :=
    List.dropWhile_idempotent isBlank _
  rw [List.dropWhile_eq_self_iff] at hfront ⊢
  intro hpos
  have hstart : trimList cs <+: cs.dropWhile isBlank := List.rdropWhile_prefix isBlank _
  rw [hstart.getElem hpos]
  exact hfront _

theorem trimList_trimList (cs : List Char) : trimList (trimList cs) = trimList cs := by
  rw [trimList_eq (trimList cs), dropWhile_trimList, trimList_eq, List.rdropWhile_idempotent]

theorem trim_trim (s : String) : trim (trim s) = trim s := by
  rw [trim, trim, String.toList_ofList, trimList_trimList]

end Text

/-! ## Formats -/

namespace Format

variable {f g : Format}

/-- Every number of the first format is one of the second: neither the digits nor the exponents of
the second are fewer. -/
structure Narrower (f g : Format) : Prop where
  digits : 3 ≤ f.precision
  bits : 1 ≤ f.width
  precision : f.precision ≤ g.precision
  width : f.width ≤ g.width

theorem single_narrower_double : single.Narrower double := by
  constructor <;> decide

theorem Narrower.two_pow_le (h : f.Narrower g) : 2 ^ (f.width - 1) ≤ 2 ^ (g.width - 1) :=
  Nat.pow_le_pow_right (by decide) (Nat.sub_le_sub_right h.width 1)

theorem Narrower.scale_le (h : f.Narrower g) : f.scale ≤ g.scale := by
  have hpow : Nat.pow 2 (f.width - 1) ≤ Nat.pow 2 (g.width - 1) := h.two_pow_le
  have := h.precision
  unfold scale
  omega

/-- A magnitude in units of the narrower format, counted in units of the wider one. -/
def rescale (f g : Format) (u : Nat) : Nat := u * 2 ^ (g.scale - f.scale)

theorem Narrower.rescale_mul (h : f.Narrower g) (u : Nat) :
    f.rescale g u * Nat.pow 2 f.scale = u * Nat.pow 2 g.scale := by
  have hpow : 2 ^ (g.scale - f.scale) * 2 ^ f.scale = 2 ^ g.scale := by
    rw [← Nat.pow_add, Nat.sub_add_cancel h.scale_le]
  rw [rescale, Nat.mul_assoc]
  exact congrArg (u * ·) hpow

theorem Narrower.rescale_lt_limit (h : f.Narrower g) {u : Nat} (hu : u < f.limit) :
    f.rescale g u < g.limit := by
  have hlimit : u < 2 ^ (2 ^ f.width + f.precision - 3) := hu
  have hexp : 2 ^ f.width + f.precision - 3 + (g.scale - f.scale) ≤
      2 ^ g.width + g.precision - 3 := by
    have hf : 2 ^ f.width = 2 * 2 ^ (f.width - 1) := by
      rw [← Nat.pow_succ', Nat.succ_eq_add_one, Nat.sub_add_cancel h.bits]
    have hg : 2 ^ g.width = 2 * 2 ^ (g.width - 1) := by
      rw [← Nat.pow_succ', Nat.succ_eq_add_one, Nat.sub_add_cancel (h.bits.trans h.width)]
    have hs (k : Format) : k.scale = 2 ^ (k.width - 1) + k.precision - 3 := rfl
    have := h.two_pow_le
    have := h.digits
    have := h.precision
    rw [hf, hg, hs f, hs g]
    omega
  calc f.rescale g u
      < 2 ^ (2 ^ f.width + f.precision - 3) * 2 ^ (g.scale - f.scale) :=
        Nat.mul_lt_mul_of_pos_right hlimit (Nat.two_pow_pos _)
    _ = 2 ^ (2 ^ f.width + f.precision - 3 + (g.scale - f.scale)) := (Nat.pow_add 2 _ _).symm
    _ ≤ 2 ^ (2 ^ g.width + g.precision - 3) := Nat.pow_le_pow_right (by decide) hexp

/-- A number of the narrower format is one of the wider format. -/
theorem Narrower.fits (h : f.Narrower g) {u : Nat} (hu : f.Fits u) : g.Fits (f.rescale g u) := by
  refine ⟨h.rescale_lt_limit hu.1, Nat.mod_eq_zero_of_dvd ?_⟩
  by_cases hz : u = 0
  · rw [rescale, hz, Nat.zero_mul]; exact Nat.dvd_zero _
  · have hlog : (f.rescale g u).log2 = u.log2 + (g.scale - f.scale) := by
      have hpos : f.rescale g u ≠ 0 := Nat.mul_ne_zero hz (Nat.two_pow_pos _).ne'
      refine (Nat.log2_eq_iff hpos).mpr ⟨?_, ?_⟩
      · rw [Nat.pow_add]
        exact Nat.mul_le_mul_right _ (Nat.log2_self_le hz)
      · rw [Nat.add_right_comm, Nat.pow_add]
        exact Nat.mul_lt_mul_of_pos_right Nat.lt_log2_self (Nat.two_pow_pos _)
    have hprecision := h.precision
    calc g.granule (f.rescale g u)
        = 2 ^ (u.log2 + (g.scale - f.scale) + 1 - g.precision) := by rw [granule_eq, hlog]
      _ ∣ 2 ^ (u.log2 + 1 - f.precision + (g.scale - f.scale)) := Nat.pow_dvd_pow 2 (by omega)
      _ = f.granule u * 2 ^ (g.scale - f.scale) := by rw [granule_eq, Nat.pow_add]
      _ ∣ f.rescale g u := Nat.mul_dvd_mul_right hu.dvd _

end Format

namespace Binary

variable {f g : Format}

/-- Conversion to a wider format is exact. -/
theorem convert_finite (h : f.Narrower g) (n : Bool) {u : Nat} (hu : f.Fits u) :
    (finite n u hu).convert g = finite n (f.rescale g u) (h.fits hu) := by
  have hprecision : 1 ≤ g.precision := by have := h.digits; have := h.precision; omega
  have hnearest : g.nearest (u * Nat.pow 2 g.scale) (Nat.pow 2 f.scale) = f.rescale g u := by
    rw [← h.rescale_mul]
    exact Format.nearest_mul hprecision (h.fits hu) (Nat.two_pow_pos _)
  simp only [convert, ofRatio, hnearest, ofUnits, h.fits hu, dif_pos]

/-- A number that goes to a wider format comes back as it was. -/
theorem convert_convert (h : f.Narrower g) (x : Binary f) : (x.convert g).convert f = x := by
  cases x with
  | nan => rfl
  | infinite n => rfl
  | finite n u hu =>
    have hnearest : f.nearest (f.rescale g u * Nat.pow 2 f.scale) (Nat.pow 2 g.scale) = u := by
      rw [h.rescale_mul]
      exact Format.nearest_mul (by have := h.digits; omega) hu (Nat.two_pow_pos _)
    rw [convert_finite h n hu]
    simp only [convert, ofRatio, hnearest, ofUnits, hu, dif_pos]

end Binary

/-! ## Items -/

namespace Item

/-- What conversion to its own type makes of an item: a boolean loses its score, a URI the white
space around it, and everything else stays as it is. -/
def renewed : Item → Item
  | .bool b => .bool (.plain b.value)
  | .anyUri s => .anyUri (Text.trim s)
  | i => i

theorem cast_own_type (i : Item) : i.cast i.type = .ok i.renewed := by
  cases i with
  | float x =>
    simp only [type, cast, toDouble, Except.map, renewed,
      Binary.convert_convert Format.single_narrower_double]
  | _ => rfl

/-- A conversion yields no score, and no white space around a URI. -/
theorem renewed_of_cast {i j : Item} {a : Atom} (h : i.cast a = .ok j) : j.renewed = j := by
  obtain rfl := cast_type h
  cases j with
  | bool b =>
    have hb : b.score = .zero := cast_unscored h
    rw [renewed, ← Truth.eq_plain hb]
  | anyUri s =>
    simp only [type, cast] at h
    cases i <;> simp only [toAnyUri, Except.map, reduceCtorEq, Except.ok.injEq, anyUri.injEq] at h
    all_goals rw [← h, renewed, Text.trim_trim]
  | _ => rfl

/-- An item that came out of a conversion is not changed by it. -/
theorem cast_again {i j : Item} {a : Atom} (h : i.cast a = .ok j) : j.cast a = .ok j := by
  rw [← cast_type h, cast_own_type, renewed_of_cast h]

end Item

/-! ## Values -/

/-- A value that came out of a conversion is of the type that was asked for, and the same conversion
gives it back, at whatever place. It is empty only where nothing was converted to a type that allows
nothing. -/
theorem Value.cast_lands {t : SeqType} (ht : t.isCastTarget = true) {v w : Value} {span : Span}
    (h : v.cast t span = .ok w) :
    t.admits w = true ∧ (∀ span', w.cast t span' = .ok w) ∧
      (w = [] → v = [] ∧ t.occurs = .zeroOrOne) := by
  refine ⟨SeqType.castTarget_admits ht h, ?_⟩
  rcases Value.cast_eq_ok h with ⟨rfl, rfl, hmin⟩ | ⟨i, j, rfl, rfl, hj⟩
  · have hoccurs : t.occurs = .zeroOrOne := by
      rcases SeqType.castTarget_occurs ht with hone | hoccurs
      · rw [hone] at hmin; cases hmin
      · exact hoccurs
    exact ⟨fun _ => h, fun _ => ⟨rfl, hoccurs⟩⟩
  · have hagain (span' : Span) : Value.cast [j] t span' = .ok [j] := by
      simp only [Value.cast, Value.single?, Item.cast_again hj]
    exact ⟨hagain, fun hnil => absurd hnil (List.cons_ne_nil j [])⟩

/-- Text with white space around it becomes a URI, and the URI stays. -/
theorem Value.cast_lands_uri :
    let v : Value := [.string " a b "]
    let w : Value := [.anyUri "a b"]
    (SeqType.zeroOrOne .anyUri).admits w = true ∧
      (∀ span, w.cast (.zeroOrOne .anyUri) span = .ok w) ∧
      (w = [] → v = [] ∧ (SeqType.zeroOrOne .anyUri).occurs = .zeroOrOne) :=
  Value.cast_lands (by decide)
    (show Value.cast [.string " a b "] (.zeroOrOne .anyUri) .unknown = .ok [.anyUri "a b"] from rfl)

end QueryExpr
