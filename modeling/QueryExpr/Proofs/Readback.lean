import QueryExpr.Proofs.Conversion
import QueryExpr.Proofs.Interval
import QueryExpr.Proofs.Numerals

/-!
# QueryExpr.Proofs.Readback

The string value of an item, read back.

* `Text.trim_eq_self`       — text without white space is left alone by trimming.
* `integerText_toString`    — the string value of an integer is a numeral that denotes it.
* `QName.read?_eq_some`     — what is read is the name, well formed, that the text is written from.
* `Item.castBack_text`      — which integers, booleans and names a conversion to text keeps.
-/

namespace QueryExpr

/-! ## White space -/

namespace Text

/-- Ranges that lie apart have no code point in common. -/
theorem inRanges_apart {rs qs : List (Nat × Nat)}
    (hapart : (rs.all fun r => qs.all fun q => Nat.blt r.2 q.1 || Nat.blt q.2 r.1) = true) {n : Nat}
    (hn : inRanges rs n = true) : inRanges qs n = false := by
  simp only [inRanges, List.any_eq_true, Bool.and_eq_true, decide_eq_true_eq] at hn
  obtain ⟨r, hr, hlow, hhigh⟩ := hn
  simp only [inRanges, List.any_eq_false, Bool.and_eq_true, decide_eq_true_eq]
  intro q hq
  simp only [List.all_eq_true, Bool.or_eq_true, Nat.blt_eq] at hapart
  have := hapart r hr q hq
  omega

theorem isBlank_of_isLetter {c : Char} (hc : isLetter c = true) : isBlank c = false :=
  inRanges_apart (by decide +kernel) hc

theorem isBlank_of_isNumber {c : Char} (hc : isNumber c = true) : isBlank c = false :=
  inRanges_apart (by decide +kernel) hc

theorem isBlank_of_isDigit {c : Char} (hc : c.isDigit = true) : isBlank c = false := by
  obtain ⟨hlow, hhigh⟩ : 48 ≤ c.toNat ∧ c.toNat ≤ 57 := Char.isDigit_iff_toNat.mp hc
  have hrange : inRanges [(48, 57)] c.toNat = true := by simp [inRanges, hlow, hhigh]
  exact inRanges_apart (by decide) hrange

theorem trim_eq_self {s : String} (hs : ∀ c ∈ s.toList, isBlank c = false) : trim s = s := by
  have hfront : s.toList.dropWhile isBlank = s.toList := by
    rw [List.dropWhile_eq_self_iff]
    intro hpos hblank
    rw [hs _ (List.getElem_mem hpos)] at hblank
    cases hblank
  have hback : s.toList.rdropWhile isBlank = s.toList := by
    rw [List.rdropWhile_eq_self_iff]
    intro hne hblank
    rw [hs _ (List.getLast_mem hne)] at hblank
    cases hblank
  rw [trim, trimList_eq, hfront, hback, String.ofList_toList]

end Text

/-! ## Integers -/

/-- The decimal digits of a number denote it: those of a tenth of it, and one more. -/
theorem digits_repr (n : Nat) : Digits n.repr.toList n := by
  rw [Nat.toList_repr]
  induction n using Nat.strongRecOn with
  | _ n ih =>
    by_cases hn : n < 10
    · rw [Nat.toDigits_of_lt_base hn]
      exact .single hn
    · rw [Nat.toDigits_of_base_le (by decide) (by omega)]
      have happend := Digits.append (ih (n / 10) (by omega)) (Nat.mod_lt n (by decide : 0 < 10))
      rwa [Nat.div_add_mod] at happend

theorem integerText_toString (z : Int) : IntegerText (toString z).toList z := by
  cases z with
  | ofNat n => exact .unsigned (digits_repr n)
  | negSucc n =>
    have htext : (toString (Int.negSucc n)).toList = '-' :: (n + 1).repr.toList :=
      String.toList_append
    rw [htext, Int.negSucc_eq]
    exact .minus (digits_repr (n + 1))

theorem Digits.isBlank {ds : List Char} {n : Nat} (h : Digits ds n) :
    ∀ c ∈ ds, Text.isBlank c = false :=
  fun c hc => Text.isBlank_of_isDigit ((digits_iff.mp h).2.1 c hc)

theorem IntegerText.isBlank {cs : List Char} {z : Int} (h : IntegerText cs z) :
    ∀ c ∈ cs, Text.isBlank c = false := by
  cases h with
  | unsigned hds => exact hds.isBlank
  | plus hds => exact List.forall_mem_cons.mpr ⟨by decide, hds.isBlank⟩
  | minus hds => exact List.forall_mem_cons.mpr ⟨by decide, hds.isBlank⟩

/-! ## Names -/

namespace QName

/-- A name that can be written: its parts are names without a colon. -/
structure WellFormed (q : QName) : Prop where
  qualifier : ∀ p, q.qualifier = some p → isSimple p.toList = true
  localName : isSimple q.localName.toList = true

theorem isPart_of_isStart {c : Char} (hc : isStart c = true) : isPart c = true := by
  simp only [isStart, Bool.or_eq_true] at hc
  simp only [isPart, Bool.or_eq_true]
  rcases hc with hc | hc
  · exact .inl (.inl (.inl (.inl hc)))
  · exact .inl (.inl (.inr hc))

theorem isPart_of_isSimple {cs : List Char} (h : isSimple cs = true) :
    ∀ c ∈ cs, isPart c = true := by
  cases cs with
  | nil => cases h
  | cons c cs =>
    simp only [isSimple, Bool.and_eq_true, List.all_eq_true] at h
    exact List.forall_mem_cons.mpr ⟨isPart_of_isStart h.1, h.2⟩

theorem isBlank_of_isPart {c : Char} (hc : isPart c = true) : Text.isBlank c = false := by
  simp only [isPart, Bool.or_eq_true, beq_iff_eq] at hc
  rcases hc with (((hc | hc) | rfl) | rfl) | rfl
  · exact Text.isBlank_of_isLetter hc
  · exact Text.isBlank_of_isNumber hc
  all_goals decide

theorem isPart_colon : isPart ':' = false := by decide +kernel

/-- No part of a name has the mark that separates the two. -/
theorem ne_colon_of_isSimple {cs : List Char} (h : isSimple cs = true) :
    ∀ c ∈ cs, (c != ':') = true := by
  intro c hc
  have hpart := isPart_of_isSimple h c hc
  rw [bne_iff_ne]
  rintro rfl
  rw [isPart_colon] at hpart
  cases hpart

theorem text_none (l : String) : (QName.mk none l).text = l := rfl

theorem toList_text_some (p l : String) :
    (QName.mk (some p) l).text.toList = p.toList ++ ':' :: l.toList := by
  simp [text, String.toList_append]

theorem WellFormed.isBlank {q : QName} (hq : q.WellFormed) :
    ∀ c ∈ q.text.toList, Text.isBlank c = false := by
  have hpart {cs : List Char} (h : isSimple cs = true) : ∀ c ∈ cs, Text.isBlank c = false :=
    fun c hc => isBlank_of_isPart (isPart_of_isSimple h c hc)
  obtain ⟨qualifier, l⟩ := q
  cases qualifier with
  | none => exact hpart hq.localName
  | some p =>
    intro c hc
    rw [toList_text_some, List.mem_append, List.mem_cons] at hc
    rcases hc with hc | rfl | hc
    · exact hpart (hq.qualifier p rfl) c hc
    · decide
    · exact hpart hq.localName c hc

/-- What is read is written as the text. -/
theorem text_of_read? {s : String} {q : QName} (h : read? s = some q) :
    q.WellFormed ∧ q.text = s := by
  have hs : s.toList.takeWhile (· != ':') ++ s.toList.dropWhile (· != ':') = s.toList :=
    List.takeWhile_append_dropWhile
  simp only [read?] at h
  split at h
  · rename_i hrest
    rw [hrest, List.append_nil] at hs
    split at h
    · rename_i hsimple
      cases h
      refine ⟨⟨nofun, ?_⟩, ?_⟩
      · rwa [String.toList_ofList]
      · rw [text_none, hs, String.ofList_toList]
    · cases h
  · rename_i c rest hrest
    have hcolon : c = ':' := by
      have hhead := List.head_dropWhile_not (· != ':') (l := s.toList) (by rw [hrest]; simp)
      simpa [hrest] using hhead
    split at h
    · rename_i hsimple
      cases h
      rw [Bool.and_eq_true] at hsimple
      refine ⟨⟨?_, ?_⟩, ?_⟩
      · rintro p ⟨⟩
        rw [String.toList_ofList]
        exact hsimple.1
      · rw [String.toList_ofList]
        exact hsimple.2
      · rw [hrest, hcolon] at hs
        rw [← String.toList_inj, toList_text_some, String.toList_ofList, String.toList_ofList, hs]
    · cases h

/-- A name that can be written is read from its text. -/
theorem WellFormed.read? {q : QName} (hq : q.WellFormed) : QName.read? q.text = some q := by
  have hlocal := ne_colon_of_isSimple hq.localName
  obtain ⟨qualifier, l⟩ := q
  cases qualifier with
  | none =>
    have hfirst : l.toList.takeWhile (· != ':') = l.toList := List.takeWhile_eq_self_iff.mpr hlocal
    have hrest : l.toList.dropWhile (· != ':') = [] := List.dropWhile_eq_nil_iff.mpr hlocal
    have hsimple : isSimple l.toList = true := hq.localName
    simp only [QName.read?, text_none, hfirst, hrest, hsimple, if_true, String.ofList_toList]
  | some p =>
    have hp : isSimple p.toList = true := hq.qualifier p rfl
    have hl : isSimple l.toList = true := hq.localName
    have hfirst : (p.toList ++ ':' :: l.toList).takeWhile (· != ':') = p.toList := by
      rw [List.takeWhile_append_of_pos (ne_colon_of_isSimple hp)]
      simp
    have hrest : (p.toList ++ ':' :: l.toList).dropWhile (· != ':') = ':' :: l.toList := by
      rw [List.dropWhile_append_of_pos (ne_colon_of_isSimple hp)]
      simp
    simp only [QName.read?, toList_text_some, hfirst, hrest, hp, hl, Bool.and_self, if_true,
      String.ofList_toList]

/-- Reading undoes writing, on the names that can be written and on no others. -/
theorem read?_eq_some {s : String} {q : QName} :
    read? s = some q ↔ q.WellFormed ∧ q.text = s := by
  constructor
  · exact text_of_read?
  · rintro ⟨hq, rfl⟩
    exact hq.read?

example : read? "a:b:c" = none := by decide +kernel

end QName

/-! ## Items -/

/-- Zero equals the zeros of either sign and nothing else. -/
theorem Score.equal_zero (s : Score) : Score.zero.equal s = s.isZero := by
  obtain ⟨x⟩ := s
  show (Binary.zero false).equal x = x.isZero
  cases x with
  | nan => rfl
  | infinite n => cases n <;> decide +kernel
  | finite n u hu =>
    rw [Binary.equal_of_position rfl rfl, Binary.isZero, Bool.eq_iff_iff, decide_eq_true_eq,
      beq_iff_eq]
    cases n
    · show (0 : Int) = u ↔ u = 0
      omega
    · show (0 : Int) = -u ↔ u = 0
      omega

namespace Item

/-- Conversion to a type, and from there back to the type of the item. -/
def castBack (i : Item) (t : Atom) : Except CastError Item := (i.cast t).bind (·.cast i.type)

variable {t : Atom}

/-- Untyped text is converted as a string is. -/
theorem cast_untyped (s : String) {a : Atom} (ha : a.isCastable = true) :
    (Item.untyped s).cast a = (Item.string s).cast a := by
  cases a with
  | item => cases ha
  | anyAtomic => cases ha
  | numeric => cases ha
  | _ => rfl

theorem castBack_eq (ht : t = .string ∨ t = .untyped) (i : Item) :
    i.castBack t = (Item.string i.text).cast i.type := by
  rcases ht with rfl | rfl
  · rfl
  · have htype : i.type.isCastable = true := by cases i <;> rfl
    exact cast_untyped i.text htype

theorem castBack_integer (ht : t = .string ∨ t = .untyped) (n : Int64) :
    (Item.integer n).castBack t = .ok (.integer n) := by
  have hwritten : IntegerText (toString n.toInt).toList n.toInt := integerText_toString n.toInt
  rw [castBack_eq ht]
  refine (cast_integer_eq_ok (.inl rfl)).mpr (.inl ?_)
  rwa [text, Text.trim_eq_self hwritten.isBlank]

theorem castBack_bool (ht : t = .string ∨ t = .untyped) (b : Truth) :
    (Item.bool b).castBack t = .ok (.bool (.plain b.value)) := by
  have htrim : Text.trim (boolText b.value) = boolText b.value := by
    cases b.value <;> decide +kernel
  rw [castBack_eq ht]
  simp only [type, text, cast, toBoolean, htrim]
  cases b.value <;> rfl

theorem castBack_qname (ht : t = .string ∨ t = .untyped) (q : QName) :
    (Item.qname q).castBack t = .ok (.qname q) ↔ q.WellFormed := by
  have hread : (Item.qname q).castBack t = .ok (.qname q) ↔
      QName.read? (Text.trim q.text) = some q := by
    rw [castBack_eq ht]
    simp only [type, text, cast, toQName]
    cases QName.read? (Text.trim q.text) <;> simp [Except.map]
  rw [hread, QName.read?_eq_some]
  constructor
  · exact And.left
  · intro hq
    exact ⟨hq, (Text.trim_eq_self hq.isBlank).symm⟩

/-- The boolean without its score is the boolean itself, if it had none. -/
theorem plain_eq_iff {b : Truth} :
    (Item.bool (.plain b.value) = .bool b ↔ b.score = .zero) ∧
      ((Item.bool (.plain b.value)).same (.bool b) = true ↔ b.score.isZero = true) := by
  obtain ⟨value, score⟩ := b
  constructor
  · simp [Truth.plain, eq_comm]
  · simp [same, Truth.same, Truth.plain, Score.equal_zero]

/-- A conversion to text and back keeps every integer, the booleans without a score, and the names
that can be written; and what is read as a name is the text of the name. -/
theorem castBack_text (ht : t = .string ∨ t = .untyped) :
    (∀ n : Int64, (Item.integer n).castBack t = .ok (.integer n)) ∧
    (∀ b : Truth, ∃ i : Item, (Item.bool b).castBack t = .ok i ∧
      (i = .bool b ↔ b.score = .zero) ∧ (i.same (.bool b) = true ↔ b.score.isZero = true)) ∧
    (∀ q : QName, (Item.qname q).castBack t = .ok (.qname q) ↔ q.WellFormed) ∧
    ∀ (s : String) (q : QName), QName.read? s = some q ↔ q.WellFormed ∧ q.text = s :=
  ⟨castBack_integer ht, fun b => ⟨_, castBack_bool ht b, plain_eq_iff⟩, castBack_qname ht,
    fun _ _ => QName.read?_eq_some⟩

/-- The least integer, a truth value, and a name with two parts, as untyped text. -/
theorem castBack_text_untyped :
    (Item.integer Int64.minValue).castBack .untyped = .ok (.integer Int64.minValue) ∧
      (∃ i : Item, (Item.bool (.plain true)).castBack .untyped = .ok i ∧ i = .bool (.plain true)) ∧
      (Item.qname ⟨some "a-1", "_b"⟩).castBack .untyped = .ok (.qname ⟨some "a-1", "_b"⟩) ∧
      QName.read? "a-1:_b" = some ⟨some "a-1", "_b"⟩ := by
  have hname : (QName.mk (some "a-1") "_b").WellFormed := by
    refine ⟨?_, by decide +kernel⟩
    rintro p ⟨⟩
    decide +kernel
  obtain ⟨hinteger, hbool, hqname, hread⟩ := castBack_text (t := .untyped) (.inr rfl)
  obtain ⟨i, hi, hplain, -⟩ := hbool (.plain true)
  exact ⟨hinteger _, ⟨i, hi, hplain.mpr rfl⟩, (hqname _).mpr hname, (hread _ _).mpr ⟨hname, rfl⟩⟩

end Item
end QueryExpr
