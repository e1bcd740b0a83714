import Mathlib.Data.List.Forall2
import QueryExpr.Proofs.Interval

/-!
# QueryExpr.Proofs.Wording

When two equal things are written alike.

* `Span.text_eq_iff`      — two places are, if they are one place or both unknown.
* `CompileError.message_eq_iff`, `EvalError.message_eq_iff` — two equal causes are, if the places
  they name are.
* `Binary.text_of_equal`  — two equal numbers are, if they are no zeros of different signs.
* `Value.text_eq_iff`     — two equal values are, if their numbers are.

Equal things are compared here throughout: they are known to agree in everything but places and the
signs of zeros, and the question is what the text adds.
-/

namespace QueryExpr

/-! ## Texts that differ -/

/-- Two texts part at some character, and agree in front of it. -/
def Part (s t : String) : Prop :=
  ∃ p c d r r', c ≠ d ∧ s.toList = p ++ c :: r ∧ t.toList = p ++ d :: r'

namespace Part

variable {s t : String}

theorem ne (h : Part s t) : s ≠ t := by
  rintro rfl
  obtain ⟨p, c, d, r, r', hcd, hs, ht⟩ := h
  rw [hs, List.append_cancel_left_eq, List.cons.injEq] at ht
  exact hcd ht.1

/-- What stands behind does not bring them together again. -/
theorem append (h : Part s t) (u v : String) : Part (s ++ u) (t ++ v) := by
  obtain ⟨p, c, d, r, r', hcd, hs, ht⟩ := h
  refine ⟨p, c, d, r ++ u.toList, r' ++ v.toList, hcd, ?_, ?_⟩
  · rw [String.toList_append, hs, List.append_assoc, List.cons_append]
  · rw [String.toList_append, ht, List.append_assoc, List.cons_append]

theorem after (u : String) (h : Part s t) : Part (u ++ s) (u ++ t) := by
  obtain ⟨p, c, d, r, r', hcd, hs, ht⟩ := h
  refine ⟨u.toList ++ p, c, d, r, r', hcd, ?_, ?_⟩
  · rw [String.toList_append, hs, List.append_assoc]
  · rw [String.toList_append, ht, List.append_assoc]

end Part

/-! ## Places -/

/-- Two places are one place, or both unknown. -/
def Span.Alike (s t : Span) : Prop := s = t ∨ s.isKnown = false ∧ t.isKnown = false

theorem colon_not_mem_repr (n : Nat) : ':' ∉ n.repr.toList := by
  intro h
  rw [Nat.toList_repr] at h
  have hdigit := Nat.isDigit_of_mem_toDigits (by decide) (by decide) h
  exact absurd hdigit (by decide)

/-- A number is known from its digits. -/
theorem toList_repr_inj {m n : Nat} (h : m.repr.toList = n.repr.toList) : m = n := by
  rw [Nat.toList_repr, Nat.toList_repr] at h
  calc m = Nat.ofDigitChars 10 (Nat.toDigits 10 m) 0 := Nat.ofDigitChars_ten_toDigits.symm
    _ = Nat.ofDigitChars 10 (Nat.toDigits 10 n) 0 := by rw [h]
    _ = n := Nat.ofDigitChars_ten_toDigits

/-- The text in front of the first colon is known. -/
theorem append_colon_inj {l m : List Char} (hl : ':' ∉ l) (hm : ':' ∉ m) {r s : List Char}
    (h : l ++ ':' :: r = m ++ ':' :: s) : l = m ∧ r = s := by
  induction l generalizing m with
  | nil =>
    cases m with
    | nil => exact ⟨rfl, (List.cons.inj h).2⟩
    | cons d m =>
      have hd : ':' = d := (List.cons.inj h).1
      exact absurd (hd ▸ List.mem_cons_self ..) hm
  | cons c l ih =>
    cases m with
    | nil =>
      have hc : c = ':' := (List.cons.inj h).1
      exact absurd (hc ▸ List.mem_cons_self ..) hl
    | cons d m =>
      obtain ⟨hc, h'⟩ := List.cons.inj h
      obtain ⟨hl', hr⟩ :=
        ih (List.not_mem_of_not_mem_cons hl) (List.not_mem_of_not_mem_cons hm) h'
      exact ⟨by rw [hc, hl'], hr⟩

theorem Span.toList_text_known {s : Span} (h : s.isKnown = true) :
    s.text.toList = s.line.repr.toList ++ ':' :: s.column.repr.toList := by
  simp [text, h]

theorem Span.text_unknown {s : Span} (h : s.isKnown = false) : s.text = "?" := by
  simp [text, h]

theorem Span.text_known_ne {s : Span} (h : s.isKnown = true) : s.text ≠ "?" := by
  intro he
  have hc : ':' ∈ s.text.toList := by simp [toList_text_known h]
  rw [he] at hc
  exact absurd hc (by decide)

theorem Span.text_eq_iff {s t : Span} : s.text = t.text ↔ s.Alike t := by
  constructor
  · intro h
    cases hs : s.isKnown with
    | false =>
      cases ht : t.isKnown with
      | false => exact .inr ⟨hs, ht⟩
      | true => exact absurd (h.symm.trans (text_unknown hs)) (text_known_ne ht)
    | true =>
      cases ht : t.isKnown with
      | false => exact absurd (h.trans (text_unknown ht)) (text_known_ne hs)
      | true =>
        have hl : s.text.toList = t.text.toList := by rw [h]
        rw [toList_text_known hs, toList_text_known ht] at hl
        obtain ⟨hline, hcolumn⟩ :=
          append_colon_inj (colon_not_mem_repr _) (colon_not_mem_repr _) hl
        have hline := toList_repr_inj hline
        have hcolumn := toList_repr_inj hcolumn
        left
        cases s
        cases t
        simp_all
  · rintro (rfl | ⟨hs, ht⟩)
    · rfl
    · rw [text_unknown hs, text_unknown ht]

/-! ## Causes -/

mutual

/-- The place that a cause names in its message, if it names one. -/
def EvalError.place : EvalError → Span
  | .type _ _ s => s
  | .ebv _ s => s
  | .noContext s => s
  | .unboundVariable _ s => s
  | .deferred cause => cause.place
  | .cast _ => .unknown
  | .fileList _ _ => .unknown
  | .pattern _ _ => .unknown
  | .cancelled => .unknown

def CompileError.place : CompileError → Span
  | .typeMismatch _ _ s => s
  | .invalidCastTarget _ s => s
  | .malformedPattern _ _ s => s
  | .arity _ _ _ s => s
  | .missingDefaultCase s => s
  | .eval cause => cause.place

end

theorem Span.Alike.refl (s : Span) : s.Alike s := .inl rfl

-- The equations below hold by definition; those that Lean derives from a definition by mutual
-- recursion take minutes here, since they look into the fixed texts.

namespace EvalError

theorem message_type (expected found : String) (s : Span) : (type expected found s).message =
    "type error at " ++ s.text ++ ": expected " ++ expected ++ ", found " ++ found := rfl

theorem message_ebv (found : String) (s : Span) : (ebv found s).message =
    "effective boolean value not defined for " ++ found ++ " at " ++ s.text := rfl

theorem message_noContext (s : Span) : (noContext s).message = "no context item at " ++ s.text :=
  rfl

theorem message_unboundVariable (name : String) (s : Span) : (unboundVariable name s).message =
    "variable $" ++ name ++ " is not bound at " ++ s.text := rfl

theorem message_deferred (cause : CompileError) :
    (deferred cause).message = "deferred: " ++ cause.message := rfl

end EvalError

namespace CompileError

theorem message_typeMismatch (expected found : String) (s : Span) :
    (typeMismatch expected found s).message =
      "type mismatch at " ++ s.text ++ ": expected " ++ expected ++ ", found " ++ found := rfl

theorem message_invalidCastTarget (target : SeqType) (s : Span) :
    (invalidCastTarget target s).message =
      "invalid cast target at " ++ s.text ++ ": " ++ target.text := rfl

theorem message_malformedPattern (pattern reason : String) (s : Span) :
    (malformedPattern pattern reason s).message =
      "malformed pattern '" ++ pattern ++ "' at " ++ s.text ++ ": " ++ reason := rfl

theorem message_arity (name : String) (expected found : Nat) (s : Span) :
    (arity name expected found s).message =
      name ++ "() at " ++ s.text ++ " expects " ++ toString expected ++
        " argument(s), found " ++ toString found := rfl

theorem message_missingDefaultCase (s : Span) :
    (missingDefaultCase s).message = "typeswitch at " ++ s.text ++ " has no default case" := rfl

theorem message_eval (cause : EvalError) : (eval cause).message = cause.message := rfl

end CompileError

mutual

/-- Causes that are equal but for places have one code. -/
theorem EvalError.code_of_same {a b : EvalError} (h : a.same b = true) : a.code = b.code := by
  cases a with
  | cast a =>
    cases b with
    | cast b =>
      obtain rfl : a = b := by simpa [EvalError.same] using h
      rfl
    | _ => simp [EvalError.same] at h
  | deferred a =>
    cases b with
    | deferred b => exact CompileError.code_of_same (a := a) (b := b) h
    | _ => simp [EvalError.same] at h
  | _ => cases b <;> first | rfl | simp [EvalError.same] at h

theorem CompileError.code_of_same {a b : CompileError} (h : a.same b = true) :
    a.code = b.code := by
  cases a with
  | eval a =>
    cases b with
    | eval b => exact EvalError.code_of_same (a := a) (b := b) h
    | _ => simp [CompileError.same] at h
  | _ => cases b <;> first | rfl | simp [CompileError.same] at h

end

section
attribute [local simp] Span.text_eq_iff Span.Alike.refl EvalError.message_type
  EvalError.message_ebv EvalError.message_noContext EvalError.message_unboundVariable
  EvalError.message_deferred CompileError.message_typeMismatch
  CompileError.message_invalidCastTarget CompileError.message_malformedPattern
  CompileError.message_arity CompileError.message_missingDefaultCase CompileError.message_eval
  EvalError.place CompileError.place

mutual

theorem EvalError.message_eq_iff {a b : EvalError} (h : a.same b = true) :
    a.message = b.message ↔ a.place.Alike b.place := by
  cases a with
  | deferred a =>
    cases b with
    | deferred b => simpa using CompileError.message_eq_iff (a := a) (b := b) h
    | _ => simp [EvalError.same] at h
  | _ =>
    cases b <;>
      simp only [EvalError.same, Bool.and_eq_true, beq_iff_eq, Bool.false_eq_true] at h
    all_goals simp [h]

theorem CompileError.message_eq_iff {a b : CompileError} (h : a.same b = true) :
    a.message = b.message ↔ a.place.Alike b.place := by
  cases a with
  | eval a =>
    cases b with
    | eval b => simpa using EvalError.message_eq_iff (a := a) (b := b) h
    | _ => simp [CompileError.same] at h
  | _ =>
    cases b <;>
      simp only [CompileError.same, Bool.and_eq_true, beq_iff_eq, Bool.false_eq_true] at h
    all_goals simp [h]

end

end

/-! ## Numbers -/

namespace Binary

variable {f : Format} {x y : Binary f}

theorem zero_eq {n : Bool} (h : f.Fits 0) : finite n 0 h = zero n := rfl

/-- Two equal numbers are one number, or zeros of different signs. -/
theorem eq_or_zeros (h : x.equal y = true) : x = y ∨ ∃ n, x = zero n ∧ y = zero !n := by
  have hp := position_of_equal h
  cases x with
  | nan => simp [equal, Binary.compare, position] at h
  | infinite n =>
    cases y with
    | nan => simp [position] at hp
    | infinite m =>
      have := f.limit_pos
      cases n <;> cases m <;> simp [position] at hp ⊢ <;> omega
    | finite m u hu =>
      have := hu.1
      cases n <;> cases m <;> simp [position] at hp <;> omega
  | finite n u hu =>
    cases y with
    | nan => simp [position] at hp
    | infinite m =>
      have := hu.1
      cases n <;> cases m <;> simp [position] at hp <;> omega
    | finite m w hw =>
      by_cases hnm : n = m
      · left
        subst hnm
        obtain rfl : u = w := by cases n <;> simp [position] at hp <;> omega
        rfl
      · right
        obtain rfl : u = 0 := by cases n <;> cases m <;> simp [position] at hp hnm <;> omega
        obtain rfl : w = 0 := by cases n <;> cases m <;> simp [position] at hp hnm <;> omega
        refine ⟨n, rfl, ?_⟩
        rw [zero_eq, Bool.eq_not_of_ne (Ne.symm hnm)]

theorem text_zero (word : String) (n : Bool) :
    (zero n : Binary f).text word = if n then "-0" else "0" := rfl

/-- The texts of zeros of different signs part. -/
theorem part_zeros (word : String) (n : Bool) :
    Part ((zero n : Binary f).text word) ((zero !n : Binary f).text word) := by
  rw [text_zero, text_zero]
  cases n with
  | false => exact ⟨[], '0', '-', [], ['0'], by decide, rfl, rfl⟩
  | true => exact ⟨[], '-', '0', ['0'], [], by decide, rfl, rfl⟩

/-- Of two equal numbers, either they are one number or their texts part. -/
theorem part_of_equal (h : x.equal y = true) (hne : x ≠ y) (word : String) :
    Part (x.text word) (y.text word) := by
  obtain rfl | ⟨n, rfl, rfl⟩ := eq_or_zeros h
  · exact absurd rfl hne
  · exact part_zeros word n

theorem text_of_equal (h : x.equal y = true) (word : String) : x.text word = y.text word ↔ x = y :=
  ⟨fun ht => by_contra fun hne => (part_of_equal h hne word).ne ht, fun he => he ▸ rfl⟩

theorem ofRatio_zero (n : Bool) (den : Nat) : (ofRatio n 0 den : Binary f) = zero n := by
  have hnearest : f.nearest 0 den = 0 := by simp [Format.nearest]
  rw [ofRatio, hnearest]
  exact dif_pos f.fits_zero

theorem convert_zero (g : Format) (n : Bool) : (zero n : Binary f).convert g = zero n := by
  rw [zero, convert, Nat.zero_mul, ofRatio_zero]

end Binary

/-- Two equal intervals are one interval if their bounds are written alike. -/
theorem Bounds.texts_eq_iff {b c : Bounds} (h : b.same c = true) :
    b.min.text "inf" = c.min.text "inf" ∧ b.max.text "inf" = c.max.text "inf" ↔ b = c := by
  obtain ⟨min, minInclusive, max, maxInclusive⟩ := b
  obtain ⟨min', minInclusive', max', maxInclusive'⟩ := c
  simp only [same, Bool.and_eq_true, beq_iff_eq] at h
  obtain ⟨⟨⟨hmin, rfl⟩, hmax⟩, rfl⟩ := h
  simp [Binary.text_of_equal hmin, Binary.text_of_equal hmax]

/-! ## Items -/

/-- Two numbers of one format are one number; nothing is asked of other items. -/
def Item.ReadsLike : Item → Item → Prop
  | .float x, .float y => x = y
  | .double x, .double y => x = y
  | _, _ => True

/-- Of two equal items, either both are written alike or their texts part. -/
theorem Item.literal_cases {i j : Item} (h : i.same j = true) :
    i.ReadsLike j ∧ i.literal = j.literal ∨ ¬i.ReadsLike j ∧ Part i.literal j.literal := by
  cases i with
  | float x =>
    cases j with
    | float y =>
      by_cases hxy : x = y
      · exact .inl ⟨hxy, by rw [hxy]⟩
      · obtain rfl | ⟨n, rfl, rfl⟩ := Binary.eq_or_zeros h
        · exact absurd rfl hxy
        · refine .inr ⟨hxy, ((?_ : Part _ _).after "xs:float(\"").append "\")" "\")"⟩
          simp only [Item.text, Binary.convert_zero]
          exact Binary.part_zeros "INF" n
    | _ => simp [Item.same] at h
  | double x =>
    cases j with
    | double y =>
      by_cases hxy : x = y
      · exact .inl ⟨hxy, by rw [hxy]⟩
      · exact .inr ⟨hxy, Binary.part_of_equal h hxy "INF"⟩
    | _ => simp [Item.same] at h
  | bool a =>
    cases j with
    | bool b =>
      have hvalue : a.value = b.value := by
        simp only [Item.same, Truth.same, Bool.and_eq_true, beq_iff_eq] at h
        exact h.1
      exact .inl ⟨trivial, congrArg (fun b => boolText b ++ "()") hvalue⟩
    | _ => simp [Item.same] at h
  | _ =>
    cases j <;> simp only [Item.same, Bool.false_eq_true, beq_iff_eq] at h
    subst h
    exact .inl ⟨trivial, rfl⟩

theorem Item.type_of_same {i j : Item} (h : i.same j = true) : i.type = j.type := by
  cases i <;> cases j <;> first | rfl | simp [Item.same] at h

/-! ## Values -/

namespace Value

/-- The numbers of two values are the same, one by one. -/
def ReadsLike (v w : Value) : Prop := List.Forall₂ Item.ReadsLike v w

theorem forall₂_of_same {v w : Value} (h : v.same w = true) :
    List.Forall₂ (fun i j => i.same j = true) v w := by
  induction v generalizing w with
  | nil =>
    cases w with
    | nil => exact .nil
    | cons j w => simp [same] at h
  | cons i v ih =>
    cases w with
    | nil => simp [same] at h
    | cons j w =>
      simp only [same, Bool.and_eq_true] at h
      exact .cons h.1 (ih h.2)

theorem type_of_same {v w : Value} (h : v.same w = true) : v.type = w.type := by
  have hforall := (forall₂_of_same h).imp fun _ _ => Item.type_of_same
  have hfold (a : Atom) (v : Value) :
      v.foldl (fun a j => a.join j.type) a = (v.map Item.type).foldl Atom.join a :=
    List.foldl_map.symm
  cases hforall with
  | nil => rfl
  | @cons i j v w hij hvw =>
    have hmap : v.map Item.type = w.map Item.type := by
      rw [← List.forall₂_eq_eq_eq, List.forall₂_map_left_iff, List.forall₂_map_right_iff]
      exact hvw
    cases hvw with
    | nil => rw [type, type, hij]
    | cons => simp only [type, hfold, hmap, hij]

/-- The texts of the items of a value, with commas between them. -/
def itemsText (v : Value) : String := ", ".intercalate (v.map Item.literal)

theorem itemsText_cons_cons (i k : Item) (v : Value) :
    itemsText (i :: k :: v) = i.literal ++ (", " ++ itemsText (k :: v)) := by
  rw [itemsText, itemsText, List.map_cons, List.map_cons, String.intercalate_cons_cons,
    String.append_assoc]

/-- Of two lists of equal items, either both are written alike or their texts part: at the first
pair of items whose texts do. -/
theorem itemsText_cases {v w : Value} (h : List.Forall₂ (fun i j => i.same j = true) v w) :
    v.ReadsLike w ∧ v.itemsText = w.itemsText ∨ ¬v.ReadsLike w ∧ Part v.itemsText w.itemsText := by
  induction h with
  | nil => exact .inl ⟨.nil, rfl⟩
  | @cons i j v w hij hvw ih =>
    cases hvw with
    | nil =>
      simpa [ReadsLike, itemsText, String.intercalate_singleton] using Item.literal_cases hij
    | @cons k l v w hkl hvw =>
      rw [itemsText_cons_cons, itemsText_cons_cons]
      rcases Item.literal_cases hij with ⟨hread, htext⟩ | ⟨hread, hpart⟩
      · rw [htext]
        rcases ih with ⟨hrest, hrestText⟩ | ⟨hrest, hrestPart⟩
        · exact .inl ⟨.cons hread hrest, by rw [hrestText]⟩
        · refine .inr ⟨fun hc => ?_, (hrestPart.after ", ").after _⟩
          cases hc with
          | cons _ hc => exact hrest hc
      · refine .inr ⟨fun hc => ?_, hpart.append _ _⟩
        cases hc with
        | cons hc _ => exact hread hc

theorem text_eq_iff {v w : Value} (h : v.same w = true) : v.text = w.text ↔ v.ReadsLike w := by
  have hforall := forall₂_of_same h
  have hitems : v.itemsText = w.itemsText ↔ v.ReadsLike w := by
    rcases itemsText_cases hforall with ⟨hread, htext⟩ | ⟨hread, hpart⟩
    · exact iff_of_true htext hread
    · exact iff_of_false hpart.ne hread
  cases hforall with
  | nil => exact iff_of_true rfl .nil
  | @cons i j v w hij hvw =>
    cases hvw with
    | nil => simpa [text, itemsText] using hitems
    | cons => simpa [text, itemsText] using hitems

end Value

end QueryExpr
