/-
# What is read as a decimal

A decimal is digits with at most one point among or beside them, and perhaps an
exponent. Exactly these texts are read, a sign aside. What they are read as is
always a number: the nearest double may be infinite, but rounding, taking a power
of ten and changing the sign never give the value that is no number.
-/

import Mathlib
import StyleSense.Decimal.Reader
import StyleSense.Proofs.Text.Numeral

namespace StyleSense.Decimal

open StyleSense.Text

/-- Decimal digits, at least one. -/
structure IsDigits (cs : List Char) : Prop where
  ne_nil : cs ≠ []
  digits : ∀ c ∈ cs, isDigit c = true

/-- What may stand in front of digits. -/
def signs : List (List Char) := [[], ['+'], ['-']]

/-- An exponent, or none. -/
inductive IsExponent : List Char → Prop
  | absent : IsExponent []
  | written {mark : Char} {sign digits : List Char} (hmark : mark ∈ ['e', 'E'])
      (hsign : sign ∈ signs) (hdigits : IsDigits digits) : IsExponent (mark :: (sign ++ digits))

/-- A decimal without a sign: digits, with or without a point and digits behind
it, or a point and digits. An exponent may follow. -/
inductive IsDecimal : List Char → Prop
  | whole {digits exponent : List Char} (hdigits : IsDigits digits)
      (hexponent : IsExponent exponent) : IsDecimal (digits ++ exponent)
  | pointed {digits fraction exponent : List Char} (hdigits : IsDigits digits)
      (hfraction : fraction = [] ∨ IsDigits fraction) (hexponent : IsExponent exponent) :
      IsDecimal (digits ++ '.' :: (fraction ++ exponent))
  | fraction {digits exponent : List Char} (hdigits : IsDigits digits)
      (hexponent : IsExponent exponent) : IsDecimal ('.' :: (digits ++ exponent))

variable {cs ds rest : List Char}

/-- The text without the sign in front. -/
def behindSign : List Char → List Char
  | '-' :: ds => ds
  | '+' :: ds => ds
  | ds => ds

/-- Where no sign can begin what is meant, it stands behind at most one sign. -/
theorem exists_sign_iff {P : List Char → Prop}
    (hP : ∀ c ds, P (c :: ds) → c ≠ '+' ∧ c ≠ '-') (cs : List Char) :
    (∃ sign ∈ signs, ∃ ds, cs = sign ++ ds ∧ P ds) ↔ P (behindSign cs) := by
  constructor
  · rintro ⟨sign, hsign, ds, rfl, hds⟩
    simp only [signs, List.mem_cons, List.not_mem_nil, or_false] at hsign
    rcases hsign with rfl | rfl | rfl
    · rw [List.nil_append, behindSign.eq_3]
      · exact hds
      · rintro _ rfl
        exact (hP _ _ hds).2 rfl
      · rintro _ rfl
        exact (hP _ _ hds).1 rfl
    · exact hds
    · exact hds
  · intro h
    fun_cases behindSign cs with
    | case1 ds => exact ⟨['-'], by decide, ds, rfl, h⟩
    | case2 ds => exact ⟨['+'], by decide, ds, rfl, h⟩
    | case3 _ hminus hplus =>
        rw [behindSign.eq_3 _ hminus hplus] at h
        exact ⟨[], by decide, cs, rfl, h⟩

theorem isSome_readSigned? (read : List Char → Option Float) (cs : List Char) :
    (readSigned? read cs).isSome = (read (behindSign cs)).isSome := by
  fun_cases behindSign cs with
  | case1 ds => exact Option.isSome_map
  | case2 ds => rfl
  | case3 _ hminus hplus => rw [readSigned?.eq_3 _ _ hminus hplus]

theorem IsDigits.ne_sign {c : Char} (h : IsDigits (c :: ds)) : c ≠ '+' ∧ c ≠ '-' := by
  have hc := h.digits c List.mem_cons_self
  constructor <;> (rintro rfl; cases hc)

theorem isSome_readDigits?_ten : (readDigits? 10 cs).isSome = true ↔ IsDigits cs := by
  rw [Option.isSome_iff_exists]
  simp only [readDigits?_ten_iff]
  exact ⟨fun ⟨_, hne, hdigits, _⟩ => ⟨hne, hdigits⟩, fun h => ⟨_, h.ne_nil, h.digits, rfl⟩⟩

theorem isExponent_cons {mark : Char} :
    IsExponent (mark :: cs) ↔
      mark ∈ ['e', 'E'] ∧ ∃ sign ∈ signs, ∃ ds, cs = sign ++ ds ∧ IsDigits ds := by
  constructor
  · rintro (_ | ⟨hmark, hsign, hdigits⟩)
    exact ⟨hmark, _, hsign, _, rfl, hdigits⟩
  · rintro ⟨hmark, sign, hsign, ds, rfl, hdigits⟩
    exact .written hmark hsign hdigits

theorem isSome_readExponent? : (readExponent? cs).isSome = true ↔ IsExponent cs := by
  cases cs with
  | nil => exact ⟨fun _ => .absent, fun _ => rfl⟩
  | cons mark cs =>
      rw [isExponent_cons, exists_sign_iff fun _ _ => IsDigits.ne_sign, ← isSome_readDigits?_ten,
        readExponent?.eq_def]
      dsimp only
      by_cases hmark : mark ∈ ['e', 'E']
      · rw [and_iff_right hmark, if_pos (by simpa using hmark)]
        split
        next ds =>
          rw [behindSign]
          cases readDigits? 10 ds <;> rfl
        next ds =>
          rw [behindSign]
          cases readDigits? 10 ds <;> rfl
        next hminus hplus =>
          rw [behindSign.eq_3 _ hminus hplus]
          cases readDigits? 10 cs <;> rfl
      · rw [if_neg (by simpa using hmark)]
        simp only [hmark, false_and, Option.isSome_none, Bool.false_eq_true]

/-- No digit stands in front. -/
def BeginsWithoutDigit (cs : List Char) : Prop :=
  ∀ c ∈ cs.head?, isDigit c = false

theorem IsExponent.mem_head? (h : IsExponent cs) : ∀ c ∈ cs.head?, c ∈ ['e', 'E'] := by
  cases h with
  | absent => exact nofun
  | written hmark =>
      rintro c ⟨⟩
      exact hmark

theorem IsExponent.beginsWithoutDigit (h : IsExponent cs) : BeginsWithoutDigit cs := by
  have hmarks : ∀ mark ∈ ['e', 'E'], isDigit mark = false :=
    List.forall_mem_cons.2 ⟨rfl, List.forall_mem_singleton.2 rfl⟩
  exact fun c hc => hmarks c (h.mem_head? c hc)

theorem IsExponent.head?_ne_point (h : IsExponent cs) : cs.head? ≠ some '.' :=
  fun hpoint => absurd (h.mem_head? '.' hpoint) (by decide)

/-- Every text begins with its digits, if only with none. -/
theorem exists_digits_append (cs : List Char) :
    ∃ ds rest, cs = ds ++ rest ∧ (ds = [] ∨ IsDigits ds) ∧ BeginsWithoutDigit rest := by
  refine ⟨cs.takeWhile isDigit, cs.dropWhile isDigit, List.takeWhile_append_dropWhile.symm, ?_,
    fun c hc => ?_⟩
  · exact or_iff_not_imp_left.2 fun hne => ⟨hne, fun c hc => List.mem_takeWhile_imp hc⟩
  · have hhead := List.head?_dropWhile_not isDigit cs
    rw [Option.mem_def.1 hc] at hhead
    exact hhead

theorem spanDigits_append (hds : ds = [] ∨ IsDigits ds) (hrest : BeginsWithoutDigit rest) :
    spanDigits (ds ++ rest) = (ds, rest) := by
  have hdigits : ∀ c ∈ ds, isDigit c = true := hds.elim (by rintro rfl; simp) IsDigits.digits
  rw [spanDigits, List.takeWhile_append_of_pos hdigits, List.dropWhile_append_of_pos hdigits]
  cases rest with
  | nil => rw [List.takeWhile_nil, List.dropWhile_nil, List.append_nil]
  | cons c rest =>
      have hc : ¬isDigit c = true := Bool.not_eq_true _ ▸ hrest c rfl
      rw [List.takeWhile_cons_of_neg hc, List.dropWhile_cons_of_neg hc, List.append_nil]

/-- With a point, digits are on one of its sides and an exponent is behind them. -/
theorem isSome_readUnsigned?_point {whole fraction : List Char}
    (hwhole : whole = [] ∨ IsDigits whole) (hfraction : fraction = [] ∨ IsDigits fraction)
    (hrest : BeginsWithoutDigit rest) :
    (readUnsigned? (whole ++ '.' :: (fraction ++ rest))).isSome = true ↔
      ¬(whole = [] ∧ fraction = []) ∧ IsExponent rest := by
  have hpoint : BeginsWithoutDigit ('.' :: (fraction ++ rest)) := by
    rintro c ⟨⟩
    rfl
  simp only [readUnsigned?, spanDigits_append hwhole hpoint, spanDigits_append hfraction hrest]
  rw [← isSome_readExponent?]
  cases whole <;> cases fraction <;> simp

/-- Without one, digits are in front of the exponent. -/
theorem isSome_readUnsigned?_whole {whole : List Char} (hwhole : whole = [] ∨ IsDigits whole)
    (hrest : BeginsWithoutDigit rest) (hpoint : rest.head? ≠ some '.') :
    (readUnsigned? (whole ++ rest)).isSome = true ↔ whole ≠ [] ∧ IsExponent rest := by
  rw [readUnsigned?, spanDigits_append hwhole hrest]
  dsimp only
  split
  next => exact absurd rfl hpoint
  next =>
    rw [← isSome_readExponent?]
    cases whole <;> simp

theorem isSome_readUnsigned? : (readUnsigned? cs).isSome = true ↔ IsDecimal cs := by
  constructor
  · intro h
    obtain ⟨whole, rest, rfl, hwhole, hrest⟩ := exists_digits_append cs
    by_cases hpoint : rest.head? = some '.'
    · obtain ⟨rest, rfl⟩ := List.head?_eq_some_iff.1 hpoint
      obtain ⟨fraction, rest, rfl, hfraction, hrest⟩ := exists_digits_append rest
      obtain ⟨hsome, hexponent⟩ := (isSome_readUnsigned?_point hwhole hfraction hrest).1 h
      rcases hwhole with rfl | hdigits
      · exact .fraction (hfraction.resolve_left fun hnil => hsome ⟨rfl, hnil⟩) hexponent
      · exact .pointed hdigits hfraction hexponent
    · obtain ⟨hne, hexponent⟩ := (isSome_readUnsigned?_whole hwhole hrest hpoint).1 h
      exact .whole (hwhole.resolve_left hne) hexponent
  · rintro (⟨hdigits, hexponent⟩ | ⟨hdigits, hfraction, hexponent⟩ | ⟨hdigits, hexponent⟩)
    · exact (isSome_readUnsigned?_whole (.inr hdigits) hexponent.beginsWithoutDigit
        hexponent.head?_ne_point).2 ⟨hdigits.ne_nil, hexponent⟩
    · exact (isSome_readUnsigned?_point (.inr hdigits) hfraction
        hexponent.beginsWithoutDigit).2 ⟨fun h => hdigits.ne_nil h.1, hexponent⟩
    · exact (isSome_readUnsigned?_point (.inl rfl) (.inr hdigits)
        hexponent.beginsWithoutDigit).2 ⟨fun h => hdigits.ne_nil h.2, hexponent⟩

/-- A decimal begins with a digit or the point. -/
theorem IsDecimal.ne_sign {c : Char} (h : IsDecimal (c :: cs)) : c ≠ '+' ∧ c ≠ '-' := by
  generalize htext : c :: cs = text at h
  cases h with
  | whole hdigits | pointed hdigits =>
      obtain ⟨d, ds, rfl⟩ := List.exists_cons_of_ne_nil hdigits.ne_nil
      obtain rfl := List.head_eq_of_cons_eq htext
      exact hdigits.ne_sign
  | fraction =>
      obtain rfl := List.head_eq_of_cons_eq htext
      decide

/-- What is read with a sign is a decimal behind at most one. -/
theorem isSome_readDecimal? :
    (readDecimal? cs).isSome = true ↔ ∃ sign ∈ signs, ∃ ds, cs = sign ++ ds ∧ IsDecimal ds := by
  rw [exists_sign_iff fun _ _ => IsDecimal.ne_sign, ← isSome_readUnsigned?, readDecimal?,
    isSome_readSigned?, Option.isSome_map]

open Float.Model Float.Model.UnpackedFloat

section

variable {f : Format}

/-- All ones is the exponent of what is not finite. Without a mantissa it is that of
an infinity. -/
theorem isNaN_unpack_packComponents {sign : Sign} {exponent : BitVec f.exponentBits}
    {mantissa : BitVec f.mantissaBitsWithoutImplicit} (h : exponent ≠ -1#_ ∨ mantissa = 0#_) :
    (UnpackedFloat.unpack f (packComponents f sign exponent mantissa)).isNaN = false := by
  simp only [UnpackedFloat.unpack, unpackMantissa_packComponents, unpackExponent_packComponents]
  split
  next hones =>
    rw [if_pos (h.resolve_left fun hne => hne hones)]
    rfl
  next =>
    split
    next => split <;> rfl
    next => rfl

theorem isNaN_unpack_pack {x : UnpackedFloat} (h : x.isNaN = false) :
    (UnpackedFloat.unpack f (UnpackedFloat.pack f x)).isNaN = false := by
  have hwide : 1 < 2 ^ f.exponentBits := Nat.one_lt_two_pow (Nat.ne_of_gt f.he)
  have hbelow (n : Nat) (hn : n + 1 < 2 ^ f.exponentBits) :
      BitVec.ofNat f.exponentBits n ≠ -1#_ := by
    intro hones
    have hnat := congrArg BitVec.toNat hones
    rw [BitVec.toNat_ofNat, Nat.mod_eq_of_lt (by omega), BitVec.neg_one_eq_allOnes,
      BitVec.toNat_allOnes] at hnat
    omega
  cases x with
  | notANumber => cases h
  | infinity | zero => exact isNaN_unpack_packComponents (.inr rfl)
  | finite sign mantissa exponent =>
      rw [UnpackedFloat.pack]
      split
      next => exact isNaN_unpack_packComponents (.inr rfl)
      next hfits =>
        split
        next => exact isNaN_unpack_packComponents (.inl (hbelow _ (by omega)))
        next => exact isNaN_unpack_packComponents (.inl (hbelow 0 (by omega)))

theorem isNaN_roundWithAccuracy (sign : Sign) (mantissa : Nat) (exponent : Int)
    (accuracy : Accuracy) :
    (roundWithAccuracy f sign mantissa exponent accuracy).isNaN = false := by
  unfold roundWithAccuracy
  dsimp only
  split <;> rfl

theorem isNaN_normalize (mantissa exponent : Int) (sign : Sign) :
    (UnpackedFloat.normalize f mantissa exponent sign).isNaN = false := by
  unfold UnpackedFloat.normalize
  split
  · exact isNaN_roundWithAccuracy ..
  · rfl
  · exact isNaN_roundWithAccuracy ..

/-- Taken times something finite that is not zero, a number stays a number. -/
theorem isNaN_mul {x : UnpackedFloat} (h : x.isNaN = false) (sign : Sign) (mantissa : Nat)
    (exponent : Int) (hpos : 0 < mantissa) :
    (UnpackedFloat.mul f x (.finite sign mantissa exponent hpos)).isNaN = false := by
  cases x with
  | notANumber => cases h
  | infinity | zero => rfl
  | finite => exact isNaN_roundWithAccuracy ..

theorem isNaN_div {x : UnpackedFloat} (h : x.isNaN = false) (sign : Sign) (mantissa : Nat)
    (exponent : Int) (hpos : 0 < mantissa) :
    (UnpackedFloat.div f x (.finite sign mantissa exponent hpos)).isNaN = false := by
  cases x with
  | notANumber => cases h
  | infinity | zero => rfl
  | finite => exact isNaN_roundWithAccuracy ..

theorem isNaN_unpacked_ofScientific (m : Nat) (e : Int) :
    (UnpackedFloat.ofScientific f m e).isNaN = false := by
  unfold UnpackedFloat.ofScientific
  split
  case isTrue => rfl
  case isFalse =>
    split
    case isTrue => rfl
    case isFalse =>
      split
      case isTrue => rfl
      case isFalse =>
        split
        · exact isNaN_roundWithAccuracy ..
        · exact isNaN_roundWithAccuracy ..

end

theorem isNaN_ofModel_pack {x : UnpackedFloat} (h : x.isNaN = false) :
    (Float.ofModel (.pack x)).isNaN = false :=
  isNaN_unpack_pack h

theorem isNaN_toFloat (n : UInt64) : n.toFloat.isNaN = false :=
  isNaN_ofModel_pack (isNaN_normalize ..)

theorem isNaN_neg {x : Float} (h : x.isNaN = false) : (-x).isNaN = false := by
  apply isNaN_ofModel_pack
  change x.toModel.unpack.isNaN = false at h
  cases hx : x.toModel.unpack with
  | notANumber =>
      rw [hx] at h
      cases h
  | _ => rfl

/-- The powers of ten that doubles hold exactly are finite, and not zero. -/
theorem exists_unpack_power {e : Nat} (he : e < Float.exactlyRepresentablePowersOfTen.size) :
    ∃ sign mantissa exponent hpos, Float.exactlyRepresentablePowersOfTen[e].toModel.unpack =
      .finite sign mantissa exponent hpos := by
  have hall : (Float.exactlyRepresentablePowersOfTen.all fun power =>
      match power.toModel.unpack with
      | .finite .. => true
      | _ => false) = true := by decide +kernel
  have hpower := Array.all_eq_true'.1 hall _ (Array.getElem_mem he)
  split at hpower
  next hunpack => exact ⟨_, _, _, _, hunpack⟩
  next => cases hpower

theorem isNaN_ofScientific (m : Nat) (negative : Bool) (e : Nat) :
    (Float.ofScientific m negative e).isNaN = false := by
  unfold Float.ofScientific
  split
  next hexact =>
    obtain ⟨sign, mantissa, exponent, hpos, hpower⟩ := exists_unpack_power (e := e) <| by
      have hsize : Float.exactlyRepresentablePowersOfTen.size = 23 := rfl
      omega
    dsimp only
    split
    · apply isNaN_ofModel_pack
      rw [hpower]
      exact isNaN_div (isNaN_toFloat _) ..
    · apply isNaN_ofModel_pack
      rw [hpower]
      exact isNaN_mul (isNaN_toFloat _) ..
  next => exact isNaN_ofModel_pack (isNaN_unpacked_ofScientific ..)

theorem isNaN_infinity : (1.0 / 0.0 : Float).isNaN = false := by
  decide +kernel

theorem Literal.isNaN_toFloat (literal : Literal) : literal.toFloat.isNaN = false := by
  unfold Literal.toFloat
  split
  case isTrue => exact isNaN_ofScientific 0 false 0
  case isFalse =>
    dsimp only
    split
    case isTrue => exact isNaN_infinity
    case isFalse =>
      split
      case isTrue => exact isNaN_ofScientific 0 false 0
      case isFalse => split <;> exact isNaN_ofScientific ..

/-- What is read of a decimal is a number. -/
theorem isNaN_of_readDecimal? {x : Float} (h : readDecimal? cs = some x) : x.isNaN = false := by
  have hunsigned {ds : List Char} {y : Float}
      (hread : (readUnsigned? ds).map Literal.toFloat = some y) : y.isNaN = false := by
    obtain ⟨literal, -, rfl⟩ := Option.map_eq_some_iff.1 hread
    exact literal.isNaN_toFloat
  rw [readDecimal?] at h
  unfold readSigned? at h
  split at h
  next =>
    obtain ⟨y, hy, rfl⟩ := Option.map_eq_some_iff.1 h
    exact isNaN_neg (hunsigned hy)
  next => exact hunsigned h
  next => exact hunsigned h

end StyleSense.Decimal
