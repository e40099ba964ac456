import Mathlib.Data.List.TakeWhile
import Offside.Proofs.Binary64.Interval

/-!
# Reading the printed form

The printed form of a word is read as a decimal: digits with or without a point, and a power of ten
if there is one. What is read is the value of the shortest decimal, which reads back to one word
only. So finite words are printed differently.

## Main definitions

* `Offside.Binary64.read`: the value of a printed form.
* `Offside.Binary64.IsShown`: digits, then a point or a power of ten.

## Main results

* `Offside.Binary64.characters_injective`: finite words are printed differently.
* `Offside.Binary64.isShown_characters`: how a finite word is printed.
-/

namespace Offside.Binary64

/-- The natural number that digits denote. -/
abbrev ofDigits (ds : List Char) : ℕ := Nat.ofDigitChars 10 ds 0

theorem ofDigits_append_zeros (ds : List Char) (k : ℕ) :
    ofDigits (ds ++ List.replicate k '0') = ofDigits ds * 10 ^ k := by
  rw [ofDigits, Nat.ofDigitChars_append, Nat.ofDigitChars_replicate_zero, Nat.mul_comm]

theorem ofDigits_zeros_append (ds : List Char) (k : ℕ) :
    ofDigits (List.replicate k '0' ++ ds) = ofDigits ds := by
  rw [ofDigits, Nat.ofDigitChars_append, Nat.ofDigitChars_replicate_zero, Nat.mul_zero]

/-! ### Reading -/

/-- What stands before the first character `c`. -/
def before (c : Char) (cs : List Char) : List Char := cs.takeWhile (· ≠ c)

/-- What stands after the first character `c`. -/
def after (c : Char) (cs : List Char) : List Char := (cs.dropWhile (· ≠ c)).tail

section

variable {c : Char} {cs : List Char}

private theorem forall_ne (h : c ∉ cs) : ∀ d ∈ cs, decide (d ≠ c) = true :=
  fun _ hd => decide_eq_true fun hdc => h (hdc ▸ hd)

theorem before_of_not_mem (h : c ∉ cs) : before c cs = cs :=
  List.takeWhile_eq_self_iff.2 (forall_ne h)

theorem after_of_not_mem (h : c ∉ cs) : after c cs = [] := by
  rw [after, List.dropWhile_eq_nil_iff.2 (forall_ne h), List.tail_nil]

theorem before_append (h : c ∉ cs) (rest : List Char) : before c (cs ++ c :: rest) = cs := by
  rw [before, List.takeWhile_append_of_pos (forall_ne h)]
  simp

theorem after_append (h : c ∉ cs) (rest : List Char) : after c (cs ++ c :: rest) = rest := by
  rw [after, List.dropWhile_append_of_pos (forall_ne h)]
  simp

end

/-- The value of digits with or without a point. -/
def readMantissa (cs : List Char) : ℚ :=
  ofDigits (before '.' cs ++ after '.' cs) * 10 ^ (-((after '.' cs).length : ℤ))

/-- The value of digits with or without a sign. -/
def readExponent : List Char → ℤ
  | '-' :: ds => -(ofDigits ds : ℤ)
  | ds => ofDigits ds

theorem readExponent_nil : readExponent [] = 0 := rfl

/-- The value of a printed form. -/
def read (cs : List Char) : ℚ := readMantissa (before 'e' cs) * 10 ^ readExponent (after 'e' cs)

/-- Characters that are digits. -/
def AllDigits (ds : List Char) : Prop := ∀ c ∈ ds, c.isDigit

variable {ds : List Char}

theorem AllDigits.not_mem (h : AllDigits ds) {c : Char} (hc : c.isDigit = false) : c ∉ ds :=
  fun hmem => by simp [h c hmem] at hc

theorem allDigits_zeros (k : ℕ) : AllDigits (List.replicate k '0') := by
  rintro c hc
  rw [List.eq_of_mem_replicate hc]
  rfl

theorem allDigits_decimalDigits (n : ℕ) : AllDigits (decimalDigits n) :=
  fun _ hc => Nat.isDigit_of_mem_toDigits (by decide) (by decide) hc

theorem AllDigits.append {es : List Char} (h : AllDigits ds) (h' : AllDigits es) :
    AllDigits (ds ++ es) := by
  rintro c hc
  rcases List.mem_append.1 hc with hc | hc
  · exact h c hc
  · exact h' c hc

theorem readMantissa_point {whole fraction : List Char} (h : '.' ∉ whole) :
    readMantissa (whole ++ '.' :: fraction) =
      ofDigits (whole ++ fraction) * 10 ^ (-(fraction.length : ℤ)) := by
  rw [readMantissa, before_append h, after_append h]

theorem readMantissa_whole (h : '.' ∉ ds) : readMantissa ds = ofDigits ds := by
  rw [readMantissa, before_of_not_mem h, after_of_not_mem h]
  simp

theorem readExponent_decimalDigits (e : ℤ) :
    readExponent ((if e < 0 then ['-'] else []) ++ decimalDigits e.natAbs) = e := by
  have hread : ofDigits (decimalDigits e.natAbs) = e.natAbs :=
    Nat.ofDigitChars_toDigits (by decide) (by decide)
  split
  · rw [List.singleton_append, readExponent, hread]
    omega
  · have hdigits := allDigits_decimalDigits e.natAbs
    rw [List.nil_append]
    unfold readExponent
    split
    · next heq =>
      exact absurd (by rw [heq]; exact List.mem_cons_self) (hdigits.not_mem (c := '-') rfl)
    · rw [hread]
      omega

/-! ### Digits with a point and with a power of ten -/

/-- A list brought to a length by what is cut off or filled in. -/
theorem exists_take_append_replicate (cs : List Char) (n : ℕ) : ∃ k,
    cs.take n ++ List.replicate (n - (cs.take n).length) '0' ++
        (if (cs.drop n).isEmpty then ['0'] else cs.drop n) = cs ++ List.replicate k '0' ∧
      (cs.take n ++ List.replicate (n - (cs.take n).length) '0').length = n := by
  rcases lt_or_ge n cs.length with hlt | hge
  · refine ⟨0, ?_, ?_⟩
    · rw [if_neg (by simpa using hlt), List.length_take, Nat.min_eq_left hlt.le, Nat.sub_self]
      simp
    · simp
  · refine ⟨n - cs.length + 1, ?_, ?_⟩
    · rw [List.drop_eq_nil_of_le hge, List.take_of_length_le hge, List.append_assoc,
        List.replicate_succ']
      rfl
    · simp

/-- Digits with a point: before it stand as many as the order says, or one. -/
theorem exists_positional (h : AllDigits ds) (point : ℤ) : ∃ whole fraction k,
    positional ds point = whole ++ '.' :: fraction ∧ whole.length = (max point 1).toNat ∧
      whole ++ fraction = List.replicate (1 - point).toNat '0' ++ ds ++ List.replicate k '0' ∧
      AllDigits whole ∧ AllDigits fraction := by
  obtain ⟨k, hdigits, hlength⟩ := exists_take_append_replicate
    (List.replicate (1 - point).toNat '0' ++ ds) (max point 1).toNat
  have hall : AllDigits (List.replicate (1 - point).toNat '0' ++ ds ++ List.replicate k '0') :=
    ((allDigits_zeros _).append h).append (allDigits_zeros k)
  rw [← hdigits] at hall
  exact ⟨_, _, k, rfl, hlength, hdigits, fun c hc => hall c (List.mem_append_left _ hc),
    fun c hc => hall c (List.mem_append_right _ hc)⟩

theorem read_positional (h : AllDigits ds) (point : ℤ) :
    read (positional ds point) = ofDigits ds * 10 ^ (point - ds.length) := by
  obtain ⟨whole, fraction, k, htext, hlength, hdigits, hwhole, hfraction⟩ :=
    exists_positional h point
  have hmantissa : 'e' ∉ whole ++ '.' :: fraction := by
    have := hwhole.not_mem (c := 'e') rfl
    have := hfraction.not_mem (c := 'e') rfl
    simp_all
  have hcount := congrArg List.length hdigits
  simp only [List.length_append, List.length_replicate] at hcount
  rw [read, htext, before_of_not_mem hmantissa, after_of_not_mem hmantissa,
    readMantissa_point (hwhole.not_mem rfl), hdigits, ofDigits_append_zeros, ofDigits_zeros_append,
    readExponent_nil]
  push_cast
  rw [mul_one, mul_assoc, ← zpow_natCast, ← zpow_add₀ (by norm_num)]
  congr 2
  omega

/-- Digits with a power of ten: a point stands after the first one if there are more. -/
theorem exists_scientific (h : AllDigits ds) (hne : ds ≠ []) (e : ℤ) : ∃ mantissa,
    scientific ds e =
      mantissa ++ 'e' :: ((if e < 0 then ['-'] else []) ++ decimalDigits e.natAbs) ∧
    'e' ∉ mantissa ∧ readMantissa mantissa = ofDigits ds * 10 ^ (1 - (ds.length : ℤ)) ∧
    ∃ d rest, ds = d :: rest ∧ (mantissa = [d] ∨ mantissa = d :: '.' :: rest) := by
  have hletter := h.not_mem (c := 'e') rfl
  have hpoint := h.not_mem (c := '.') rfl
  match ds with
  | [d] =>
    refine ⟨[d], by simp [scientific], hletter, ?_, d, [], rfl, .inl rfl⟩
    rw [readMantissa_whole hpoint]
    simp
  | d :: d' :: ds =>
    have hsplit : d :: '.' :: d' :: ds = [d] ++ '.' :: (d' :: ds) := rfl
    refine ⟨d :: '.' :: d' :: ds, by simp [scientific], by simp_all, ?_, d, d' :: ds, rfl, .inr rfl⟩
    have hexponent : -((d' :: ds).length : ℤ) = 1 - (d :: d' :: ds).length := by simp
    rw [hsplit, readMantissa_point (by simp_all), hexponent, List.singleton_append]

theorem read_scientific (h : AllDigits ds) (hne : ds ≠ []) (e : ℤ) :
    read (scientific ds e) = ofDigits ds * 10 ^ (e + 1 - ds.length) := by
  obtain ⟨mantissa, htext, hmantissa, hvalue, -⟩ := exists_scientific h hne e
  rw [read, htext, before_append hmantissa, after_append hmantissa, readExponent_decimalDigits,
    hvalue, mul_assoc, ← zpow_add₀ (by norm_num)]
  congr 2
  ring

/-! ### The printed form of a word -/

theorem exists_stripZeros (ds : List Char) : ∃ k, ds = stripZeros ds ++ List.replicate k '0' := by
  refine ⟨(ds.reverse.takeWhile (· = '0')).length, ?_⟩
  have hzeros : ds.reverse.takeWhile (· = '0') =
      List.replicate (ds.reverse.takeWhile (· = '0')).length '0' :=
    List.eq_replicate_of_mem fun c hc => by simpa using List.mem_takeWhile_imp hc
  rw [stripZeros, ← List.reverse_replicate, ← List.reverse_append, ← hzeros,
    List.takeWhile_append_dropWhile, List.reverse_reverse]

theorem value_shortest_pos {x : Binary64} (hx : 0 < x.bits) : 0 < x.shortest.value := by
  have hlower : 0 < x.lower := by
    have hunit : (0 : ℚ) < 2 ^ (x.exponent - 2) := by positivity
    have hlt : x.margin < 4 * x.significand := by
      have := x.margin_le
      have := significand_pos hx
      omega
    have : (x.margin : ℚ) < 4 * x.significand := by exact_mod_cast hlt
    exact mul_pos (by linarith) hunit
  rcases ((holds_iff hx _).1 (holds_shortest hx)).1 with h | ⟨-, h⟩
  · exact hlower.trans h
  · exact h ▸ hlower

/-- The digits of a decimal without their trailing zeros have its value in their place. -/
theorem Decimal.value_eq (d : Decimal) :
    d.value = ofDigits (stripZeros (decimalDigits d.digits)) *
      10 ^ (d.exponent + (decimalDigits d.digits).length -
        (stripZeros (decimalDigits d.digits)).length) := by
  have hread : ofDigits (decimalDigits d.digits) = d.digits :=
    Nat.ofDigitChars_toDigits (by decide) (by decide)
  rw [value, ← hread]
  conv_rhs => rw [hread]
  obtain ⟨k, hk⟩ := exists_stripZeros (decimalDigits d.digits)
  generalize stripZeros (decimalDigits d.digits) = ds at hk ⊢
  rw [hk, ofDigits_append_zeros, List.length_append, List.length_replicate]
  push_cast
  rw [mul_assoc, ← zpow_natCast, ← zpow_add₀ (by norm_num)]
  congr 2
  omega

/-- A finite word is printed as the digits of its shortest decimal without their trailing zeros. -/
theorem exists_characters {x : Binary64} (hx : 0 < x.bits) (hfinite : x.isFinite) :
    ∃ ds, ∃ order : ℤ, AllDigits ds ∧ ds ≠ [] ∧
      x.shortest.value = ofDigits ds * 10 ^ (order - ds.length) ∧
      x.characters = if isPositional (order - 1) then positional ds order
        else scientific ds (order - 1) := by
  refine ⟨stripZeros (decimalDigits x.shortest.digits),
    x.shortest.exponent + (decimalDigits x.shortest.digits).length, ?_, ?_,
    x.shortest.value_eq, ?_⟩
  · obtain ⟨k, hk⟩ := exists_stripZeros (decimalDigits x.shortest.digits)
    intro c hc
    exact allDigits_decimalDigits x.shortest.digits c (by rw [hk]; exact List.mem_append_left _ hc)
  · intro hnil
    have hpos := value_shortest_pos hx
    rw [Decimal.value_eq, hnil] at hpos
    simp at hpos
  · rw [characters, if_neg hx.ne', if_neg (by simp [hfinite])]

theorem characters_of_zero {x : Binary64} (hx : x.bits = 0) : x.characters = ['0', '.', '0'] := by
  rw [characters, if_pos hx]

theorem read_characters {x : Binary64} (hx : 0 < x.bits) (hfinite : x.isFinite) :
    read x.characters = x.shortest.value := by
  obtain ⟨ds, order, hds, hne, hvalue, htext⟩ := exists_characters hx hfinite
  rw [htext, hvalue]
  split
  · exact read_positional hds order
  · rw [read_scientific hds hne, sub_add_cancel]

theorem read_characters_eq_zero {x : Binary64} (hfinite : x.isFinite) :
    read x.characters = 0 ↔ x.bits = 0 := by
  rcases Nat.eq_zero_or_pos x.bits with hx | hx
  · have hread : read ['0', '.', '0'] = 0 := by
      rw [show ['0', '.', '0'] = positional [] 1 from rfl, read_positional (by simp [AllDigits])]
      simp
    simpa only [hx, characters_of_zero hx, iff_true] using hread
  · rw [read_characters hx hfinite]
    exact iff_of_false (value_shortest_pos hx).ne' hx.ne'

/-- Finite words are printed differently. -/
theorem characters_injective {x y : Binary64} (hx : x.isFinite) (hy : y.isFinite)
    (h : x.characters = y.characters) : x = y := by
  have hzero : x.bits = 0 ↔ y.bits = 0 := by
    rw [← read_characters_eq_zero hx, h, read_characters_eq_zero hy]
  obtain ⟨m⟩ := x
  obtain ⟨n⟩ := y
  rcases Nat.eq_zero_or_pos m with rfl | hm
  · rw [show n = 0 from hzero.1 rfl]
  · have hn : 0 < n := Nat.pos_of_ne_zero (mt hzero.2 hm.ne')
    have hvalue := (read_characters (x := ⟨m⟩) hm hx).symm.trans
      (h ▸ read_characters (x := ⟨n⟩) hn hy)
    have hshortest := (holds_iff hm _).1 (holds_shortest (x := ⟨m⟩) hm)
    rw [hvalue, ← holds_iff hm] at hshortest
    exact eq_of_holds hm hn hshortest (holds_shortest hn)

/-- Characters that start with digits, after which a point or a power of ten comes. -/
def IsShown (cs : List Char) : Prop :=
  ∃ ds c rest, cs = ds ++ c :: rest ∧ ds ≠ [] ∧ AllDigits ds ∧ (c = '.' ∨ c = 'e') ∧
    ∀ d ∈ rest, d.isDigit ∨ d = '.' ∨ d = 'e' ∨ d = '-'

theorem isShown_positional (h : AllDigits ds) (point : ℤ) : IsShown (positional ds point) := by
  obtain ⟨whole, fraction, k, htext, hlength, -, hwhole, hfraction⟩ := exists_positional h point
  refine ⟨whole, '.', fraction, htext, ?_, hwhole, .inl rfl, fun d hd => .inl (hfraction d hd)⟩
  rintro rfl
  simp at hlength
  omega

theorem isShown_scientific (h : AllDigits ds) (hne : ds ≠ []) (e : ℤ) :
    IsShown (scientific ds e) := by
  have hexponent : ∀ d ∈ (if e < 0 then ['-'] else []) ++ decimalDigits e.natAbs,
      d.isDigit ∨ d = '.' ∨ d = 'e' ∨ d = '-' := by
    intro d hd
    rcases List.mem_append.1 hd with hd | hd
    · split at hd <;> simp_all
    · exact .inl (allDigits_decimalDigits _ d hd)
  obtain ⟨mantissa, htext, -, -, d, rest, rfl, rfl | rfl⟩ := exists_scientific h hne e
  all_goals
    obtain ⟨hd, hrest⟩ := List.forall_mem_cons.1 h
    have hfirst : AllDigits [d] := List.forall_mem_singleton.2 hd
  · exact ⟨[d], 'e', _, htext, List.cons_ne_nil _ _, hfirst, .inr rfl, hexponent⟩
  · refine ⟨[d], '.', _, htext, List.cons_ne_nil _ _, hfirst, .inl rfl, ?_⟩
    intro c hc
    rcases List.mem_append.1 hc with hc | hc
    · exact .inl (hrest c hc)
    · rcases List.mem_cons.1 hc with rfl | hc
      · exact .inr (.inr (.inl rfl))
      · exact hexponent c hc

/-- How a finite word is printed. -/
theorem isShown_characters {x : Binary64} (hfinite : x.isFinite) : IsShown x.characters := by
  rcases Nat.eq_zero_or_pos x.bits with hx | hx
  · rw [characters_of_zero hx]
    have hnone : AllDigits [] := fun _ hd => absurd hd List.not_mem_nil
    exact isShown_positional hnone 1
  · obtain ⟨ds, order, hds, hne, -, htext⟩ := exists_characters hx hfinite
    rw [htext]
    split
    · exact isShown_positional hds order
    · exact isShown_scientific hds hne _

end Offside.Binary64
