import ThemeCss.Color
import ThemeCss.Proofs.Number.Rational

/-! # The order of shades

Moving a colour towards white or black keeps the order of colours, and a greater amount gives a
colour that is at least as bright. Roundings do not get in the way: each of them keeps the order,
and where an amount leaves channels so close together that the roundings could exchange them, the
channels are all rounded to white.
-/

namespace ThemeCss

namespace Binary64

/-- The byte next to a number, a half going up. -/
def nearestByte (number : ℚ) : ℕ := min 255 ⌊number + 1 / 2⌋₊

theorem nearestByte_mono : Monotone nearestByte := fun _ _ order =>
  min_le_min_left 255 (Nat.floor_mono (by linarith))

theorem nearestByte_natCast {n : ℕ} (few : n ≤ 255) : nearestByte n = n := by
  have whole : ⌊(n : ℚ) + 1 / 2⌋₊ = n := by
    rw [Nat.floor_eq_iff (by positivity)]
    constructor <;> linarith
  rw [nearestByte, whole, Nat.min_eq_right few]

theorem nearestByte_eq_white {number : ℚ} (large : 255 ≤ number + 1 / 2) :
    nearestByte number = 255 :=
  Nat.min_eq_left (Nat.le_floor (by exact_mod_cast large))

theorem toNat_toByte {x : Binary64} {number : ℚ} (value : x.value? = some number) :
    x.toByte.toNat = nearestByte number := by
  obtain ⟨negative, magnitude, rfl, rfl⟩ := exists_of_value? value
  have one := unitsPerOne_cast_pos
  cases negative with
  | true =>
    have none : ⌊signed true (magnitude.units / unitsPerOne : ℚ) + 1 / 2⌋₊ = 0 := by
      have size := div_unitsPerOne_nonneg magnitude.units
      rw [Nat.floor_eq_zero, signed, if_pos rfl]
      linarith
    rw [nearestByte, none]
    rfl
  | false =>
    have quotient : (magnitude.units / unitsPerOne : ℚ) + 1 / 2 =
        (2 * magnitude.units + unitsPerOne : ℕ) / (2 * unitsPerOne : ℕ) := by
      push_cast
      field_simp
    rw [nearestByte, signed, if_neg Bool.false_ne_true, quotient, Nat.floor_div_eq_div, toByte,
      UInt8.toNat_ofNat']
    exact Nat.mod_eq_of_lt (by omega)

/-- An amount that is a number is kept between -1 and 1. -/
theorem value?_clamp {amount : Binary64} {place : ℤ} (known : amount.place? = some place) :
    (amount.clamp (-ofNat 1) (ofNat 1)).value? =
      some (max (-1) (min 1 (place / unitsPerOne : ℚ))) := by
  obtain ⟨low, lowPlace, lowExact⟩ := place?_of_value? (value?_neg value?_one)
  obtain ⟨high, highPlace, highExact⟩ := place?_of_value? value?_one
  have one := unitsPerOne_cast_pos
  rw [clamp, lt, lt, known, lowPlace, highPlace]
  simp only [decide_eq_true_eq]
  split_ifs with below above
  · have outside : (place / unitsPerOne : ℚ) ≤ -1 := by
      rw [div_le_iff₀ one, ← lowExact]
      exact_mod_cast below.le
    rw [max_eq_left (min_le_of_right_le outside)]
    exact value?_neg value?_one
  · have outside : (1 : ℚ) ≤ place / unitsPerOne := by
      rw [le_div_iff₀ one, ← highExact]
      exact_mod_cast above.le
    rw [min_eq_left outside, max_eq_right (by norm_num)]
    exact value?_one
  · have left : (-1 : ℚ) ≤ place / unitsPerOne := by
      rw [le_div_iff₀ one, ← lowExact]
      exact_mod_cast not_lt.mp below
    have right : (place / unitsPerOne : ℚ) ≤ 1 := by
      rw [div_le_iff₀ one, ← highExact]
      exact_mod_cast not_lt.mp above
    have inside : |place| < overflowUnits := by
      have far : unitsPerOne < overflowUnits := by decide +kernel
      have size : |(place : ℚ)| ≤ unitsPerOne := by
        rw [le_div_iff₀ one] at left
        rw [div_le_iff₀ one] at right
        exact abs_le.mpr ⟨by linarith, by linarith⟩
      exact lt_of_le_of_lt (by exact_mod_cast size) (Int.ofNat_lt.mpr far)
    rw [min_eq_right right, max_eq_right left]
    exact value?_of_place? known inside

end Binary64

namespace Color

open Binary64

/-- Where a share of the way to white, or to black if it is negative, ends for a channel. -/
def moved (share : ℚ) (channel : ℕ) : ℚ :=
  if 0 ≤ share then rounded (channel + rounded ((255 - channel) * share))
  else rounded (channel * rounded (1 - |share|))

section Moved

variable {share : ℚ} {channel : ℕ}

/-- The way to white, or a share of it, is not longer than all of it. -/
theorem wayToWhite_between (few : channel ≤ 255) (low : 0 ≤ share) (high : share ≤ 1) :
    0 ≤ (255 - channel) * share ∧ (255 - channel) * share ≤ 255 := by
  have bound : (channel : ℚ) ≤ 255 := by exact_mod_cast few
  have positive : (0 : ℚ) ≤ channel := channel.cast_nonneg
  constructor
  · exact mul_nonneg (by linarith) low
  · calc
      (255 - channel) * share ≤ 255 - channel := mul_le_of_le_one_right (by linarith) high
      _ ≤ 255 := by linarith

theorem rounded_wayToWhite_between (few : channel ≤ 255) (low : 0 ≤ share) (high : share ≤ 1) :
    0 ≤ rounded ((255 - channel) * share) ∧ rounded ((255 - channel) * share) ≤ 255 := by
  obtain ⟨above, below⟩ := wayToWhite_between few low high
  exact ⟨rounded_nonneg above, rounded_le (by decide : 255 ≤ 2 ^ 53) below⟩

/-- What a negative share leaves of a channel is a part of it. -/
theorem rounded_shrinking_le (share : ℚ) : rounded (1 - |share|) ≤ 1 :=
  (rounded_mono (by linarith [abs_nonneg share])).trans_eq rounded_one

theorem toNat_shiftChannel {amount : Binary64} (value : amount.value? = some share)
    (within : |share| ≤ 1) (channel : UInt8) :
    (shiftChannel amount channel).toNat = nearestByte (moved share channel.toNat) := by
  have few : channel.toNat ≤ 255 := Nat.le_of_lt_succ channel.toNat_lt
  have bound : (channel.toNat : ℚ) ≤ 255 := by exact_mod_cast few
  have positive : (0 : ℚ) ≤ channel.toNat := Nat.cast_nonneg _
  have small {number : ℚ} (low : 0 ≤ number) (high : number ≤ 510) : |number| < finiteLimit := by
    rw [abs_of_nonneg low]
    exact lt_finiteLimit (high.trans (by norm_num))
  have own := value?_ofNat (few.trans (by decide) : channel.toNat ≤ 2 ^ 53)
  have sign := le_iff_of_value? value?_zero value
  rw [shiftChannel]
  apply toNat_toByte
  by_cases above : 0 ≤ share
  · rw [if_pos (sign.mpr above), moved, if_pos above]
    have high : share ≤ 1 := (abs_le.mp within).2
    have white := value?_ofNat (by decide : 255 ≤ 2 ^ 53)
    have whole : ((255 : ℕ) - channel.toNat : ℚ) = (255 - channel.toNat : ℕ) := by
      rw [Nat.cast_sub few]
    have way := value?_sub white own (by
      rw [whole]
      exact small (Nat.cast_nonneg _) (by exact_mod_cast (Nat.sub_le 255 _).trans (by decide)))
    rw [whole, rounded_natCast ((Nat.sub_le 255 _).trans (by decide)), ← whole] at way
    obtain ⟨low, most⟩ := wayToWhite_between few above high
    obtain ⟨lowRounded, mostRounded⟩ := rounded_wayToWhite_between few above high
    have part := value?_mul way value (small low (most.trans (by norm_num)))
    exact value?_add own part (small (add_nonneg positive lowRounded) (by linarith))
  · rw [if_neg (mt sign.mp above), moved, if_neg above]
    have size := abs_nonneg share
    have rest := value?_sub value?_one (value?_abs value) (small (by linarith) (by linarith))
    have low := rounded_nonneg (by linarith : 0 ≤ 1 - |share|)
    exact value?_mul own rest (small (mul_nonneg positive low)
      ((mul_le_of_le_one_right positive (rounded_shrinking_le share)).trans (by linarith)))

/-- A negative share leads no further than to the channel itself. -/
theorem moved_le_of_neg (few : channel ≤ 255) (below : share < 0) :
    moved share channel ≤ channel := by
  rw [moved, if_neg below.not_ge]
  exact rounded_le (few.trans (by decide))
    (mul_le_of_le_one_right channel.cast_nonneg (rounded_shrinking_le share))

/-- Any other share leads no less far. -/
theorem le_moved_of_nonneg (few : channel ≤ 255) (above : 0 ≤ share) :
    channel ≤ moved share channel := by
  have bound : (channel : ℚ) ≤ 255 := by exact_mod_cast few
  rw [moved, if_pos above]
  exact le_rounded (few.trans (by decide))
    (le_add_of_nonneg_right (rounded_nonneg (mul_nonneg (by linarith) above)))

/-- A greater share leads at least as far. -/
theorem moved_mono (few : channel ≤ 255) : Monotone fun share => moved share channel := by
  intro less more order
  have bound : (channel : ℚ) ≤ 255 := by exact_mod_cast few
  rcases lt_or_ge less 0 with below | above
  · rcases lt_or_ge more 0 with negative | positive
    · have shrinking : 1 - |less| ≤ 1 - |more| := by
        rw [abs_of_neg below, abs_of_neg negative]
        linarith
      simp only [moved, if_neg below.not_ge, if_neg negative.not_ge]
      exact rounded_mono (mul_le_mul_of_nonneg_left (rounded_mono shrinking) channel.cast_nonneg)
    · exact (moved_le_of_neg few below).trans (le_moved_of_nonneg few positive)
  · simp only [moved, if_pos above, if_pos (above.trans order)]
    exact rounded_mono (add_le_add_right
      (rounded_mono (mul_le_mul_of_nonneg_left order (by linarith))) _)

/-- The two roundings on the way to white change next to nothing. -/
theorem abs_moved_sub_le (few : channel ≤ 255) (low : 0 ≤ share) (high : share ≤ 1) :
    |moved share channel - (channel + (255 - channel) * share)| ≤ 1 / 2 ^ 44 := by
  have bound : (channel : ℚ) ≤ 255 := by exact_mod_cast few
  have positive : (0 : ℚ) ≤ channel := channel.cast_nonneg
  obtain ⟨above, below⟩ := wayToWhite_between few low high
  obtain ⟨aboveRounded, belowRounded⟩ := rounded_wayToWhite_between few low high
  have way : |(255 - channel) * share| < 2 ^ 8 := by
    rw [abs_of_nonneg above]
    linarith
  have target : |channel + rounded ((255 - channel) * share)| < 2 ^ 9 := by
    rw [abs_of_nonneg (add_nonneg positive aboveRounded)]
    linarith
  have near : |channel + rounded ((255 - channel) * share) - (channel + (255 - channel) * share)| ≤
      2 ^ 8 / 2 ^ 54 := by
    rw [add_sub_add_left_eq_sub]
    exact abs_rounded_sub_le way
  rw [moved, if_pos low]
  refine (abs_rounded_sub_le_add near target).trans ?_
  norm_num

/-- A share that is almost the whole way leads to white. -/
theorem nearestByte_moved_eq_white (few : channel ≤ 255) (most : 511 / 512 < share)
    (high : share ≤ 1) : nearestByte (moved share channel) = 255 := by
  have bound : (channel : ℚ) ≤ 255 := by exact_mod_cast few
  have positive : (0 : ℚ) ≤ channel := channel.cast_nonneg
  have near := (abs_le.mp (abs_moved_sub_le few (by linarith) high)).1
  have left : (255 - channel : ℚ) * (1 - share) ≤ 255 * (1 / 512) :=
    mul_le_mul (by linarith) (by linarith) (by linarith) (by norm_num)
  apply nearestByte_eq_white
  linarith

/-- Of two channels the brighter one stays at least as bright. -/
theorem nearestByte_moved_mono {dark bright : ℕ} (within : |share| ≤ 1) (few : bright ≤ 255)
    (order : dark ≤ bright) :
    nearestByte (moved share dark) ≤ nearestByte (moved share bright) := by
  have cast : (dark : ℚ) ≤ bright := by exact_mod_cast order
  have high : share ≤ 1 := (abs_le.mp within).2
  rcases lt_or_ge share 0 with below | above
  · have shrinking := rounded_nonneg (by linarith : 0 ≤ 1 - |share|)
    rw [moved, moved, if_neg below.not_ge, if_neg below.not_ge]
    exact nearestByte_mono (rounded_mono (mul_le_mul_of_nonneg_right cast shrinking))
  · rcases lt_or_ge (511 / 512) share with most | some_left
    · rw [nearestByte_moved_eq_white (order.trans few) most high,
        nearestByte_moved_eq_white few most high]
    · -- What is left of the distance of the channels is more than the roundings can take away.
      rcases order.eq_or_lt with rfl | less
      · exact le_rfl
      have next : (dark : ℚ) + 1 ≤ bright := by exact_mod_cast less
      have left := (abs_le.mp (abs_moved_sub_le (order.trans few) above high)).2
      have right := (abs_le.mp (abs_moved_sub_le few above high)).1
      have apart : 1 * (1 / 512) ≤ (bright - dark : ℚ) * (1 - share) :=
        mul_le_mul (by linarith) (by linarith) (by norm_num) (by linarith)
      exact nearestByte_mono (by linarith)

end Moved

/-- One colour is at most as bright as another in each channel. -/
instance : LE Color where
  le dark bright := dark.red ≤ bright.red ∧ dark.green ≤ bright.green ∧ dark.blue ≤ bright.blue

instance (dark bright : Color) : Decidable (dark ≤ bright) :=
  inferInstanceAs (Decidable (_ ∧ _))

def white : Color := ⟨255, 255, 255⟩

def black : Color := ⟨0, 0, 0⟩

/-- The share of the way that an amount at a place of the number line stands for. -/
def shareAt (place : ℤ) : ℚ := max (-1) (min 1 (place / unitsPerOne))

theorem shareAt_mono : Monotone shareAt := by
  intro left right order
  have scaled : (left / unitsPerOne : ℚ) ≤ right / unitsPerOne :=
    div_le_div_of_nonneg_right (by exact_mod_cast order) unitsPerOne_cast_pos.le
  exact max_le_max_left _ (min_le_min_left _ scaled)

theorem abs_shareAt_le (place : ℤ) : |shareAt place| ≤ 1 :=
  abs_le.mpr ⟨le_max_left _ _, max_le (by norm_num) (min_le_left _ _)⟩

section Shift

variable {amount : Binary64} {place : ℤ}

theorem toNat_shiftChannel_clamp (known : amount.place? = some place) (channel : UInt8) :
    (shiftChannel (amount.clamp (-ofNat 1) (ofNat 1)) channel).toNat =
      nearestByte (moved (shareAt place) channel.toNat) :=
  toNat_shiftChannel (value?_clamp known) (abs_shareAt_le place) channel

theorem exists_place_of_ne_nan (number : amount ≠ .nan) : ∃ place, amount.place? = some place := by
  cases amount with
  | nan => exact absurd rfl number
  | infinite negative => exact ⟨_, rfl⟩
  | finite negative magnitude => exact ⟨_, rfl⟩

theorem exists_places_of_le {less more : Binary64} (order : less.le more = true) :
    ∃ left right, less.place? = some left ∧ more.place? = some right ∧ left ≤ right := by
  rw [Binary64.le] at order
  split at order
  · next left right known found => exact ⟨left, right, known, found, of_decide_eq_true order⟩
  · cases order

/-- A greater amount gives a colour that is at least as bright. -/
theorem shift_le_shift {less more : Binary64} (order : less.le more = true) (color : Color) :
    color.shift less ≤ color.shift more := by
  obtain ⟨left, right, known, found, places⟩ := exists_places_of_le order
  have channels (channel : UInt8) : shiftChannel (less.clamp (-ofNat 1) (ofNat 1)) channel ≤
      shiftChannel (more.clamp (-ofNat 1) (ofNat 1)) channel := by
    rw [UInt8.le_iff_toNat_le, toNat_shiftChannel_clamp known, toNat_shiftChannel_clamp found]
    exact nearestByte_mono
      (moved_mono (Nat.le_of_lt_succ channel.toNat_lt) (shareAt_mono places))
  exact ⟨channels _, channels _, channels _⟩

/-- Colours keep their order. -/
theorem shift_mono (number : amount ≠ .nan) {dark bright : Color} (order : dark ≤ bright) :
    dark.shift amount ≤ bright.shift amount := by
  obtain ⟨place, known⟩ := exists_place_of_ne_nan number
  have channels {first second : UInt8} (order : first ≤ second) :
      shiftChannel (amount.clamp (-ofNat 1) (ofNat 1)) first ≤
        shiftChannel (amount.clamp (-ofNat 1) (ofNat 1)) second := by
    rw [UInt8.le_iff_toNat_le] at order ⊢
    rw [toNat_shiftChannel_clamp known, toNat_shiftChannel_clamp known]
    exact nearestByte_moved_mono (abs_shareAt_le place) (Nat.le_of_lt_succ second.toNat_lt) order
  exact ⟨channels order.1, channels order.2.1, channels order.2.2⟩

/-- What becomes of each channel becomes of the colour. -/
theorem shift_eq_of_channels (known : amount.place? = some place) (result : UInt8 → UInt8)
    (channels : ∀ channel : UInt8, nearestByte (moved (shareAt place) channel.toNat) =
      (result channel).toNat) (color : Color) :
    color.shift amount = ⟨result color.red, result color.green, result color.blue⟩ := by
  have each (channel : UInt8) :
      shiftChannel (amount.clamp (-ofNat 1) (ofNat 1)) channel = result channel :=
    UInt8.toNat_inj.mp ((toNat_shiftChannel_clamp known channel).trans (channels channel))
  rw [shift, each, each, each]

/-- No way at all leads to the colour itself. -/
theorem shift_of_isZero (zero : amount.isZero = true) (color : Color) :
    color.shift amount = color := by
  have known : amount.place? = some 0 := by
    cases amount with
    | finite negative magnitude =>
      have none : magnitude.units = 0 := eq_of_beq zero
      rw [place?, none]
      cases negative <;> rfl
    | _ => contradiction
  have share : shareAt 0 = 0 := by
    rw [shareAt, Int.cast_zero, zero_div, min_eq_right zero_le_one, max_eq_right (by norm_num)]
  refine shift_eq_of_channels known id (fun channel => ?_) color
  have few := Nat.le_of_lt_succ channel.toNat_lt
  rw [share, moved, if_pos le_rfl, mul_zero, rounded_zero, add_zero,
    rounded_natCast (few.trans (by decide)), nearestByte_natCast few]
  rfl

theorem shift_eq_white (most : (ofNat 1).le amount = true) (color : Color) :
    color.shift amount = white := by
  obtain ⟨one, place, unit, known, places⟩ := exists_places_of_le most
  obtain ⟨_, same, exact⟩ := place?_of_value? value?_one
  obtain rfl := Option.some.inj (unit.symm.trans same)
  have share : shareAt place = 1 := by
    have whole : (1 : ℚ) ≤ place / unitsPerOne := by
      rw [le_div_iff₀ unitsPerOne_cast_pos, ← exact]
      exact_mod_cast places
    rw [shareAt, min_eq_left whole, max_eq_right (by norm_num)]
  refine shift_eq_of_channels known (fun _ => 255) (fun channel => ?_) color
  rw [share, nearestByte_moved_eq_white (Nat.le_of_lt_succ channel.toNat_lt) (by norm_num) le_rfl]
  rfl

theorem shift_eq_black (least : amount.le (-ofNat 1) = true) (color : Color) :
    color.shift amount = black := by
  obtain ⟨place, one, known, unit, places⟩ := exists_places_of_le least
  obtain ⟨_, same, exact⟩ := place?_of_value? (value?_neg value?_one)
  obtain rfl := Option.some.inj (unit.symm.trans same)
  have share : shareAt place = -1 := by
    have whole : (place / unitsPerOne : ℚ) ≤ -1 := by
      rw [div_le_iff₀ unitsPerOne_cast_pos, ← exact]
      exact_mod_cast places
    rw [shareAt, max_eq_left (min_le_of_right_le whole)]
  refine shift_eq_of_channels known (fun _ => 0) (fun channel => ?_) color
  rw [share, moved, if_neg (by norm_num), abs_neg, abs_one, sub_self, rounded_zero, mul_zero,
    rounded_zero, ← Nat.cast_zero, nearestByte_natCast (Nat.zero_le _)]
  rfl

theorem zero_shift (color : Color) : color.shift .zero = color :=
  shift_of_isZero rfl color

/-- Lightening never darkens. -/
theorem le_shift (above : Binary64.zero.le amount = true) (color : Color) :
    color ≤ color.shift amount := by
  have order := shift_le_shift above color
  rwa [zero_shift] at order

/-- Darkening never lightens. -/
theorem shift_le (below : amount.le .zero = true) (color : Color) : color.shift amount ≤ color := by
  have order := shift_le_shift below color
  rwa [zero_shift] at order

end Shift

/-- Shades keep the order of amounts and the order of colours. From black to white they pass the
colour itself where the amount is zero. -/
theorem shift_ordered :
    (∀ (color : Color) (less more : Binary64), less.le more = true →
      color.shift less ≤ color.shift more) ∧
    (∀ (dark bright : Color) (amount : Binary64), amount ≠ .nan → dark ≤ bright →
      dark.shift amount ≤ bright.shift amount) ∧
    ∀ (color : Color) (amount : Binary64),
      (amount.isZero = true → color.shift amount = color) ∧
      (Binary64.zero.le amount = true → color ≤ color.shift amount) ∧
      (amount.le .zero = true → color.shift amount ≤ color) ∧
      ((ofNat 1).le amount = true → color.shift amount = white) ∧
      (amount.le (-ofNat 1) = true → color.shift amount = black) := by
  refine ⟨?_, ?_, fun color amount => ⟨?_, ?_, ?_, ?_, ?_⟩⟩
  · intro color less more order
    exact shift_le_shift order color
  · intro dark bright amount number order
    exact shift_mono number order
  · exact fun zero => shift_of_isZero zero color
  · exact fun above => le_shift above color
  · exact fun below => shift_le below color
  · exact fun most => shift_eq_white most color
  · exact fun least => shift_eq_black least color

/-- A blue of the sky. -/
def sky : Color := ⟨0x3b, 0x82, 0xf6⟩

/-- The shades of a blue: on both sides of it, beside those of a brighter one, without a way to go,
and at both ends. -/
theorem shift_ordered_sky :
    (darkening.le lightening = true ∧ sky.shift darkening ≤ sky.shift lightening) ∧
    (lightening ≠ .nan ∧ sky ≤ ⟨0x3c, 0x82, 0xff⟩ ∧
      sky.shift lightening ≤ Color.shift ⟨0x3c, 0x82, 0xff⟩ lightening) ∧
    ((Binary64.finite true .zero).isZero = true ∧ sky.shift (.finite true .zero) = sky) ∧
    (Binary64.zero.le lightening = true ∧ sky ≤ sky.shift lightening) ∧
    (darkening.le .zero = true ∧ sky.shift darkening ≤ sky) ∧
    ((ofNat 1).le (.infinite false) = true ∧ sky.shift (.infinite false) = white) ∧
    (Binary64.le (.infinite true) (-ofNat 1) = true ∧ sky.shift (.infinite true) = black) := by
  obtain ⟨amounts, colors, ends⟩ := shift_ordered
  have between : darkening.le lightening = true := by decide +kernel
  have number : lightening ≠ .nan := by decide +kernel
  have brighter : sky ≤ ⟨0x3c, 0x82, 0xff⟩ := by decide
  have above : Binary64.zero.le lightening = true := by decide +kernel
  have below : darkening.le .zero = true := by decide +kernel
  have most : (ofNat 1).le (.infinite false) = true := by decide +kernel
  have least : Binary64.le (.infinite true) (-ofNat 1) = true := by decide +kernel
  exact ⟨⟨between, amounts sky _ _ between⟩, ⟨number, brighter, colors _ _ _ number brighter⟩,
    ⟨rfl, (ends sky (.finite true .zero)).1 rfl⟩, ⟨above, (ends sky _).2.1 above⟩,
    ⟨below, (ends sky _).2.2.1 below⟩, ⟨most, (ends sky _).2.2.2.1 most⟩,
    ⟨least, (ends sky _).2.2.2.2 least⟩⟩

end Color

end ThemeCss
