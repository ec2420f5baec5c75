import Mathlib.Algebra.Order.Field.Power
import Mathlib.Data.Int.Log
import Mathlib.Data.Rat.Floor
import Mathlib.Tactic.Linarith
import Mathlib.Tactic.Positivity

/-!
Binary floating point: the numbers of a format, the rounding of a rational to the nearest of
them with ties to the even mantissa, and division, which rounds the exact quotient.
-/

namespace FloatingPoint

def roundEven (x : ℚ) : ℤ :=
  if 2 * Int.fract x < 1 ∨ 2 * Int.fract x = 1 ∧ Even ⌊x⌋ then ⌊x⌋ else ⌊x⌋ + 1

theorem floor_le_roundEven (x : ℚ) : ⌊x⌋ ≤ roundEven x := by
  unfold roundEven
  split <;> omega

theorem roundEven_le_floor_succ (x : ℚ) : roundEven x ≤ ⌊x⌋ + 1 := by
  unfold roundEven
  split <;> omega

theorem le_roundEven {n : ℤ} {x : ℚ} (below : n ≤ x) : n ≤ roundEven x :=
  (Int.le_floor.mpr below).trans (floor_le_roundEven x)

theorem roundEven_le {n : ℤ} {x : ℚ} (above : x ≤ n) : roundEven x ≤ n := by
  by_cases whole : Int.fract x = 0
  · have exact : roundEven x = ⌊x⌋ := by simp [roundEven, whole]
    rw [exact]
    exact_mod_cast (Int.floor_le x).trans above
  · have part : 0 < Int.fract x := lt_of_le_of_ne (Int.fract_nonneg x) (Ne.symm whole)
    have strict : (⌊x⌋ : ℚ) < n := by
      have split := Int.floor_add_fract x
      linarith
    have room : ⌊x⌋ + 1 ≤ n := by exact_mod_cast strict
    exact (roundEven_le_floor_succ x).trans room

@[simp] theorem roundEven_intCast (n : ℤ) : roundEven n = n :=
  le_antisymm (roundEven_le le_rfl) (le_roundEven le_rfl)

theorem roundEven_mono {x y : ℚ} (le : x ≤ y) : roundEven x ≤ roundEven y := by
  rcases (Int.floor_le_floor le).lt_or_eq with apart | same
  · exact (roundEven_le_floor_succ x).trans (apart.trans_le (floor_le_roundEven y))
  · have parts : Int.fract x ≤ Int.fract y := by
      unfold Int.fract
      rw [same]
      linarith
    unfold roundEven
    rw [same]
    by_cases down : 2 * Int.fract y < 1 ∨ 2 * Int.fract y = 1 ∧ Even ⌊y⌋
    · have down' : 2 * Int.fract x < 1 ∨ 2 * Int.fract x = 1 ∧ Even ⌊y⌋ := by
        rcases down with less | ⟨half, even⟩
        · exact .inl (by linarith)
        · rcases lt_or_eq_of_le (show 2 * Int.fract x ≤ 1 by linarith) with less | half'
          · exact .inl less
          · exact .inr ⟨half', even⟩
      rw [if_pos down, if_pos down']
    · rw [if_neg down]
      split <;> omega

theorem roundEven_nearest (x : ℚ) (n : ℤ) : |(roundEven x : ℚ) - x| ≤ |(n : ℚ) - x| := by
  have whole : x = ⌊x⌋ + Int.fract x := (Int.floor_add_fract x).symm
  have low := Int.fract_nonneg x
  have high := Int.fract_lt_one x
  have near : |(roundEven x : ℚ) - x| ≤ Int.fract x ∧ |(roundEven x : ℚ) - x| ≤ 1 - Int.fract x := by
    unfold roundEven
    split
    · next down =>
        have half : 2 * Int.fract x ≤ 1 := by
          rcases down with less | ⟨half, _⟩
          · exact less.le
          · exact half.le
        rw [abs_sub_comm, abs_of_nonneg (by linarith)]
        exact ⟨by linarith, by linarith⟩
    · next up =>
        have half : 1 ≤ 2 * Int.fract x := not_lt.mp fun less => up (.inl less)
        push_cast
        rw [abs_of_nonneg (by linarith)]
        exact ⟨by linarith, by linarith⟩
  rcases le_or_gt n ⌊x⌋ with below | above
  · have far : (n : ℚ) ≤ ⌊x⌋ := by exact_mod_cast below
    rw [abs_sub_comm (n : ℚ), abs_of_nonneg (show 0 ≤ x - n by linarith)]
    linarith [near.1]
  · have far : (⌊x⌋ : ℚ) + 1 ≤ n := by exact_mod_cast above
    rw [abs_of_nonneg (show 0 ≤ (n : ℚ) - x by linarith)]
    linarith [near.2]

/-- A mantissa has `precision` binary digits, and the place of its last one is from `lowest` to
`highest`. -/
structure Format where
  precision : ℕ
  lowest : ℤ
  highest : ℤ
  digits : 0 < precision
  unit_low : lowest ≤ 1 - precision
  unit_high : 1 - precision ≤ highest

def binary64 : Format where
  precision := 53
  lowest := -1074
  highest := 971
  digits := by decide
  unit_low := by decide
  unit_high := by decide

namespace Format

variable {f : Format} {q r d : ℚ}

def Holds (f : Format) (q : ℚ) : Prop :=
  ∃ (m : ℕ) (e : ℤ), m < 2 ^ f.precision ∧ f.lowest ≤ e ∧ e ≤ f.highest ∧ q = m * 2 ^ e

/-- The place of the last digit that is left of a magnitude. -/
def place (f : Format) (q : ℚ) : ℤ :=
  max (Int.log 2 q + 1 - f.precision) f.lowest

/-- The rounding of a magnitude where places have no upper bound. -/
def rounded (f : Format) (q : ℚ) : ℚ :=
  roundEven (q / 2 ^ f.place q) * 2 ^ f.place q

def limit (f : Format) : ℚ :=
  2 ^ (f.highest + f.precision)

theorem power_pos (e : ℤ) : (0 : ℚ) < 2 ^ e := by positivity

theorem power_le {i j : ℤ} (le : i ≤ j) : (2 : ℚ) ^ i ≤ 2 ^ j :=
  zpow_le_zpow_right₀ (by norm_num) le

theorem power_multiple {i j : ℤ} (le : i ≤ j) : ∃ n : ℤ, (2 : ℚ) ^ j = n * 2 ^ i := by
  refine ⟨2 ^ (j - i).toNat, ?_⟩
  have split : j = ((j - i).toNat : ℤ) + i := by omega
  conv_lhs => rw [split, zpow_add₀ (by norm_num), zpow_natCast]
  push_cast
  rfl

theorem Holds.nonneg (held : f.Holds q) : 0 ≤ q := by
  obtain ⟨m, e, _, _, _, rfl⟩ := held
  have := power_pos e
  positivity

theorem holds_zero : f.Holds 0 :=
  ⟨0, f.highest, by positivity, f.unit_low.trans f.unit_high, le_rfl, by simp⟩

theorem le_rounded {n : ℤ} (below : n * 2 ^ f.place q ≤ q) : n * 2 ^ f.place q ≤ f.rounded q := by
  have scaled : (n : ℚ) ≤ q / 2 ^ f.place q := (le_div_iff₀ (power_pos _)).mpr below
  have kept : (n : ℚ) ≤ roundEven (q / 2 ^ f.place q) := by exact_mod_cast le_roundEven scaled
  exact mul_le_mul_of_nonneg_right kept (power_pos _).le

theorem rounded_le {n : ℤ} (above : q ≤ n * 2 ^ f.place q) : f.rounded q ≤ n * 2 ^ f.place q := by
  have scaled : q / 2 ^ f.place q ≤ (n : ℚ) := (div_le_iff₀ (power_pos _)).mpr above
  have kept : (roundEven (q / 2 ^ f.place q) : ℚ) ≤ n := by exact_mod_cast roundEven_le scaled
  exact mul_le_mul_of_nonneg_right kept (power_pos _).le

theorem power_le_rounded {j : ℤ} (placed : f.place q ≤ j) (below : (2 : ℚ) ^ j ≤ q) :
    (2 : ℚ) ^ j ≤ f.rounded q := by
  obtain ⟨n, multiple⟩ := power_multiple placed
  rw [multiple] at below ⊢
  exact le_rounded below

theorem rounded_le_power {j : ℤ} (placed : f.place q ≤ j) (above : q ≤ (2 : ℚ) ^ j) :
    f.rounded q ≤ (2 : ℚ) ^ j := by
  obtain ⟨n, multiple⟩ := power_multiple placed
  rw [multiple] at above ⊢
  exact rounded_le above

theorem rounded_nonneg (nonneg : 0 ≤ q) : 0 ≤ f.rounded q := by
  have zero := le_rounded (f := f) (q := q) (n := 0) (by simpa using nonneg)
  simpa using zero

@[simp] theorem rounded_zero : f.rounded 0 = 0 := by
  simp [rounded, show roundEven 0 = 0 from by exact_mod_cast roundEven_intCast 0]

theorem rounded_one : f.rounded 1 = 1 := by
  have placed : f.place 1 ≤ 0 := by
    have digits := f.digits
    have low := f.unit_low
    simp only [place, Int.log_one_right, max_le_iff]
    omega
  have low := power_le_rounded placed (by simp)
  have high := rounded_le_power placed (by simp)
  simpa using le_antisymm high low

theorem rounded_mono (positive : 0 < q) (le : q ≤ r) : f.rounded q ≤ f.rounded r := by
  have logs : Int.log 2 q ≤ Int.log 2 r := Int.log_mono_right positive le
  by_cases same : f.place q = f.place r
  · unfold rounded
    rw [same]
    have scaled : q / 2 ^ f.place r ≤ r / 2 ^ f.place r := div_le_div_of_nonneg_right le (power_pos _).le
    exact mul_le_mul_of_nonneg_right (by exact_mod_cast roundEven_mono scaled) (power_pos _).le
  · -- a power of two lies between the two, and on both their grids
    have placed : f.place q ≤ Int.log 2 r ∧ f.place r ≤ Int.log 2 r ∧ Int.log 2 q + 1 ≤ Int.log 2 r := by
      have digits := f.digits
      simp only [place] at same ⊢
      omega
    obtain ⟨below, above, apart⟩ := placed
    have least : q ≤ 2 ^ Int.log 2 r :=
      (Int.lt_zpow_succ_log_self one_lt_two q).le.trans (power_le apart)
    have most : (2 : ℚ) ^ Int.log 2 r ≤ r := by
      exact_mod_cast Int.zpow_log_le_self one_lt_two (positive.trans_le le)
    exact (rounded_le_power below least).trans (power_le_rounded above most)

theorem grid_nearest (n : ℤ) : |f.rounded q - q| ≤ |n * 2 ^ f.place q - q| := by
  have unit := power_pos (f.place q)
  have scale : ∀ m : ℤ, |m * 2 ^ f.place q - q| = |m - q / 2 ^ f.place q| * 2 ^ f.place q := by
    intro m
    rw [← abs_of_pos unit, ← abs_mul, abs_of_pos unit, sub_mul, div_mul_cancel₀ q unit.ne']
  have nearest := roundEven_nearest (q / 2 ^ f.place q) n
  unfold rounded
  rw [scale, scale]
  exact mul_le_mul_of_nonneg_right nearest unit.le

/-- No magnitude of the format is nearer. -/
theorem rounded_nearest (nonneg : 0 ≤ q) (held : f.Holds d) : |f.rounded q - q| ≤ |d - q| := by
  rcases nonneg.eq_or_lt with rfl | positive
  · simp
  obtain ⟨m, e, short, low, _, rfl⟩ := held
  by_cases placed : f.place q ≤ e
  · obtain ⟨n, multiple⟩ := power_multiple placed
    have nearest := grid_nearest (f := f) (q := q) (m * n)
    rw [multiple]
    push_cast at nearest
    rwa [← mul_assoc]
  · -- a digit further right: the leading power of two, which is on the grid, lies between
    have places : e + f.precision ≤ Int.log 2 q ∧ f.place q ≤ Int.log 2 q := by
      have digits := f.digits
      simp only [place] at placed ⊢
      omega
    have leading : (2 : ℚ) ^ Int.log 2 q ≤ q := by
      exact_mod_cast Int.zpow_log_le_self one_lt_two positive
    have below : (m : ℚ) * 2 ^ e ≤ 2 ^ Int.log 2 q := by
      have bound : (m : ℚ) ≤ 2 ^ f.precision := by exact_mod_cast short.le
      calc (m : ℚ) * 2 ^ e ≤ 2 ^ f.precision * 2 ^ e := mul_le_mul_of_nonneg_right bound (power_pos e).le
        _ = 2 ^ (e + f.precision) := by rw [zpow_add₀ (by norm_num), zpow_natCast, mul_comm]
        _ ≤ 2 ^ Int.log 2 q := power_le places.1
    obtain ⟨n, multiple⟩ := power_multiple places.2
    have nearest := grid_nearest (f := f) (q := q) n
    rw [← multiple, abs_of_nonpos (by linarith : (2 : ℚ) ^ Int.log 2 q - q ≤ 0)] at nearest
    rw [abs_of_nonpos (by linarith : (m : ℚ) * 2 ^ e - q ≤ 0)]
    linarith

theorem holds_rounded (nonneg : 0 ≤ q) (bounded : f.rounded q < f.limit) : f.Holds (f.rounded q) := by
  rcases nonneg.eq_or_lt with rfl | positive
  · simpa using holds_zero
  have digits := f.digits
  have places : Int.log 2 q + 1 ≤ f.place q + f.precision ∧ f.lowest ≤ f.place q := by
    simp only [place]
    omega
  have kept : 0 ≤ roundEven (q / 2 ^ f.place q) := le_roundEven (by
    have := power_pos (f.place q)
    push_cast
    positivity)
  obtain ⟨m, mantissa⟩ := Int.eq_ofNat_of_zero_le kept
  have value : f.rounded q = m * 2 ^ f.place q := by simp [rounded, mantissa]
  have short : m ≤ 2 ^ f.precision := by
    have above : q / 2 ^ f.place q ≤ ((2 ^ f.precision : ℤ) : ℚ) := by
      rw [div_le_iff₀ (power_pos _)]
      calc q ≤ 2 ^ (Int.log 2 q + 1) := by exact_mod_cast (Int.lt_zpow_succ_log_self one_lt_two q).le
        _ ≤ 2 ^ (f.place q + f.precision) := power_le places.1
        _ = _ := by
            rw [zpow_add₀ (by norm_num), zpow_natCast, mul_comm]
            push_cast
            rfl
    have rounded := roundEven_le above
    rw [mantissa] at rounded
    exact_mod_cast rounded
  rcases short.lt_or_eq with less | full
  · refine ⟨m, f.place q, less, places.2, ?_, value⟩
    by_contra beyond
    have leading : f.place q ≤ Int.log 2 q ∧ f.highest + f.precision ≤ Int.log 2 q := by
      have order := f.unit_low.trans f.unit_high
      simp only [place] at beyond ⊢
      omega
    have most : (2 : ℚ) ^ Int.log 2 q ≤ q := by
      exact_mod_cast Int.zpow_log_le_self one_lt_two positive
    exact absurd bounded (not_lt.mpr ((power_le leading.2).trans (power_le_rounded leading.1 most)))
  · -- the mantissa was rounded up to a power of two: one place further left it is shorter again
    have whole : f.rounded q = 2 ^ (f.place q + f.precision) := by
      rw [value, full, zpow_add₀ (by norm_num), zpow_natCast, mul_comm]
      push_cast
      rfl
    have room : f.place q < f.highest := by
      rw [whole, limit] at bounded
      have := (zpow_lt_zpow_iff_right₀ (by norm_num : (1 : ℚ) < 2)).mp bounded
      omega
    refine ⟨2 ^ (f.precision - 1), f.place q + 1, ?_, by omega, by omega, ?_⟩
    · exact Nat.pow_lt_pow_right one_lt_two (by omega)
    · rw [whole]
      push_cast
      rw [← zpow_natCast, ← zpow_add₀ (by norm_num)]
      congr 1
      omega

theorem one_lt_limit : 1 < f.limit := by
  have high := f.unit_high
  exact one_lt_zpow₀ (by norm_num) (by omega)

theorem holds_one : f.Holds 1 := by
  simpa [rounded_one] using holds_rounded zero_le_one (rounded_one.trans_lt one_lt_limit)

end Format

inductive Number (f : Format)
  | nan
  | infinite (negative : Bool)
  | finite (negative : Bool) (magnitude : ℚ) (held : f.Holds magnitude)
  deriving DecidableEq

namespace Number

open Format

variable {f : Format} {a b c : Number f}

instance : Zero (Number f) := ⟨.finite false 0 holds_zero⟩

instance : One (Number f) := ⟨.finite false 1 holds_one⟩

/-- Where it lies on the line from minus to plus infinity. -/
def onLine : Number f → Option (WithBot (WithTop ℚ))
  | nan => none
  | infinite true => some ⊥
  | infinite false => some ((⊤ : WithTop ℚ) : WithBot (WithTop ℚ))
  | finite true q _ => some ((-q : ℚ) : WithTop ℚ)
  | finite false q _ => some ((q : ℚ) : WithTop ℚ)

def value : Number f → Option ℚ
  | finite true q _ => some (-q)
  | finite false q _ => some q
  | _ => none

instance : LT (Number f) := ⟨fun a b => ∃ x ∈ a.onLine, ∃ y ∈ b.onLine, x < y⟩

instance : LE (Number f) := ⟨fun a b => ∃ x ∈ a.onLine, ∃ y ∈ b.onLine, x ≤ y⟩

instance : DecidableLT (Number f) := fun a b =>
  inferInstanceAs (Decidable (∃ x ∈ a.onLine, ∃ y ∈ b.onLine, x < y))

instance : DecidableLE (Number f) := fun a b =>
  inferInstanceAs (Decidable (∃ x ∈ a.onLine, ∃ y ∈ b.onLine, x ≤ y))

def round (negative : Bool) (q : ℚ) (nonneg : 0 ≤ q) : Number f :=
  if bounded : f.rounded q < f.limit then finite negative (f.rounded q) (holds_rounded nonneg bounded)
  else infinite negative

def div : Number f → Number f → Number f
  | nan, _ => nan
  | _, nan => nan
  | infinite _, infinite _ => nan
  | infinite s, finite s' _ _ => infinite (s ^^ s')
  | finite s _ _, infinite s' => finite (s ^^ s') 0 holds_zero
  | finite s q held, finite s' q' held' =>
      if q' = 0 then if q = 0 then nan else infinite (s ^^ s')
      else round (s ^^ s') (q / q') (div_nonneg held.nonneg held'.nonneg)

instance : Div (Number f) := ⟨div⟩

def Nearest (a b ratio : Number f) : Prop :=
  ∀ q ∈ a.value, ∀ r ∈ b.value, ∀ x ∈ ratio.value, ∀ other : Number f, ∀ y ∈ other.value,
    |x - q / r| ≤ |y - q / r|

variable {q r : ℚ} {held : f.Holds q} {held' : f.Holds r}

theorem lt_iff : a < b ↔ ∃ x ∈ a.onLine, ∃ y ∈ b.onLine, x < y := Iff.rfl

theorem le_iff : a ≤ b ↔ ∃ x ∈ a.onLine, ∃ y ∈ b.onLine, x ≤ y := Iff.rfl

theorem pos_iff : 0 < a ↔ a = infinite false ∨ ∃ q held, 0 < q ∧ a = finite false q held := by
  have zero : (0 : Number f).onLine = some (((0 : ℚ) : WithTop ℚ) : WithBot (WithTop ℚ)) := rfl
  rw [lt_iff, zero]
  cases a with
  | nan => simp [onLine]
  | infinite s =>
      cases s with
      | false => simpa [onLine] using (WithBot.coe_lt_coe.mpr (WithTop.coe_lt_top (0 : ℚ)))
      | true => simp [onLine]
  | finite s q held =>
      have nonneg := held.nonneg
      cases s with
      | false => simp [onLine, held]
      | true => simp [onLine, nonneg]

theorem value_of_pos (positive : 0 < a) : a.value ≠ some 0 := by
  obtain rfl | ⟨q, held, above, rfl⟩ := pos_iff.mp positive
  · simp [value]
  · simpa [value] using above.ne'

theorem lt_of_lt_le (lt : a < b) (le : b ≤ c) : a < c := by
  obtain ⟨x, left, y, right, lt⟩ := lt
  obtain ⟨y', right', z, last, le⟩ := le
  obtain rfl : y = y' := Option.some.inj (right.symm.trans right')
  exact ⟨x, left, z, last, lt.trans_le le⟩

@[simp] theorem finite_le_finite : finite false q held ≤ finite false r held' ↔ q ≤ r := by
  simp [le_iff, onLine]

@[simp] theorem finite_le_infinite : finite false q held ≤ infinite false := by
  simp [le_iff, onLine]

@[simp] theorem infinite_le_infinite : (infinite false : Number f) ≤ infinite false := by
  simp [le_iff, onLine]

@[simp] theorem not_infinite_le_finite : ¬ infinite false ≤ finite false q held := by
  simp [le_iff, onLine]

theorem round_mono {nonneg : 0 ≤ q} {nonneg' : 0 ≤ r} (positive : 0 < q) (le : q ≤ r) :
    (round false q nonneg : Number f) ≤ round false r nonneg' := by
  have mono : f.rounded q ≤ f.rounded r := rounded_mono positive le
  unfold round
  by_cases bounded : f.rounded r < f.limit
  · have bounded' : f.rounded q < f.limit := mono.trans_lt bounded
    simpa [bounded, bounded'] using mono
  · by_cases bounded' : f.rounded q < f.limit
    · simp [bounded, bounded']
    · simp [bounded, bounded']

theorem zero_le_round {nonneg : 0 ≤ q} {held : f.Holds 0} : finite false 0 held ≤ round false q nonneg := by
  have rounded : 0 ≤ f.rounded q := rounded_nonneg nonneg
  unfold round
  by_cases bounded : f.rounded q < f.limit
  · simpa [bounded] using rounded
  · simp [bounded]

theorem finite_div_finite (positive : r ≠ 0) :
    finite false q held / finite false r held' = round false (q / r) (div_nonneg held.nonneg held'.nonneg) := by
  change (if r = 0 then _ else _) = _
  rw [if_neg positive]
  rfl

theorem finite_div_infinite : finite false q held / infinite false = finite false 0 holds_zero := rfl

theorem infinite_div_finite : infinite false / finite false q held = infinite false := rfl

theorem infinite_div_infinite : (infinite false / infinite false : Number f) = nan := rfl

theorem round_one {q : ℚ} {nonneg : 0 ≤ q} (one : q = 1) : (round false q nonneg : Number f) = 1 := by
  subst one
  have bounded : f.rounded 1 < f.limit := rounded_one.trans_lt one_lt_limit
  rw [round, dif_pos bounded]
  simp only [rounded_one]
  rfl

theorem div_itself (positive : 0 < a) (small : a ≠ infinite false) : a / a = 1 := by
  obtain rfl | ⟨q, held, above, rfl⟩ := pos_iff.mp positive
  · exact absurd rfl small
  · rw [finite_div_finite above.ne']
    exact round_one (div_self above.ne')

theorem div_antitone (positive : 0 < a) (above : 0 < b) (le : b ≤ c) : a / c ≤ a / b ∨ a / c = nan := by
  have above' : 0 < c := lt_of_lt_le above le
  obtain rfl | ⟨q, held, large, rfl⟩ := pos_iff.mp positive
  · obtain rfl | ⟨r', held'', _, rfl⟩ := pos_iff.mp above'
    · exact .inr infinite_div_infinite
    · obtain rfl | ⟨r, held', _, rfl⟩ := pos_iff.mp above
      · exact absurd le not_infinite_le_finite
      · exact .inl (by simp [infinite_div_finite])
  · left
    obtain rfl | ⟨r, held', divisor, rfl⟩ := pos_iff.mp above
    · obtain rfl | ⟨r', held'', _, rfl⟩ := pos_iff.mp above'
      · simp [finite_div_infinite]
      · exact absurd le not_infinite_le_finite
    · obtain rfl | ⟨r', held'', divisor', rfl⟩ := pos_iff.mp above'
      · rw [finite_div_infinite, finite_div_finite divisor.ne']
        exact zero_le_round
      · rw [finite_div_finite divisor.ne', finite_div_finite divisor'.ne']
        exact round_mono (by positivity) (div_le_div_of_nonneg_left large.le divisor (finite_le_finite.mp le))

theorem round_nearest (nonneg : 0 ≤ q) {x y : ℚ} (rounds : x ∈ (round false q nonneg : Number f).value)
    {other : Number f} (valued : y ∈ other.value) : |x - q| ≤ |y - q| := by
  unfold round at rounds
  split at rounds
  · obtain rfl : f.rounded q = x := Option.some.inj rounds
    cases other with
    | nan => simp [value] at valued
    | infinite s => simp [value] at valued
    | finite s d held =>
        have nearest := rounded_nearest nonneg held
        cases s with
        | false =>
            obtain rfl : d = y := Option.some.inj valued
            exact nearest
        | true =>
            obtain rfl : -d = y := Option.some.inj valued
            have far : |d - q| ≤ |-d - q| := by
              have := held.nonneg
              rw [abs_of_nonpos (by linarith : -d - q ≤ 0)]
              exact abs_le.mpr ⟨by linarith, by linarith⟩
            exact nearest.trans far
  · simp [value] at rounds

theorem div_nearest (positive : 0 < a) (above : 0 < b) : Nearest a b (a / b) := by
  intro q dividend r divisor x quotient other y valued
  obtain rfl | ⟨q', held, _, rfl⟩ := pos_iff.mp positive
  · simp [value] at dividend
  obtain rfl | ⟨r', held', positive', rfl⟩ := pos_iff.mp above
  · simp [value] at divisor
  obtain rfl : q' = q := Option.some.inj dividend
  obtain rfl : r' = r := Option.some.inj divisor
  rw [finite_div_finite positive'.ne'] at quotient
  exact round_nearest _ quotient valued

theorem round_ne_nan {q : ℚ} {nonneg : 0 ≤ q} {s : Bool} : (round s q nonneg : Number f) ≠ nan := by
  unfold round
  split <;> simp

theorem div_eq_nan_iff (positive : 0 < a) (above : 0 < b) :
    a / b = nan ↔ a = infinite false ∧ b = infinite false := by
  obtain rfl | ⟨q, held, _, rfl⟩ := pos_iff.mp positive
  · obtain rfl | ⟨r, held', _, rfl⟩ := pos_iff.mp above
    · simp [infinite_div_infinite]
    · simp [infinite_div_finite]
  · obtain rfl | ⟨r, held', divisor, rfl⟩ := pos_iff.mp above
    · simp [finite_div_infinite]
    · simp [finite_div_finite divisor.ne', round_ne_nan]

end Number

end FloatingPoint
