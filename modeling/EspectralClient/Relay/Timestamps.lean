/-
The relay's timestamps (`services/ruta-relay/src/util.rs`): the date of a number of days since the first of January of
1970, and a second written as RFC 3339.

- `civilParts`, `civilFromDays`: the conversion on checked 64-bit integers; `fmtRfc3339` writes a second.
- `march_spec`: the year of a day, from March to February, and the day within it.
- `civilParts_ends`: what the code computes, for every second that there is, and no step of it overflows.
- `dateOf_next`: one day later is the next date.
- `timestamps_correct`: the dates are the calendar's, in order, and the texts of the years 0 to 9999 are in order.
-/
import EspectralClient.Lib.Calendar
import EspectralClient.Lib.Checked
import EspectralClient.Lib.Decimal

namespace EspectralClient.RelayUtil

open Lib Lib.Calendar Lib.Checked Lib.Decimal Lib.Fallible

/-! ## Model -/

/-- a result of `i64` arithmetic -/
def i64 (x : ℤ) : Except (Stop Empty) ℤ := signed 64 x

/-- `as u32` -/
def asU32 (x : ℤ) : ℕ := (x % 2 ^ 32).toNat

/-- a year that begins in March, with the month and the day before they are cast -/
structure Parts where
  y : ℤ
  m : ℤ
  d : ℤ

/-- a quotient of a constant is within its width -/
def civilParts (z : ℤ) : Except (Stop Empty) Parts := do
  let z ← i64 (z + 719468)
  let n := if z ≥ 0 then .ok z else i64 (z - 146096)
  let era := (← n).tdiv 146097
  let doe ← i64 (z - (← i64 (era * 146097)))
  let yoe := (← i64 ((← i64 ((← i64 (doe - doe.tdiv 1460)) + doe.tdiv 36524)) - doe.tdiv 146096)).tdiv 365
  let y ← i64 (yoe + (← i64 (era * 400)))
  let doy ← i64 (doe - (← i64 ((← i64 ((← i64 (365 * yoe)) + yoe.tdiv 4)) - yoe.tdiv 100)))
  let mp := (← i64 ((← i64 (5 * doy)) + 2)).tdiv 153
  let d ← i64 ((← i64 (doy - (← i64 ((← i64 (153 * mp)) + 2)).tdiv 5)) + 1)
  let m := if mp < 10 then i64 (mp + 3) else i64 (mp - 9)
  return ⟨y, ← m, d⟩

/-- `civil_from_days`: the year, the month and the day -/
def civilFromDays (z : ℤ) : Except (Stop Empty) (ℤ × ℕ × ℕ) := do
  let p ← civilParts z
  let y := if asU32 p.m ≤ 2 then i64 (p.y + 1) else .ok p.y
  return (← y, asU32 p.m, asU32 p.d)

/-- an `i64` behind zeros; a sign counts as a character -/
def padInt (w : ℕ) (n : ℤ) : List Char := if 0 ≤ n then pad w n.toNat else '-' :: pad (w - 1) (-n).toNat

def fmtRfc3339 (secs : ℤ) : Except (Stop Empty) String := do
  let days := secs / 86400
  let rem := secs % 86400
  let (y, mo, d) ← civilFromDays days
  return .ofList (padInt 4 y ++ '-' :: (pad 2 mo ++ '-' :: (pad 2 d ++ 'T' :: (padInt 2 (rem.tdiv 3600) ++
    ':' :: (padInt 2 ((rem.tmod 3600).tdiv 60) ++ ':' :: (padInt 2 (rem.tmod 60) ++ ['Z']))))))

/-! ## The year of a day -/

def marchYear (z : ℤ) : ℤ :=
  let doe := (z + 719468) % 146097
  (doe - doe / 1460 + doe / 36524 - doe / 146096) / 365 + (z + 719468) / 146097 * 400

/-- the year within four hundred of a day within their cycle -/
theorem yoe_spec {doe yoe : ℤ} (h0 : 0 ≤ doe) (h1 : doe ≤ 146096)
    (h : yoe = (doe - doe / 1460 + doe / 36524 - doe / 146096) / 365) :
    0 ≤ yoe ∧ yoe ≤ 399 ∧ 365 * yoe + yoe / 4 - yoe / 100 ≤ doe ∧
      doe < 365 * (yoe + 1) + (yoe + 1) / 4 - (yoe + 1) / 100 + (yoe + 1) / 400 := by
  have hlast : doe / 36524 = 4 ↔ doe / 146096 = 1 := by omega
  obtain ⟨hc0, hc1⟩ : 0 ≤ doe / 1460 ∧ doe / 1460 ≤ 100 := by omega
  obtain ⟨he0, he1⟩ : 0 ≤ doe / 146096 ∧ doe / 146096 ≤ 1 := by omega
  obtain ⟨hd0, hd1⟩ : 0 ≤ doe / 36524 ∧ doe / 36524 ≤ 4 := by omega
  generalize hd : doe / 36524 = d at *
  generalize hc : doe / 1460 = c at *
  generalize he : doe / 146096 = e at *
  obtain ⟨hlow, hhigh⟩ : 365 * yoe ≤ doe - c + d - e ∧ doe - c + d - e < 365 * yoe + 365 := by omega
  clear h
  have hy0 : 0 ≤ yoe := by omega
  have hy1 : yoe ≤ 399 := by omega
  refine ⟨hy0, hy1, ?_⟩
  -- a year within its century, the last one of a century, or the last of all
  have hcentury : (yoe / 100 = d ∧ (yoe + 1) / 100 = d ∧ (yoe + 1) / 400 = 0 ∧ e = 0) ∨
      yoe = 100 * d + 99 ∧ d ≤ 3 ∨ yoe = 399 := by
    interval_cases d <;> omega
  rcases hcentury with ⟨hg, hh, hi, rfl⟩ | ⟨rfl, hd3⟩ | rfl
  · obtain ⟨hleap, hleap', hleap''⟩ : yoe - 2 ≤ 4 * ((yoe + 1) / 4) ∧ yoe - 3 ≤ 4 * (yoe / 4) ∧
        4 * (yoe / 4) ≤ yoe := by omega
    obtain ⟨hdoe, hdoe'⟩ : 1460 * c ≤ doe ∧ doe < 1460 * c + 1460 := by omega
    have hcd : d ≤ c := by omega
    rw [hg, hh, hi]
    generalize (yoe + 1) / 4 = g at *
    generalize yoe / 4 = f at *
    constructor
    · by_contra hlt
      have : c + 1 ≤ f := by omega
      omega
    · by_contra hlt
      have : g + 1 ≤ c := by omega
      omega
  · interval_cases d <;> omega
  · omega

theorem yearStart_cycle (y era : ℤ) : yearStart (y + era * 400) = yearStart y + era * 146097 := by
  unfold yearStart
  omega

/-- **The year of a day.** -/
theorem march_spec (z : ℤ) : yearStart (marchYear z) ≤ z + 719468 ∧ z + 719468 < yearStart (marchYear z + 1) := by
  obtain ⟨h0, h1, hlow, hhigh⟩ := yoe_spec (show 0 ≤ (z + 719468) % 146097 by omega) (by omega) rfl
  unfold marchYear
  simp only
  generalize ((z + 719468) % 146097 - (z + 719468) % 146097 / 1460 + (z + 719468) % 146097 / 36524 -
    (z + 719468) % 146097 / 146096) / 365 = yoe at *
  have hmod := Int.emod_add_mul_ediv (z + 719468) 146097
  have hcycle : yoe / 400 = 0 := by omega
  rw [add_right_comm, yearStart_cycle, yearStart_cycle]
  unfold yearStart
  rw [hcycle]
  omega

/-- the day within its year -/
def marchDay (z : ℤ) : ℤ := z + 719468 - yearStart (marchYear z)

theorem marchDay_nonneg (z : ℤ) : 0 ≤ marchDay z := sub_nonneg.2 (march_spec z).1

theorem marchDay_lt (z : ℤ) : marchDay z < if isLeap (marchYear z + 1) then 366 else 365 := by
  have hlt := (march_spec z).2
  rw [yearStart_succ] at hlt
  unfold marchDay
  omega

theorem march_succ (z : ℤ) : (marchYear (z + 1) = marchYear z ∧ marchDay (z + 1) = marchDay z + 1) ∨
    marchYear (z + 1) = marchYear z + 1 ∧ marchDay (z + 1) = 0 ∧
      marchDay z + 1 = if isLeap (marchYear z + 1) then 366 else 365 := by
  obtain ⟨hlow, hhigh⟩ := march_spec z
  obtain ⟨hlow', hhigh'⟩ := march_spec (z + 1)
  have hsucc := yearStart_succ (marchYear z)
  have hpos := yearStart_succ (marchYear z + 1)
  by_cases hlast : z + 719468 + 1 < yearStart (marchYear z + 1)
  · have hyear := yearStart_unique hlow' hhigh' (by omega) (by omega : z + 1 + 719468 < yearStart (marchYear z + 1))
    refine Or.inl ⟨hyear, ?_⟩
    unfold marchDay
    rw [hyear]
    omega
  · have hyear : marchYear (z + 1) = marchYear z + 1 := by
      apply yearStart_unique hlow' hhigh' (by omega)
      split_ifs at hpos <;> omega
    refine Or.inr ⟨hyear, ?_, ?_⟩
    · unfold marchDay
      rw [hyear]
      omega
    · unfold marchDay
      omega

/-! ## The month -/

def monthNumber (doy : ℤ) : ℤ := if (5 * doy + 2) / 153 < 10 then (5 * doy + 2) / 153 + 3 else (5 * doy + 2) / 153 - 9

def dayNumber (doy : ℤ) : ℤ := doy - (153 * ((5 * doy + 2) / 153) + 2) / 5 + 1

theorem month_spec {doy : ℤ} {leap : Bool} (h0 : 0 ≤ doy) (h1 : doy < if leap then 366 else 365) :
    1 ≤ monthNumber doy ∧ monthNumber doy ≤ 12 ∧ 1 ≤ dayNumber doy ∧
      dayNumber doy ≤ monthLength leap (monthNumber doy).toNat := by
  unfold monthNumber dayNumber
  obtain ⟨hmp0, hmp1⟩ : 0 ≤ (5 * doy + 2) / 153 ∧ (5 * doy + 2) / 153 ≤ 11 := by split_ifs at h1 <;> omega
  generalize hmp : (5 * doy + 2) / 153 = mp at *
  interval_cases mp <;> simp [monthLength] <;> split_ifs at * <;> omega

/-- the next day is in the same month, or the first of the next one -/
theorem month_succ {doy : ℤ} {leap : Bool} (h0 : 0 ≤ doy) (h1 : doy + 1 < if leap then 366 else 365) :
    (dayNumber doy < monthLength leap (monthNumber doy).toNat ∧ monthNumber (doy + 1) = monthNumber doy ∧
        dayNumber (doy + 1) = dayNumber doy + 1) ∨
      dayNumber doy = monthLength leap (monthNumber doy).toNat ∧ dayNumber (doy + 1) = 1 ∧
        (monthNumber (doy + 1) = monthNumber doy + 1 ∧ monthNumber doy < 12 ∧ monthNumber doy ≠ 2 ∨
          monthNumber doy = 12 ∧ monthNumber (doy + 1) = 1) := by
  unfold monthNumber dayNumber
  obtain ⟨hmp0, hmp1⟩ : 0 ≤ (5 * doy + 2) / 153 ∧ (5 * doy + 2) / 153 ≤ 11 := by split_ifs at h1 <;> omega
  have hmp' : (5 * (doy + 1) + 2) / 153 = (5 * doy + 2) / 153 ∨
      (5 * (doy + 1) + 2) / 153 = (5 * doy + 2) / 153 + 1 := by omega
  generalize hmp : (5 * doy + 2) / 153 = mp at *
  rcases hmp' with hmp' | hmp' <;> rw [hmp'] <;> interval_cases mp <;> simp [monthLength] <;> split_ifs at * <;> omega

/-! ## Dates -/

theorem monthLength_of_ne {m : ℕ} (h : m ≠ 2) (leap leap' : Bool) : monthLength leap m = monthLength leap' m := by
  simp [monthLength, h]

/-- the year of a month, which begins in January -/
def civilYear (y : ℤ) (m : ℕ) : ℤ := if m ≤ 2 then y + 1 else y

theorem length_civilYear (y : ℤ) (m : ℕ) :
    monthLength (isLeap (civilYear y m)) m = monthLength (isLeap (y + 1)) m := by
  by_cases h : m = 2
  · rw [h]
    rfl
  · exact monthLength_of_ne h _ _

/-- the date of a day since the first of January of 1970 -/
def dateOf (z : ℤ) : Date where
  year := civilYear (marchYear z) (monthNumber (marchDay z)).toNat
  month := (monthNumber (marchDay z)).toNat
  day := (dayNumber (marchDay z)).toNat
  month_pos := Int.toNat_le_toNat (month_spec (marchDay_nonneg z) (marchDay_lt z)).1
  month_le := Int.toNat_le.2 (month_spec (marchDay_nonneg z) (marchDay_lt z)).2.1
  day_pos := Int.toNat_le_toNat (month_spec (marchDay_nonneg z) (marchDay_lt z)).2.2.1
  day_le := (length_civilYear _ _).symm ▸ Int.toNat_le.2 (month_spec (marchDay_nonneg z) (marchDay_lt z)).2.2.2

/-- **One day later is the next date.** -/
theorem dateOf_next (z : ℤ) : dateOf (z + 1) = (dateOf z).next := by
  have hnonneg := marchDay_nonneg z
  obtain ⟨hm1, hm12, hd1, hdle⟩ := month_spec hnonneg (marchDay_lt z)
  have hday : (dateOf z).day < monthLength (isLeap (dateOf z).year) (dateOf z).month ↔
      dayNumber (marchDay z) < monthLength (isLeap (marchYear z + 1)) (monthNumber (marchDay z)).toNat := by
    rw [dateOf, length_civilYear]
    simp only
    omega
  rcases march_succ z with ⟨hyear, hsucc⟩ | ⟨hyear, hzero, hlast⟩
  · have hlt := marchDay_lt (z + 1)
    rw [hyear, hsucc] at hlt
    rcases month_succ hnonneg hlt with ⟨hwithin, hmonth, hnumber⟩ | ⟨hend, hone, ⟨hmonth, hdec, hfeb⟩ | ⟨hdec, hmonth⟩⟩
    · rw [Date.next, dif_pos (hday.2 hwithin)]
      ext <;> simp only [dateOf, hyear, hsucc, hmonth, hnumber]
      omega
    · rw [Date.next, dif_neg (by rw [hday]; omega), dif_pos (by simp only [dateOf]; omega)]
      ext <;> simp only [dateOf, hyear, hsucc, hmonth, hone, civilYear]
      · split_ifs <;> omega
      · omega
      · rfl
    · rw [Date.next, dif_neg (by rw [hday]; omega), dif_neg (by simp only [dateOf]; omega)]
      ext <;> simp only [dateOf, hyear, hsucc, hmonth, hone, hdec, civilYear] <;> simp
  · -- the last day of February
    have hends : monthNumber (marchDay z) = 2 ∧
        dayNumber (marchDay z) = monthLength (isLeap (marchYear z + 1)) 2 := by
      generalize marchDay z = doy at *
      unfold monthNumber dayNumber monthLength
      split_ifs at * <;> omega
    rw [Date.next, dif_neg (by rw [hday, hends.1]; exact hends.2.not_lt), dif_pos (by simp only [dateOf]; omega)]
    ext <;> simp only [dateOf, hyear, hzero, hends.1, civilYear] <;> simp [monthNumber, dayNumber]

theorem january_le : 1 ≤ 12 := by decide

/-- the first of January of 1970 -/
def epoch : Date := ⟨1970, 1, 1, Nat.le_refl 1, january_le, Nat.le_refl 1, monthLength_pos _ _⟩

theorem dateOf_zero : dateOf 0 = epoch := by decide

/-! ## The code -/

section Code

variable {E : Stop Empty → Prop}

theorem i64_ends {x : ℤ} (hlow : -2 ^ 63 ≤ x) (hhigh : x < 2 ^ 63) : Ends E (fun y => y = x) (i64 x) :=
  signed_ends hlow hhigh

theorem tdiv_era {z : ℤ} (hz : z < 0) : (z - 146096).tdiv 146097 = z / 146097 := by
  have hneg : z - 146096 = -(146096 - z) := by ring
  rw [hneg, Int.neg_tdiv, Int.tdiv_eq_ediv_of_nonneg (by omega)]
  omega

/-- the day within its year, by the cycle of four hundred years -/
theorem marchDay_cycle {z doe yoe : ℤ} (hdoe : doe = (z + 719468) % 146097)
    (hyoe : yoe = (doe - doe / 1460 + doe / 36524 - doe / 146096) / 365) :
    marchDay z = doe - (365 * yoe + yoe / 4 - yoe / 100) := by
  obtain ⟨hyoe0, hyoe1, -⟩ := yoe_spec (by omega) (by omega) hyoe
  have hyear : marchYear z = yoe + (z + 719468) / 146097 * 400 := by
    rw [hyoe, hdoe]
    rfl
  have hcycle : yoe / 400 = 0 := by omega
  rw [marchDay, hyear, yearStart_cycle, yearStart, hcycle]
  omega

/-- **What the code computes**, and none of its steps overflows. -/
theorem civilParts_ends {z : ℤ} (hlow : -2 ^ 50 ≤ z) (hhigh : z ≤ 2 ^ 50) :
    Ends E (fun p => p.y = marchYear z ∧ p.m = monthNumber (marchDay z) ∧ p.d = dayNumber (marchDay z))
      (civilParts z) := by
  obtain ⟨hdoe0, hdoe1⟩ : 0 ≤ (z + 719468) % 146097 ∧ (z + 719468) % 146097 ≤ 146096 := by omega
  obtain ⟨hera0, hera1⟩ : -2 ^ 40 ≤ (z + 719468) / 146097 ∧ (z + 719468) / 146097 ≤ 2 ^ 40 := by omega
  have hdoe : z + 719468 - (z + 719468) / 146097 * 146097 = (z + 719468) % 146097 := by omega
  obtain ⟨hyoe0, hyoe1, hyoe2, -⟩ := yoe_spec hdoe0 hdoe1 rfl
  have hday := marchDay_cycle (z := z) rfl rfl
  have hday0 := marchDay_nonneg z
  have hday1 : marchDay z ≤ 365 := by
    have := marchDay_lt z
    split_ifs at this <;> omega
  have hyear : marchYear z = ((z + 719468) % 146097 - (z + 719468) % 146097 / 1460 + (z + 719468) % 146097 / 36524 -
    (z + 719468) % 146097 / 146096) / 365 + (z + 719468) / 146097 * 400 := rfl
  unfold civilParts monthNumber dayNumber
  refine bind_ends (i64_ends (by omega) (by omega)) ?_
  rintro _ rfl
  refine bind_ends (Q := fun era : ℤ => era.tdiv 146097 = (z + 719468) / 146097) (ite_ends ?_ ?_) ?_
  · intro hz
    exact Int.tdiv_eq_ediv_of_nonneg hz
  · intro hz
    refine (i64_ends (by omega) (by omega)).mono ?_
    rintro _ rfl
    exact tdiv_era (by omega)
  intro era hera
  rw [hera]
  refine bind_ends (i64_ends (by omega) (by omega)) ?_
  rintro _ rfl
  refine bind_ends (i64_ends (by omega) (by omega)) ?_
  rintro _ rfl
  rw [hdoe, Int.tdiv_eq_ediv_of_nonneg hdoe0, Int.tdiv_eq_ediv_of_nonneg hdoe0, Int.tdiv_eq_ediv_of_nonneg hdoe0]
  generalize (z + 719468) % 146097 = doe at *
  generalize (z + 719468) / 146097 = cycle at *
  refine bind_ends (i64_ends (by omega) (by omega)) ?_
  rintro _ rfl
  refine bind_ends (i64_ends (by omega) (by omega)) ?_
  rintro _ rfl
  refine bind_ends (i64_ends (by omega) (by omega)) ?_
  rintro _ rfl
  rw [Int.tdiv_eq_ediv_of_nonneg (by omega)]
  generalize (doe - doe / 1460 + doe / 36524 - doe / 146096) / 365 = yoe at *
  refine bind_ends (i64_ends (by omega) (by omega)) ?_
  rintro _ rfl
  refine bind_ends (i64_ends (by omega) (by omega)) ?_
  rintro _ rfl
  rw [Int.tdiv_eq_ediv_of_nonneg hyoe0, Int.tdiv_eq_ediv_of_nonneg hyoe0]
  refine bind_ends (i64_ends (by omega) (by omega)) ?_
  rintro _ rfl
  refine bind_ends (i64_ends (by omega) (by omega)) ?_
  rintro _ rfl
  refine bind_ends (i64_ends (by omega) (by omega)) ?_
  rintro _ rfl
  refine bind_ends (i64_ends (by omega) (by omega)) ?_
  rintro _ rfl
  rw [← hday, ← hyear]
  generalize marchDay z = doy at *
  refine bind_ends (i64_ends (by omega) (by omega)) ?_
  rintro _ rfl
  refine bind_ends (i64_ends (by omega) (by omega)) ?_
  rintro _ rfl
  rw [Int.tdiv_eq_ediv_of_nonneg (by omega)]
  generalize hmp : (5 * doy + 2) / 153 = mp at *
  refine bind_ends (i64_ends (by omega) (by omega)) ?_
  rintro _ rfl
  refine bind_ends (i64_ends (by omega) (by omega)) ?_
  rintro _ rfl
  rw [Int.tdiv_eq_ediv_of_nonneg (by omega)]
  refine bind_ends (i64_ends (by omega) (by omega)) ?_
  rintro _ rfl
  refine bind_ends (i64_ends (by omega) (by omega)) ?_
  rintro _ rfl
  refine bind_ends (Q := fun m => m = if mp < 10 then mp + 3 else mp - 9) (ite_ends ?_ ?_) ?_
  · intro h
    rw [if_pos h]
    exact i64_ends (by omega) (by omega)
  · intro h
    rw [if_neg h]
    exact i64_ends (by omega) (by omega)
  rintro _ rfl
  exact ⟨rfl, rfl, rfl⟩

theorem asU32_of_nonneg {x : ℤ} (h0 : 0 ≤ x) (h : x < 2 ^ 32) : asU32 x = x.toNat := by
  rw [asU32, Int.emod_eq_of_lt h0 h]

theorem civilFromDays_ok {z : ℤ} (hlow : -2 ^ 50 ≤ z) (hhigh : z ≤ 2 ^ 50) :
    civilFromDays z = .ok ((dateOf z).year, (dateOf z).month, (dateOf z).day) := by
  obtain ⟨hm1, hm12, hd1, hdle⟩ := month_spec (marchDay_nonneg z) (marchDay_lt z)
  have hday : dayNumber (marchDay z) ≤ 31 := by
    refine hdle.trans ?_
    unfold monthLength
    split_ifs <;> decide
  have hyear : -2 ^ 60 ≤ marchYear z ∧ marchYear z ≤ 2 ^ 60 := by
    have h1 := (march_spec z).1
    have h2 := (march_spec z).2
    unfold yearStart at h1 h2
    omega
  have hends : Ends (fun _ => False) (fun q => q = ((dateOf z).year, (dateOf z).month, (dateOf z).day))
      (civilFromDays z) := by
    refine bind_ends (civilParts_ends hlow hhigh) ?_
    rintro ⟨y, m, d⟩ ⟨hy, hm, hd⟩
    simp only at hy hm hd
    subst hy hm hd
    simp only
    rw [asU32_of_nonneg (by omega) (by omega), asU32_of_nonneg (by omega) (by omega)]
    refine bind_ends (Q := fun y => y = (dateOf z).year) (ite_ends ?_ ?_) ?_
    · intro h
      refine (i64_ends (by omega) (by omega)).mono ?_
      rintro _ rfl
      exact (if_pos h).symm
    · intro h
      exact (if_neg h).symm
    rintro _ rfl
    exact rfl
  cases hc : civilFromDays z with
  | error e =>
    rw [hc] at hends
    exact hends.elim
  | ok q => rw [hends.of_ok hc]

end Code

/-! ## Texts -/

def stamp (D : Date) (rem : ℤ) : List Char :=
  padInt 4 D.year ++ '-' :: (pad 2 D.month ++ '-' :: (pad 2 D.day ++ 'T' :: (padInt 2 (rem.tdiv 3600) ++
    ':' :: (padInt 2 ((rem.tmod 3600).tdiv 60) ++ ':' :: (padInt 2 (rem.tmod 60) ++ ['Z'])))))

theorem fmtRfc3339_ok {s : ℤ} (hlow : -2 ^ 63 ≤ s) (hhigh : s < 2 ^ 63) :
    fmtRfc3339 s = .ok (.ofList (stamp (dateOf (s / 86400)) (s % 86400))) := by
  rw [fmtRfc3339, civilFromDays_ok (by omega) (by omega)]
  rfl

section Fields

variable {w : ℕ} {a b : ℤ} {r r' : List Char}

/-- two texts that begin with numbers of one width -/
theorem padInt_append_lt (hw : 0 < w) (ha : 0 ≤ a) (ha' : a < 10 ^ w) (hb : 0 ≤ b) (hb' : b < 10 ^ w) :
    padInt w a ++ r < padInt w b ++ r' ↔ a < b ∨ a = b ∧ r < r' := by
  have ha'' : a.toNat < 10 ^ w := by
    zify
    omega
  have hb'' : b.toNat < 10 ^ w := by
    zify
    omega
  have hlength : (pad w a.toNat).length = (pad w b.toNat).length := by
    rw [length_pad hw ha'', length_pad hw hb'']
  have hlt : a.toNat < b.toNat ↔ a < b := by omega
  have heq : a.toNat = b.toNat ↔ a = b := by omega
  rw [padInt, padInt, if_pos ha, if_pos hb, append_lt_append hlength, pad_lt_pad hw ha'' hb'', pad_inj hw ha'' hb'',
    hlt, heq]

theorem pad_append_lt {m n : ℕ} (hw : 0 < w) (hm : m < 10 ^ w) (hn : n < 10 ^ w) :
    pad w m ++ r < pad w n ++ r' ↔ m < n ∨ m = n ∧ r < r' := by
  have hlength : (pad w m).length = (pad w n).length := by rw [length_pad hw hm, length_pad hw hn]
  rw [append_lt_append hlength, pad_lt_pad hw hm hn, pad_inj hw hm hn]

theorem cons_lt (c : Char) : c :: r < c :: r' ↔ r < r' := by
  simp

end Fields

/-- **Texts compare as the dates and the seconds within them do.** -/
theorem stamp_lt {D E : Date} {a b : ℤ} (hD : 0 ≤ D.year ∧ D.year ≤ 9999) (hE : 0 ≤ E.year ∧ E.year ≤ 9999)
    (ha : 0 ≤ a ∧ a < 86400) (hb : 0 ≤ b ∧ b < 86400) : stamp D a < stamp E b ↔ D.Before E ∨ D = E ∧ a < b := by
  have hday : ∀ F : Date, F.day < 10 ^ 2 := by
    intro F
    refine F.day_le.trans_lt ?_
    unfold monthLength
    split_ifs <;> decide
  have hmonth : ∀ F : Date, F.month < 10 ^ 2 := fun F => F.month_le.trans_lt (by decide)
  have hquot : ∀ x : ℤ, 0 ≤ x → x.tdiv 3600 = x / 3600 ∧ (x.tmod 3600).tdiv 60 = x % 3600 / 60 ∧ x.tmod 60 = x % 60 := by
    intro x hx
    rw [Int.tmod_eq_emod_of_nonneg hx, Int.tmod_eq_emod_of_nonneg hx, Int.tdiv_eq_ediv_of_nonneg hx,
      Int.tdiv_eq_ediv_of_nonneg (by omega)]
    exact ⟨rfl, rfl, rfl⟩
  obtain ⟨ha1, ha2, ha3⟩ := hquot a ha.1
  obtain ⟨hb1, hb2, hb3⟩ := hquot b hb.1
  unfold stamp
  rw [ha1, ha2, ha3, hb1, hb2, hb3, padInt_append_lt (by decide) hD.1 (by omega) hE.1 (by omega), cons_lt,
    pad_append_lt (by decide) (hmonth D) (hmonth E), cons_lt, pad_append_lt (by decide) (hday D) (hday E), cons_lt,
    padInt_append_lt (by decide) (by omega) (by omega) (by omega) (by omega), cons_lt,
    padInt_append_lt (by decide) (by omega) (by omega) (by omega) (by omega), cons_lt,
    padInt_append_lt (by decide) (by omega) (by omega) (by omega) (by omega), Date.ext_iff, Date.Before]
  have hirrefl : ¬ (['Z'] : List Char) < ['Z'] := lt_irrefl _
  have htime : a / 3600 < b / 3600 ∨ a / 3600 = b / 3600 ∧ (a % 3600 / 60 < b % 3600 / 60 ∨
      a % 3600 / 60 = b % 3600 / 60 ∧ a % 60 < b % 60) ↔ a < b := by omega
  simp only [hirrefl, and_false, or_false, htime]
  omega

/-! ## Timestamps -/

/-- the seconds of the years from 0 to 9999 -/
def InYears (s : ℤ) : Prop :=
  -2 ^ 63 ≤ s ∧ s < 2 ^ 63 ∧ ∃ q, civilFromDays (s / 86400) = .ok q ∧ 0 ≤ q.1 ∧ q.1 ≤ 9999

theorem before_dateOf {a b : ℤ} (h : a < b) : (dateOf a).Before (dateOf b) :=
  before_of_next (B := max |a| |b|) (fun z _ _ => dateOf_next z) (neg_le.1 ((neg_le_abs a).trans (le_max_left _ _)))
    ((le_abs_self b).trans (le_max_right _ _)) h

theorem fmt_lt {s t : ℤ} (hs : InYears s) (ht : InYears t) :
    ∃ a b, fmtRfc3339 s = .ok a ∧ fmtRfc3339 t = .ok b ∧ (a < b ↔ s < t) := by
  obtain ⟨hslow, hshigh, q, hq, hq0, hq1⟩ := hs
  obtain ⟨htlow, hthigh, p, hp, hp0, hp1⟩ := ht
  rw [civilFromDays_ok (by omega) (by omega)] at hq hp
  obtain rfl := Except.ok.inj hq
  obtain rfl := Except.ok.inj hp
  refine ⟨_, _, fmtRfc3339_ok hslow hshigh, fmtRfc3339_ok htlow hthigh, ?_⟩
  rw [String.lt_iff_toList_lt, String.toList_ofList, String.toList_ofList,
    stamp_lt ⟨hq0, hq1⟩ ⟨hp0, hp1⟩ (by omega) (by omega)]
  rcases lt_trichotomy (s / 86400) (t / 86400) with hlt | heq | hgt
  · exact iff_of_true (Or.inl (before_dateOf hlt)) (by omega)
  · rw [heq]
    have hirrefl := Date.Before.irrefl (dateOf (t / 86400))
    simp only [hirrefl, false_or, true_and]
    omega
  · have hback := before_dateOf hgt
    refine iff_of_false ?_ (by omega)
    rintro (h | ⟨h, -⟩)
    · exact Date.Before.irrefl _ (h.trans hback)
    · rw [h] at hback
      exact Date.Before.irrefl _ hback

/-- **Timestamps are the calendar's.** -/
theorem timestamps_correct :
    (∀ z, |z| ≤ 10 ^ 12 → ∃ D : Date, civilFromDays z = .ok (D.year, D.month, D.day) ∧ IsDay epoch z D ∧
      ∃ p, civilParts z = .ok p ∧ p.m = D.month ∧ p.d = D.day) ∧
    (∀ a b, |a| ≤ 10 ^ 12 → |b| ≤ 10 ^ 12 → a < b → ∃ D E : Date, civilFromDays a = .ok (D.year, D.month, D.day) ∧
      civilFromDays b = .ok (E.year, E.month, E.day) ∧ D.Before E) ∧
    civilFromDays 0 = .ok (1970, 1, 1) ∧
    (∀ z, |z| ≤ 10 ^ 12 → |z + 1| ≤ 10 ^ 12 → ∃ D : Date, civilFromDays z = .ok (D.year, D.month, D.day) ∧
      civilFromDays (z + 1) = .ok (D.next.year, D.next.month, D.next.day)) ∧
    ∀ s t, InYears s → InYears t → ∃ a b, fmtRfc3339 s = .ok a ∧ fmtRfc3339 t = .ok b ∧ (a < b ↔ s < t) := by
  have hok : ∀ z : ℤ, |z| ≤ 10 ^ 12 →
      civilFromDays z = .ok ((dateOf z).year, (dateOf z).month, (dateOf z).day) := by
    intro z hz
    obtain ⟨hlow, hhigh⟩ := abs_le.1 hz
    exact civilFromDays_ok (by omega) (by omega)
  refine ⟨?_, ?_, ?_, ?_, fun s t => fmt_lt⟩
  · intro z hz
    obtain ⟨hlow, hhigh⟩ := abs_le.1 hz
    have hday := isDay_of_next (B := 10 ^ 12) (fun z _ _ => dateOf_next z) hlow hhigh
    rw [dateOf_zero] at hday
    refine ⟨dateOf z, hok z hz, hday, ?_⟩
    have hends := civilParts_ends (E := fun _ => False) (z := z) (by omega) (by omega)
    cases hc : civilParts z with
    | error e =>
      rw [hc] at hends
      exact hends.elim
    | ok p =>
      obtain ⟨hm1, hm12, hd1, -⟩ := month_spec (marchDay_nonneg z) (marchDay_lt z)
      obtain ⟨-, hm, hd⟩ := hends.of_ok hc
      refine ⟨p, rfl, ?_, ?_⟩
      · rw [hm]
        exact (Int.toNat_of_nonneg (by omega)).symm
      · rw [hd]
        exact (Int.toNat_of_nonneg (by omega)).symm
  · exact fun a b ha hb hab => ⟨dateOf a, dateOf b, hok a ha, hok b hb, before_dateOf hab⟩
  · rw [hok 0 (by norm_num), dateOf_zero]
    rfl
  · intro z hz hz'
    refine ⟨dateOf z, hok z hz, ?_⟩
    rw [hok (z + 1) hz', dateOf_next]

end EspectralClient.RelayUtil
