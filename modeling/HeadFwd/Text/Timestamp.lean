import Mathlib.Algebra.BigOperators.Intervals
import Mathlib.Algebra.Order.BigOperators.Group.Finset
import Mathlib.Data.List.Infix
import HeadFwd.Text.Bytes

/-! # Timestamps

Instants of the Gregorian calendar in universal time, spelled with a fraction of
no, three, six or nine digits. Spellings are compared as byte strings. This
order is that of the instants except within one second, where a spelling comes
after those that have further digits.
-/

namespace HeadFwd.Text

theorem append_lt_append_iff {α : Type*} [LT α] [Std.Irrefl (· < · : α → α → Prop)]
    {a b s t : List α} (h : a.length = b.length) : a ++ s < b ++ t ↔ a < b ∨ a = b ∧ s < t := by
  induction a generalizing b with
  | nil =>
    obtain rfl := List.length_eq_zero_iff.mp h.symm
    simp
  | cons x a ih =>
    cases b with
    | nil => cases h
    | cons y b =>
      simp only [List.cons_append, List.cons_lt_cons_iff, ih (Nat.succ.inj h), List.cons.injEq]
      tauto

theorem append_eq_append_iff_of_length {α : Type*} {a b s t : List α} (h : a.length = b.length) :
    a ++ s = b ++ t ↔ a = b ∧ s = t := by
  constructor
  · intro heq
    exact List.append_inj heq h
  · rintro ⟨rfl, rfl⟩
    rfl

def digitByte (d : ℕ) : UInt8 := UInt8.ofNat (48 + d)

/-- The last `w` decimal digits of a number. -/
def digits : ℕ → ℕ → Bytes
  | 0, _ => []
  | w + 1, n => digits w (n / 10) ++ [digitByte (n % 10)]

theorem length_digits (w n : ℕ) : (digits w n).length = w := by
  induction w generalizing n with
  | zero => rfl
  | succ w ih => simp [digits, ih]

theorem digitByte_lt_iff {d e : ℕ} (hd : d < 10) (he : e < 10) :
    digitByte d < digitByte e ↔ d < e := by
  have h : ∀ d < 10, ∀ e < 10, (digitByte d < digitByte e ↔ d < e) := by decide
  exact h d hd e he

theorem digitByte_inj {d e : ℕ} (hd : d < 10) (he : e < 10) :
    digitByte d = digitByte e ↔ d = e := by
  have h := digitByte_lt_iff hd he
  have h' := digitByte_lt_iff he hd
  constructor
  · intro heq
    rw [heq] at h h'
    have hle := h.not.mp (lt_irrefl _)
    have hge := h'.not.mp (lt_irrefl _)
    omega
  · rintro rfl
    rfl

theorem digits_inj {w n m : ℕ} (hn : n < 10 ^ w) (hm : m < 10 ^ w) :
    digits w n = digits w m ↔ n = m := by
  induction w generalizing n m with
  | zero =>
    simp only [pow_zero, Nat.lt_one_iff] at hn hm
    simp [hn, hm]
  | succ w ih =>
    have hn' : n / 10 < 10 ^ w := Nat.div_lt_of_lt_mul (by rwa [pow_succ'] at hn)
    have hm' : m / 10 < 10 ^ w := Nat.div_lt_of_lt_mul (by rwa [pow_succ'] at hm)
    have hd := digitByte_inj (Nat.mod_lt n (by decide : 0 < 10)) (Nat.mod_lt m (by decide))
    rw [digits, digits, append_eq_append_iff_of_length (by simp only [length_digits]), ih hn' hm',
      List.singleton_inj, hd]
    omega

theorem digits_lt_iff {w n m : ℕ} (hn : n < 10 ^ w) (hm : m < 10 ^ w) :
    digits w n < digits w m ↔ n < m := by
  induction w generalizing n m with
  | zero =>
    simp only [pow_zero, Nat.lt_one_iff] at hn hm
    simp [hn, hm]
  | succ w ih =>
    have hn' : n / 10 < 10 ^ w := Nat.div_lt_of_lt_mul (by rwa [pow_succ'] at hn)
    have hm' : m / 10 < 10 ^ w := Nat.div_lt_of_lt_mul (by rwa [pow_succ'] at hm)
    have hd := digitByte_lt_iff (Nat.mod_lt n (by decide : 0 < 10)) (Nat.mod_lt m (by decide))
    rw [digits, digits, append_lt_append_iff (by simp only [length_digits]), ih hn' hm',
      digits_inj hn' hm', List.cons_lt_cons_iff, hd]
    simp only [List.not_lt_nil, and_false, or_false]
    omega

theorem digits_append_lt_iff {w n m : ℕ} (hn : n < 10 ^ w) (hm : m < 10 ^ w) {s t : Bytes} :
    digits w n ++ s < digits w m ++ t ↔ n < m ∨ n = m ∧ s < t := by
  rw [append_lt_append_iff (by simp only [length_digits]), digits_lt_iff hn hm, digits_inj hn hm]

theorem digits_append_inj {w n m : ℕ} (hn : n < 10 ^ w) (hm : m < 10 ^ w) {s t : Bytes} :
    digits w n ++ s = digits w m ++ t ↔ n = m ∧ s = t := by
  rw [append_eq_append_iff_of_length (by simp only [length_digits]), digits_inj hn hm]

theorem append_lt_append_left_iff {a s t : Bytes} : a ++ s < a ++ t ↔ s < t := by
  rw [append_lt_append_iff rfl]
  simp

def isLeapYear (y : ℕ) : Bool := y % 4 = 0 && (y % 100 ≠ 0 || y % 400 = 0)

/-- Months are counted from one. -/
def daysInMonth (y m : ℕ) : ℕ :=
  if m = 2 then if isLeapYear y then 29 else 28
  else if m = 4 ∨ m = 6 ∨ m = 9 ∨ m = 11 then 30
  else 31

def daysInYear (y : ℕ) : ℕ := if isLeapYear y then 366 else 365

def daysBeforeYear (y : ℕ) : ℕ := ∑ k ∈ Finset.range y, daysInYear k

def daysBeforeMonth (y m : ℕ) : ℕ := ∑ k ∈ Finset.Ico 1 m, daysInMonth y k

theorem daysBeforeYear_mono : Monotone daysBeforeYear := fun _ _ h =>
  Finset.sum_le_sum_of_subset (Finset.range_subset_range.mpr h)

theorem daysBeforeMonth_mono (y : ℕ) : Monotone (daysBeforeMonth y) := fun _ _ h =>
  Finset.sum_le_sum_of_subset (Finset.Ico_subset_Ico_right h)

theorem daysBeforeYear_succ (y : ℕ) : daysBeforeYear (y + 1) = daysBeforeYear y + daysInYear y :=
  Finset.sum_range_succ _ _

theorem daysBeforeMonth_succ (y : ℕ) {m : ℕ} (hm : 1 ≤ m) :
    daysBeforeMonth y (m + 1) = daysBeforeMonth y m + daysInMonth y m :=
  Finset.sum_Ico_succ_top hm _

theorem daysBeforeMonth_thirteen (y : ℕ) : daysBeforeMonth y 13 = daysInYear y := by
  cases h : isLeapYear y <;> simp [daysBeforeMonth, daysInYear, Finset.sum_Ico_succ_top,
    daysInMonth, h]

/-- An instant with the fraction of its second as it is spelled. -/
structure Timestamp where
  year : ℕ
  month : ℕ
  day : ℕ
  hour : ℕ
  minute : ℕ
  second : ℕ
  fraction : List (Fin 10)
  year_lt : year < 10000
  month_pos : 1 ≤ month
  month_le : month ≤ 12
  day_pos : 1 ≤ day
  day_le : day ≤ daysInMonth year month
  hour_lt : hour < 24
  minute_lt : minute < 60
  second_lt : second < 60
  length_fraction : fraction.length ∈ [0, 3, 6, 9]

namespace Timestamp

/-- The days before the date. -/
def date (t : Timestamp) : ℕ := daysBeforeYear t.year + daysBeforeMonth t.year t.month + (t.day - 1)

/-- Whole seconds since the beginning of the year 0. -/
def seconds (t : Timestamp) : ℕ := ((t.date * 24 + t.hour) * 60 + t.minute) * 60 + t.second

/-- A fraction in units of `10 ^ -w`. -/
def scaled : ℕ → List (Fin 10) → ℕ
  | w + 1, d :: f => d * 10 ^ w + scaled w f
  | _, _ => 0

/-- Nanoseconds since the beginning of the year 0. -/
def instant (t : Timestamp) : ℕ := t.seconds * 10 ^ 9 + scaled 9 t.fraction

/-- The spelling up to the seconds. -/
def clock (t : Timestamp) : Bytes :=
  digits 4 t.year ++ (str "-" ++ (digits 2 t.month ++ (str "-" ++ (digits 2 t.day ++ (str "T" ++
    (digits 2 t.hour ++ (str ":" ++ (digits 2 t.minute ++ (str ":" ++ digits 2 t.second)))))))))

/-- The spelling after the decimal point. -/
def decimals (f : List (Fin 10)) : Bytes := f.map (fun d => digitByte d.val) ++ str "Z"

def rest (f : List (Fin 10)) : Bytes := if f = [] then str "Z" else str "." ++ decimals f

def text (t : Timestamp) : Bytes := t.clock ++ rest t.fraction

/-- The second timestamp is later, within the same second, and spells further digits. -/
def Continues (t u : Timestamp) : Prop :=
  t.seconds = u.seconds ∧ t.fraction <+: u.fraction ∧ t.instant < u.instant

instance (t u : Timestamp) : Decidable (t.Continues u) :=
  inferInstanceAs (Decidable (_ ∧ _ ∧ _))

variable {t u : Timestamp}

/-- A date lies within its month. -/
theorem date_lt_month (t : Timestamp) :
    t.date < daysBeforeYear t.year + daysBeforeMonth t.year (t.month + 1) := by
  have hpos := t.day_pos
  have hle := t.day_le
  rw [daysBeforeMonth_succ _ t.month_pos, date]
  omega

/-- A date lies within its year. -/
theorem date_lt_year (t : Timestamp) : t.date < daysBeforeYear (t.year + 1) := by
  have hle : t.month + 1 ≤ 13 := Nat.succ_le_succ t.month_le
  have hmonth := daysBeforeMonth_mono t.year hle
  have hdate := t.date_lt_month
  rw [daysBeforeMonth_thirteen] at hmonth
  rw [daysBeforeYear_succ]
  omega

theorem date_lt_of_year_lt (h : t.year < u.year) : t.date < u.date :=
  calc
    t.date < daysBeforeYear (t.year + 1) := t.date_lt_year
    _ ≤ daysBeforeYear u.year := daysBeforeYear_mono h
    _ ≤ u.date := by rw [date, Nat.add_assoc]; exact Nat.le_add_right _ _

theorem date_lt_of_month_lt (hy : t.year = u.year) (h : t.month < u.month) : t.date < u.date :=
  calc
    t.date < daysBeforeYear t.year + daysBeforeMonth t.year (t.month + 1) := t.date_lt_month
    _ ≤ daysBeforeYear u.year + daysBeforeMonth u.year u.month := by
      rw [hy]
      exact Nat.add_le_add_left (daysBeforeMonth_mono _ h) _
    _ ≤ u.date := Nat.le_add_right _ _

theorem year_width (t : Timestamp) : t.year < 10 ^ 4 := t.year_lt

theorem month_width (t : Timestamp) : t.month < 10 ^ 2 := lt_of_le_of_lt t.month_le (by decide)

theorem day_width (t : Timestamp) : t.day < 10 ^ 2 := by
  have hle := t.day_le
  unfold daysInMonth at hle
  split_ifs at hle <;> omega

theorem hour_width (t : Timestamp) : t.hour < 10 ^ 2 := t.hour_lt.trans (by decide)

theorem minute_width (t : Timestamp) : t.minute < 10 ^ 2 := t.minute_lt.trans (by decide)

theorem second_width (t : Timestamp) : t.second < 10 ^ 2 := t.second_lt.trans (by decide)

/-- The spellings are ordered by the first field in which they differ. -/
theorem clock_lt_iff : t.clock < u.clock ↔
    t.year < u.year ∨ t.year = u.year ∧ (t.month < u.month ∨ t.month = u.month ∧
      (t.day < u.day ∨ t.day = u.day ∧ (t.hour < u.hour ∨ t.hour = u.hour ∧
        (t.minute < u.minute ∨ t.minute = u.minute ∧ t.second < u.second)))) := by
  rw [clock, clock, digits_append_lt_iff t.year_width u.year_width, append_lt_append_left_iff,
    digits_append_lt_iff t.month_width u.month_width, append_lt_append_left_iff,
    digits_append_lt_iff t.day_width u.day_width, append_lt_append_left_iff,
    digits_append_lt_iff t.hour_width u.hour_width, append_lt_append_left_iff,
    digits_append_lt_iff t.minute_width u.minute_width, append_lt_append_left_iff,
    digits_lt_iff t.second_width u.second_width]

theorem clock_inj : t.clock = u.clock ↔ t.year = u.year ∧ t.month = u.month ∧ t.day = u.day ∧
    t.hour = u.hour ∧ t.minute = u.minute ∧ t.second = u.second := by
  rw [clock, clock, digits_append_inj t.year_width u.year_width, List.append_cancel_left_eq,
    digits_append_inj t.month_width u.month_width, List.append_cancel_left_eq,
    digits_append_inj t.day_width u.day_width, List.append_cancel_left_eq,
    digits_append_inj t.hour_width u.hour_width, List.append_cancel_left_eq,
    digits_append_inj t.minute_width u.minute_width, List.append_cancel_left_eq,
    digits_inj t.second_width u.second_width]

theorem length_clock (t : Timestamp) : t.clock.length = 19 := by
  simp only [clock, List.length_append, length_digits]
  rfl

/-- A later second of the same day, or a later day. -/
theorem seconds_lt_of (h : t.date < u.date ∨ t.date = u.date ∧ (t.hour < u.hour ∨
    t.hour = u.hour ∧ (t.minute < u.minute ∨ t.minute = u.minute ∧ t.second < u.second))) :
    t.seconds < u.seconds := by
  have hh := t.hour_lt
  have hm := t.minute_lt
  have hs := t.second_lt
  unfold seconds
  omega

theorem seconds_lt_of_clock_lt (h : t.clock < u.clock) : t.seconds < u.seconds := by
  apply seconds_lt_of
  rcases clock_lt_iff.mp h with hy | ⟨hy, hm | ⟨hm, hd | ⟨hd, hrest⟩⟩⟩
  · exact .inl (date_lt_of_year_lt hy)
  · exact .inl (date_lt_of_month_lt hy hm)
  · left
    have hpos := t.day_pos
    rw [date, date, hy, hm]
    omega
  · refine .inr ⟨?_, hrest⟩
    rw [date, date, hy, hm, hd]

theorem seconds_eq_of_clock_eq (h : t.clock = u.clock) : t.seconds = u.seconds := by
  obtain ⟨hy, hmo, hd, hh, hmi, hs⟩ := clock_inj.mp h
  rw [seconds, seconds, date, date, hy, hmo, hd, hh, hmi, hs]

/-- Up to the seconds the order of the spellings is that of the instants. -/
theorem clock_cases (t u : Timestamp) :
    t.clock < u.clock ∧ t.seconds < u.seconds ∨ t.clock = u.clock ∧ t.seconds = u.seconds ∨
      u.clock < t.clock ∧ u.seconds < t.seconds := by
  rcases lt_trichotomy t.clock u.clock with h | h | h
  · exact .inl ⟨h, seconds_lt_of_clock_lt h⟩
  · exact .inr (.inl ⟨h, seconds_eq_of_clock_eq h⟩)
  · exact .inr (.inr ⟨h, seconds_lt_of_clock_lt h⟩)

theorem text_lt_iff : t.text < u.text ↔
    t.clock < u.clock ∨ t.clock = u.clock ∧ rest t.fraction < rest u.fraction :=
  append_lt_append_iff (t.length_clock.trans u.length_clock.symm)

@[simp] theorem scaled_nil (w : ℕ) : scaled w [] = 0 := by
  cases w <;> rfl

theorem scaled_lt (w : ℕ) (f : List (Fin 10)) : scaled w f < 10 ^ w := by
  induction w generalizing f with
  | zero => exact Nat.one_pos
  | succ w ih =>
    cases f with
    | nil => exact Nat.pow_pos (by decide)
    | cons d f =>
      calc
        d * 10 ^ w + scaled w f < d * 10 ^ w + 10 ^ w := Nat.add_lt_add_left (ih f) _
        _ = (d + 1) * 10 ^ w := (Nat.succ_mul _ _).symm
        _ ≤ 10 * 10 ^ w := Nat.mul_le_mul_right _ d.isLt
        _ = 10 ^ (w + 1) := (pow_succ' 10 w).symm

theorem scaled_le_of_instant_le (hs : t.seconds = u.seconds) (h : t.instant ≤ u.instant) :
    scaled 9 t.fraction ≤ scaled 9 u.fraction := by
  rw [instant, instant, hs] at h
  exact Nat.le_of_add_le_add_left h

theorem decimals_cons (d : Fin 10) (f : List (Fin 10)) :
    decimals (d :: f) = digitByte d :: decimals f := rfl

/-- A spelling that is not smaller belongs to a fraction that is not smaller, or the other one goes
on with further digits. -/
theorem scaled_le_or_of_decimals {w : ℕ} {f g : List (Fin 10)} (hf : f.length ≤ w)
    (hg : g.length ≤ w) (h : ¬ decimals f < decimals g) :
    scaled w g ≤ scaled w f ∨ f <+: g ∧ scaled w f < scaled w g := by
  induction f generalizing w g with
  | nil => exact (le_or_gt _ _).imp_right fun hlt => ⟨List.nil_prefix, hlt⟩
  | cons d f ih =>
    cases g with
    | nil => simp
    | cons e g =>
      cases w with
      | zero => cases hf
      | succ w =>
        rw [decimals_cons, decimals_cons, List.cons_lt_cons_iff, digitByte_lt_iff d.isLt e.isLt,
          digitByte_inj d.isLt e.isLt, not_or, not_and] at h
        simp only [scaled, List.cons_prefix_cons]
        rcases (not_lt.mp h.1).eq_or_lt with heq | hlt
        · have hde : d = e := Fin.ext heq.symm
          subst hde
          have hrest := ih (Nat.le_of_succ_le_succ hf) (Nat.le_of_succ_le_succ hg) (h.2 rfl)
          simpa using hrest
        · left
          calc
            e * 10 ^ w + scaled w g ≤ e * 10 ^ w + 10 ^ w :=
              Nat.add_le_add_left (scaled_lt w g).le _
            _ = (e + 1) * 10 ^ w := (Nat.succ_mul _ _).symm
            _ ≤ d * 10 ^ w := Nat.mul_le_mul_right _ hlt
            _ ≤ d * 10 ^ w + scaled w f := Nat.le_add_right _ _

/-- Further digits make a spelling smaller, since every digit comes before the final `Z`. -/
theorem decimals_append_lt {f r : List (Fin 10)} (hr : r ≠ []) :
    decimals (f ++ r) < decimals f := by
  obtain ⟨d, r, rfl⟩ := List.exists_cons_of_ne_nil hr
  have hZ : ∀ d : Fin 10, digitByte d < chr 'Z' := by decide
  rw [decimals, decimals, List.map_append, List.append_assoc, append_lt_append_left_iff]
  exact List.cons_lt_cons_iff.mpr (.inl (hZ d))

theorem scaled_le_or_of_rest {w : ℕ} {f g : List (Fin 10)} (hf : f.length ≤ w)
    (hg : g.length ≤ w) (h : ¬ rest f < rest g) :
    scaled w g ≤ scaled w f ∨ f <+: g ∧ scaled w f < scaled w g := by
  by_cases hnil : f = []
  · subst hnil
    exact (le_or_gt _ _).imp_right fun hlt => ⟨List.nil_prefix, hlt⟩
  · by_cases hnil' : g = []
    · simp [hnil']
    · rw [rest, rest, if_neg hnil, if_neg hnil', append_lt_append_left_iff] at h
      exact scaled_le_or_of_decimals hf hg h

theorem rest_append_lt {f r : List (Fin 10)} (hr : r ≠ []) : rest (f ++ r) < rest f := by
  have hne : f ++ r ≠ [] := List.append_ne_nil_of_right_ne_nil f hr
  rw [rest, if_neg hne, rest]
  split_ifs with hf
  · exact List.cons_lt_cons_iff.mpr (.inl (by decide))
  · exact append_lt_append_left_iff.mpr (decimals_append_lt hr)

theorem length_fraction_le (t : Timestamp) : t.fraction.length ≤ 9 := by
  have h := t.length_fraction
  simp only [List.mem_cons, List.not_mem_nil, or_false] at h
  omega

/-- A timestamp whose spelling is not smaller is not earlier, unless the other one continues it. -/
theorem instant_le_or_continues (h : ¬ t.text < u.text) :
    u.instant ≤ t.instant ∨ t.Continues u := by
  have ht := scaled_lt 9 t.fraction
  have hu := scaled_lt 9 u.fraction
  rcases clock_cases t u with ⟨hc, -⟩ | ⟨hc, hs⟩ | ⟨-, hs⟩
  · exact absurd (text_lt_iff.mpr (.inl hc)) h
  · have hrest : ¬ rest t.fraction < rest u.fraction := fun hr => h (text_lt_iff.mpr (.inr ⟨hc, hr⟩))
    rcases scaled_le_or_of_rest t.length_fraction_le u.length_fraction_le hrest with hle | ⟨hp, hlt⟩
    · left
      rw [instant, instant, hs]
      omega
    · refine .inr ⟨hs, hp, ?_⟩
      rw [instant, instant, hs]
      omega
  · left
    unfold instant
    omega

/-- A timestamp that continues another has the smaller spelling, though it is later. -/
theorem Continues.text_lt (h : t.Continues u) : u.text < t.text := by
  obtain ⟨hs, ⟨r, hr⟩, hlt⟩ := h
  have hc : u.clock = t.clock := by
    rcases clock_cases t u with ⟨-, hlt⟩ | ⟨hc, -⟩ | ⟨-, hlt⟩
    · omega
    · exact hc.symm
    · omega
  have hne : r ≠ [] := by
    rintro rfl
    rw [instant, instant, hs, ← hr, List.append_nil] at hlt
    exact lt_irrefl _ hlt
  refine text_lt_iff.mpr (.inr ⟨hc, ?_⟩)
  rw [← hr]
  exact rest_append_lt hne

end Timestamp

end HeadFwd.Text
