import Mathlib.Algebra.Order.Field.Basic
import Mathlib.Tactic.Linarith
import Mathlib.Tactic.Ring

/-! # Token buckets

A bucket is refilled at a rate up to a burst and gives out one token at a time.
The instants at which it is asked may go back, and then it loses what it was
given too early. Tokens less rate times instant never grow, fall by one with
every token given out, and bound the tokens given out in any window. A bucket
that was left alone for long enough is as good as a new one.
-/

namespace HeadFwd.Rate

structure Bucket (K : Type*) where
  tokens : K
  lastSeen : K

structure Limit (K : Type*) [Field K] [LinearOrder K] where
  rate : K
  burst : K
  rate_nonneg : 0 ≤ rate
  one_le_burst : 1 ≤ burst

variable {K : Type*} [Field K] [LinearOrder K]

namespace Limit

variable (l : Limit K)

/-- The tokens of a bucket at an instant, before any is given out. -/
def refill (b : Bucket K) (now : K) : K := min (b.tokens + (now - b.lastSeen) * l.rate) l.burst

/-- Ask for a token. A bucket that does not exist is created full. -/
def take (b : Option (Bucket K)) (now : K) : Bucket K × Bool :=
  match b with
  | none => (⟨l.burst - 1, now⟩, true)
  | some b =>
    if l.refill b now < 1 then (⟨l.refill b now, now⟩, false)
    else (⟨l.refill b now - 1, now⟩, true)

/-- What the bucket holds, with the refill since the origin of time taken back. -/
def potential (b : Bucket K) : K := b.tokens - l.rate * b.lastSeen

/-- Asked at any instant after `t`, the bucket is full. -/
def Ripe (b : Bucket K) (t : K) : Prop :=
  ∀ now, t < now → l.burst ≤ b.tokens + (now - b.lastSeen) * l.rate

/-- The tokens given out were there, with instants that lag by at most `delay`. -/
structure Funded (delay clock : K) (b : Bucket K) : Prop where
  clock : -(l.rate * clock) ≤ l.potential b
  lastSeen : -(l.rate * (b.lastSeen + delay)) ≤ l.potential b

/-- `n` tokens given out from `a` to `c`. -/
structure Within (a c : K) (n : ℕ) (b : Option (Bucket K)) : Prop where
  bound : (n : K) ≤ l.burst + l.rate * (c - a)
  spent : n = 0 ∨ ∃ b', b = some b' ∧ n + l.potential b' ≤ l.burst - l.rate * a

variable {l} {b : Bucket K} {now : K}

theorem take_lastSeen (ob : Option (Bucket K)) : (l.take ob now).1.lastSeen = now := by
  cases ob with
  | none => rfl
  | some b =>
    simp only [take]
    split_ifs
    · rfl
    · rfl

/-- A bucket that is full again is as good as a new one. -/
theorem Ripe.take {t : K} (h : l.Ripe b t) (ht : t < now) : l.take (some b) now = l.take none now := by
  have hfull : l.refill b now = l.burst := min_eq_right (h now ht)
  simp only [Limit.take, hfull, if_neg (not_lt.mpr l.one_le_burst)]

theorem Ripe.later {t t' : K} (h : l.Ripe b t) (ht : t ≤ t') : l.Ripe b t' :=
  fun now hn => h now (ht.trans_lt hn)

/-- Below the burst nothing is cut off. -/
theorem refill_potential_eq (h : l.refill b now < 1) :
    l.refill b now - l.rate * now = l.potential b := by
  have hlt : b.tokens + (now - b.lastSeen) * l.rate < l.burst := by
    by_contra hge
    rw [refill, min_eq_right (not_lt.mp hge)] at h
    exact absurd l.one_le_burst (not_le.mpr h)
  rw [refill, min_eq_left hlt.le, potential]
  ring

/-- No token given out. -/
theorem take_false {ob : Option (Bucket K)} (h : (l.take ob now).2 = false) :
    ∃ b, ob = some b ∧ l.potential (l.take ob now).1 = l.potential b := by
  cases ob with
  | none => cases h
  | some b =>
    refine ⟨b, rfl, ?_⟩
    unfold take at h ⊢
    dsimp only at h ⊢
    split_ifs at h ⊢ with ht
    exact refill_potential_eq ht

variable [IsStrictOrderedRing K]

theorem refill_potential_le : l.refill b now - l.rate * now ≤ l.potential b := by
  have h : l.refill b now ≤ b.tokens + (now - b.lastSeen) * l.rate := min_le_left _ _
  unfold potential
  linarith

/-- A token given out. -/
theorem take_true {ob : Option (Bucket K)} (h : (l.take ob now).2 = true) :
    -(l.rate * now) ≤ l.potential (l.take ob now).1 ∧
      l.potential (l.take ob now).1 + 1 ≤ l.burst - l.rate * now ∧
      ∀ b, ob = some b → l.potential (l.take ob now).1 + 1 ≤ l.potential b := by
  cases ob with
  | none =>
    have hb := l.one_le_burst
    simp only [take, potential]
    refine ⟨by linarith, by linarith, nofun⟩
  | some b =>
    have hle : l.refill b now ≤ l.burst := min_le_right _ _
    have hp : l.refill b now - l.rate * now ≤ l.potential b := refill_potential_le
    unfold take at h ⊢
    dsimp only at h ⊢
    split_ifs at h ⊢ with ht
    rw [not_lt] at ht
    refine ⟨?_, ?_, ?_⟩
    · simp only [potential]
      linarith
    · simp only [potential]
      linarith
    · intro b' hb'
      cases hb'
      rw [potential]
      linarith

theorem Funded.take {delay clock clock' : K} {ob : Option (Bucket K)}
    (h : ∀ b, ob = some b → l.Funded delay clock b) (hc : clock ≤ clock') (hn : now ≤ clock')
    (hd : clock' ≤ now + delay) : l.Funded delay clock' (l.take ob now).1 := by
  have hclock : -(l.rate * clock') ≤ l.potential (l.take ob now).1 := by
    cases hr : (l.take ob now).2 with
    | true =>
      have hle := mul_le_mul_of_nonneg_left hn l.rate_nonneg
      linarith [(take_true hr).1]
    | false =>
      obtain ⟨b, hb, hp⟩ := take_false hr
      have hle := mul_le_mul_of_nonneg_left hc l.rate_nonneg
      linarith [(h b hb).clock]
  refine ⟨hclock, ?_⟩
  rw [take_lastSeen]
  have hle := mul_le_mul_of_nonneg_left hd l.rate_nonneg
  linarith

theorem Funded.later {delay clock clock' : K} (h : l.Funded delay clock b) (hc : clock ≤ clock') :
    l.Funded delay clock' b := by
  refine ⟨?_, h.lastSeen⟩
  have hle := mul_le_mul_of_nonneg_left hc l.rate_nonneg
  linarith [h.clock]

/-- A bucket that was not asked for the time `cutoff` is full for every caller to come. -/
theorem Funded.ripe {delay cutoff clock clock' : K} (h : l.Funded delay clock b)
    (hb : l.burst ≤ l.rate * (cutoff - 2 * delay)) (hc : b.lastSeen + cutoff ≤ clock') :
    l.Ripe b (clock' - delay) := by
  intro now hn
  have hle : cutoff - 2 * delay ≤ now - b.lastSeen - delay := by linarith
  have hmul := mul_le_mul_of_nonneg_left hle l.rate_nonneg
  have hp := h.lastSeen
  unfold potential at hp
  linarith

theorem Within.zero {a c : K} (h : a ≤ c) : l.Within a c 0 none where
  bound := by
    have hb := l.one_le_burst
    have hmul := mul_nonneg l.rate_nonneg (sub_nonneg.mpr h)
    rw [Nat.cast_zero]
    linarith
  spent := .inl rfl

/-- A token given out inside the window. -/
theorem Within.take_inside {a c : K} {n : ℕ} {ob : Option (Bucket K)} (h : l.Within a c n ob)
    (hr : (l.take ob now).2 = true) (ha : a ≤ now) (hc : now ≤ c) :
    l.Within a c (n + 1) (some (l.take ob now).1) := by
  obtain ⟨hlow, hhigh, hfall⟩ := take_true hr
  have hspent : ((n + 1 : ℕ) : K) + l.potential (l.take ob now).1 ≤ l.burst - l.rate * a := by
    push_cast
    rcases h.spent with rfl | ⟨b, hb, hle⟩
    · have hmul := mul_le_mul_of_nonneg_left ha l.rate_nonneg
      rw [Nat.cast_zero]
      linarith
    · linarith [hfall b hb]
  refine ⟨?_, .inr ⟨_, rfl, hspent⟩⟩
  have hmul := mul_le_mul_of_nonneg_left hc l.rate_nonneg
  linarith

/-- A token given out outside the window, or none. -/
theorem Within.take_outside {a c : K} {n : ℕ} {ob : Option (Bucket K)} (h : l.Within a c n ob) :
    l.Within a c n (some (l.take ob now).1) := by
  refine ⟨h.bound, ?_⟩
  rcases h.spent with rfl | ⟨b, hb, hle⟩
  · exact .inl rfl
  · refine .inr ⟨_, rfl, le_trans ?_ hle⟩
    cases hr : (l.take ob now).2 with
    | true => linarith [(take_true hr).2.2 b hb]
    | false =>
      obtain ⟨b', hb', hp⟩ := take_false hr
      cases hb.symm.trans hb'
      linarith

end Limit

end HeadFwd.Rate
