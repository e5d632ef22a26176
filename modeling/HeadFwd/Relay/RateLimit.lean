import HeadFwd.Rate.Bucket
import HeadFwd.Relay.Registry
import Mathlib.Algebra.Order.Ring.Rat
import Mathlib.Tactic.NormNum

/-! # The rate limiter of the registration endpoints

`allow` reads the clock before it takes the lock, so that the readings reach a
bucket in any order, and `reap` deletes buckets that were idle for long. Token
counts are exact. What `allow` does to a bucket is asking it for a token.
-/

namespace HeadFwd.Relay

open Text Transition Rate

/-- A difference of two instants, in seconds. -/
def seconds (d : ℤ) : ℚ := d / 10 ^ 9

structure TokenBucket where
  tokens : ℚ
  lastSeen : ℕ

structure RateLimiter where
  buckets : Table Bytes TokenBucket
  rate : ℚ
  burst : ℚ

def newRateLimiter (perMinute burst : ℕ) : RateLimiter where
  buckets := .empty
  rate := perMinute / 60
  burst := burst

namespace RateLimiter

/-- `allow` once it has the lock; `now` was read before. -/
def allow (rl : RateLimiter) (key : Bytes) (now : ℕ) : RateLimiter × Bool :=
  match rl.buckets key with
  | none => ({ rl with buckets := rl.buckets.set key ⟨rl.burst - 1, now⟩ }, true)
  | some b =>
    let tokens := b.tokens + seconds (now - b.lastSeen) * rl.rate
    let tokens := if rl.burst < tokens then rl.burst else tokens
    if tokens < 1 then ({ rl with buckets := rl.buckets.set key ⟨tokens, now⟩ }, false)
    else ({ rl with buckets := rl.buckets.set key ⟨tokens - 1, now⟩ }, true)

/-- One pass of `reap` once it has the lock. -/
def reap (rl : RateLimiter) (now : ℕ) : RateLimiter :=
  { rl with buckets := fun k => (rl.buckets k).filter fun b => ¬ b.lastSeen + 10 * minute < now }

end RateLimiter

/-- An answered call. -/
structure Allowance where
  key : Bytes
  now : ℕ
  ok : Bool

/-- The limiter and the calls it has answered, newest first. -/
structure LimiterState where
  limiter : RateLimiter
  log : List Allowance

inductive LimiterAction where
  | allow (key : Bytes) (now : ℕ)
  | reap (now : ℕ)

/-- A call that is not a reap pass. -/
def LimiterAction.isCall : LimiterAction → Bool
  | .allow _ _ => true
  | .reap _ => false

/-- How long a call may wait for the lock. -/
def maxWait : ℕ := 4 * minute

/-- The limiter of the registration endpoints. -/
def LimiterState.initial : LimiterState where
  limiter := newRateLimiter 30 10
  log := []

/-- One pass through the lock, taken at the instant `lock`. -/
def LimiterState.step (lock : ℕ) (s : LimiterState) : LimiterAction → Option LimiterState
  | .allow key now =>
    if now ≤ lock ∧ lock < now + maxWait then
      let (limiter, ok) := s.limiter.allow key now
      some { limiter, log := ⟨key, now, ok⟩ :: s.log }
    else none
  | .reap now => if now ≤ lock then some { s with limiter := s.limiter.reap now } else none

/-- The limiter under any order of calls and reap passes. -/
def regLimiter : Machine (ℕ × LimiterState) (ℕ × LimiterAction) :=
  .timed (· = LimiterState.initial) LimiterState.step

/-- Thirty a minute with a burst of ten. -/
def regLimit : Limit ℚ where
  rate := 1 / 2
  burst := 10
  rate_nonneg := by norm_num
  one_le_burst := by norm_num

def TokenBucket.view (b : TokenBucket) : Bucket ℚ := ⟨b.tokens, seconds b.lastSeen⟩

namespace RateLimiter

variable {l : Limit ℚ} {rl : RateLimiter}

/-- The limiter works at the given rate and burst. -/
structure Runs (l : Limit ℚ) (rl : RateLimiter) : Prop where
  rate : rl.rate = l.rate
  burst : rl.burst = l.burst

theorem runs_newRateLimiter : (newRateLimiter 30 10).Runs regLimit := by
  constructor
  · norm_num [newRateLimiter, regLimit]
  · norm_num [newRateLimiter, regLimit]

theorem seconds_sub (a b : ℕ) : seconds (a - b) = seconds a - seconds b := by
  simp only [seconds]
  push_cast
  ring

/-- `allow` asks the bucket of its key for a token. -/
theorem allow_eq (h : rl.Runs l) (key : Bytes) (now : ℕ) :
    rl.allow key now =
      let r := l.take ((rl.buckets key).map TokenBucket.view) (seconds now)
      ({ rl with buckets := rl.buckets.set key ⟨r.1.tokens, now⟩ }, r.2) := by
  unfold allow
  cases hb : rl.buckets key with
  | none => simp [Limit.take, h.burst]
  | some b =>
    have ht : (if rl.burst < b.tokens + seconds (now - b.lastSeen) * rl.rate then rl.burst
        else b.tokens + seconds (now - b.lastSeen) * rl.rate) = l.refill b.view (seconds now) := by
      simp only [Limit.refill, TokenBucket.view, h.rate, h.burst, seconds_sub]
      split_ifs with hlt
      · exact (min_eq_right hlt.le).symm
      · exact (min_eq_left (not_lt.mp hlt)).symm
    simp only [ht, Option.map_some, Limit.take]
    split_ifs
    · rfl
    · rfl

theorem Runs.allow (h : rl.Runs l) (key : Bytes) (now : ℕ) : (rl.allow key now).1.Runs l := by
  rw [allow_eq h]
  exact ⟨h.rate, h.burst⟩

theorem Runs.reap (h : rl.Runs l) (now : ℕ) : (rl.reap now).Runs l := ⟨h.rate, h.burst⟩

end RateLimiter

theorem seconds_mono {a b : ℕ} (h : a ≤ b) : seconds a ≤ seconds b := by
  simp only [seconds]
  gcongr

theorem seconds_lt {a b : ℕ} (h : a < b) : seconds a < seconds b := by
  simp only [seconds]
  gcongr

theorem seconds_add_minutes (a n : ℕ) : seconds ((a + n * minute : ℕ) : ℤ) = seconds a + n * 60 := by
  simp only [seconds, minute]
  push_cast
  ring

/-- A successful call for the key, with its reading from `a` to `c`. -/
def Allowance.inWindow (key : Bytes) (a c : ℚ) (x : Allowance) : Bool :=
  x.key = key && x.ok && a ≤ seconds x.now && seconds x.now ≤ c

namespace LimiterState

/-- How many calls for the key were allowed with readings from `a` to `c`. -/
def allowed (s : LimiterState) (key : Bytes) (a c : ℚ) : ℕ := s.log.countP (·.inWindow key a c)

/-- The limiter keeps to its limit in every window. -/
structure Bounded (s : LimiterState) : Prop where
  runs : s.limiter.Runs regLimit
  within : ∀ key a c, a ≤ c →
    regLimit.Within a c (s.allowed key a c) ((s.limiter.buckets key).map TokenBucket.view)

/-- What the bucket of the key answers to a call with the given reading. -/
def ask (s : LimiterState) (key : Bytes) (now : ℕ) : Bucket ℚ × Bool :=
  regLimit.take ((s.limiter.buckets key).map TokenBucket.view) (seconds now)

variable {lock : ℕ} {s s' : LimiterState} {key : Bytes} {now : ℕ}

theorem view_ask : TokenBucket.view ⟨(s.ask key now).1.tokens, now⟩ = (s.ask key now).1 := by
  have h : (s.ask key now).1.lastSeen = seconds now := Limit.take_lastSeen _
  generalize s.ask key now = r at h ⊢
  obtain ⟨⟨tokens, lastSeen⟩, ok⟩ := r
  cases h
  rfl

theorem step_allow (h : s.limiter.Runs regLimit) (hs : s.step lock (.allow key now) = some s') :
    (now ≤ lock ∧ lock < now + maxWait) ∧ s'.limiter.Runs regLimit ∧
      s'.limiter.buckets = s.limiter.buckets.set key ⟨(s.ask key now).1.tokens, now⟩ ∧
      s'.log = ⟨key, now, (s.ask key now).2⟩ :: s.log := by
  simp only [step] at hs
  split_ifs at hs with hg
  cases hs
  refine ⟨hg, h.allow key now, ?_, ?_⟩
  · simp only [RateLimiter.allow_eq h, ask]
  · simp only [RateLimiter.allow_eq h, ask]

theorem Bounded.allow (h : s.Bounded) (hs : s.step lock (.allow key now) = some s') :
    s'.Bounded := by
  obtain ⟨-, hruns, hbuckets, hlog⟩ := step_allow h.runs hs
  refine ⟨hruns, fun k a c hac => ?_⟩
  have hk := h.within k a c hac
  rw [hbuckets, allowed, hlog, List.countP_cons]
  by_cases hkey : k = key
  · subst hkey
    rw [Table.set_self, Option.map_some, view_ask]
    split_ifs with hin
    · simp only [Allowance.inWindow, Bool.and_eq_true, decide_eq_true_eq] at hin
      exact hk.take_inside hin.1.1.2 hin.1.2 hin.2
    · exact hk.take_outside
  · rw [Table.set_of_ne hkey, if_neg (by simp [Allowance.inWindow, Ne.symm hkey])]
    exact hk

/-- The run with reap passes against the run without: a bucket that is missing is full. -/
structure Reaped (clock : ℕ) (s t : LimiterState) : Prop where
  runs : s.limiter.Runs regLimit
  runs' : t.limiter.Runs regLimit
  log : s.log = t.log
  funded : ∀ key b, t.limiter.buckets key = some b → regLimit.Funded 240 (seconds clock) b.view
  same : ∀ key, s.limiter.buckets key = t.limiter.buckets key ∨ s.limiter.buckets key = none ∧
    ∃ b, t.limiter.buckets key = some b ∧ regLimit.Ripe b.view (seconds clock - 240)

variable {clock : ℕ} {t t' : LimiterState}

/-- A call is answered alike in both runs. -/
theorem Reaped.ask_eq (h : Reaped clock s t) (hle : clock ≤ lock)
    (hg : now ≤ lock ∧ lock < now + maxWait) : s.ask key now = t.ask key now := by
  rcases h.same key with hk | ⟨hs, b, ht, hripe⟩
  · rw [ask, ask, hk]
  · rw [ask, ask, hs, ht, Option.map_some, Option.map_none]
    have hlt := seconds_lt hg.2
    rw [maxWait, seconds_add_minutes] at hlt
    have hclock := seconds_mono hle
    exact (hripe.take (by push_cast at hlt; linarith)).symm

theorem Reaped.allow (h : Reaped clock s t) (hle : clock ≤ lock)
    (hs : s.step lock (.allow key now) = some s') :
    ∃ t', t.step lock (.allow key now) = some t' ∧ Reaped lock s' t' := by
  obtain ⟨hg, hruns, hbuckets, hlog⟩ := step_allow h.runs hs
  obtain ⟨t', ht⟩ : ∃ t', t.step lock (.allow key now) = some t' := by
    simp only [step, if_pos hg]
    exact ⟨_, rfl⟩
  obtain ⟨-, hruns', hbuckets', hlog'⟩ := step_allow h.runs' ht
  have hask : s.ask key now = t.ask key now := h.ask_eq hle hg
  have hclock := seconds_mono hle
  refine ⟨t', ht, hruns, hruns', ?_, fun k b hb => ?_, fun k => ?_⟩
  · rw [hlog, hlog', h.log, hask]
  · rw [hbuckets'] at hb
    rcases Table.set_eq_some_iff.mp hb with ⟨rfl, rfl⟩ | ⟨-, hb⟩
    · rw [view_ask]
      refine Limit.Funded.take (fun b hb => ?_) hclock (seconds_mono hg.1) ?_
      · obtain ⟨b', hb', rfl⟩ := Option.map_eq_some_iff.mp hb
        exact h.funded k b' hb'
      · have hlt := seconds_lt hg.2
        rw [maxWait, seconds_add_minutes] at hlt
        push_cast at hlt
        linarith
    · exact (h.funded k b hb).later hclock
  · rw [hbuckets, hbuckets', hask]
    by_cases hk : k = key
    · subst hk
      exact .inl (by rw [Table.set_self, Table.set_self])
    · rw [Table.set_of_ne hk, Table.set_of_ne hk]
      exact (h.same k).imp_right fun ⟨hn, b, hb, hripe⟩ => ⟨hn, b, hb, hripe.later (by linarith)⟩

theorem Reaped.reap (h : Reaped clock s t) (hle : clock ≤ lock)
    (hs : s.step lock (.reap now) = some s') : Reaped lock s' t := by
  simp only [step] at hs
  split_ifs at hs with hg
  cases hs
  have hclock := seconds_mono hle
  refine ⟨h.runs.reap now, h.runs', h.log, fun k b hb => (h.funded k b hb).later hclock, fun k => ?_⟩
  simp only [RateLimiter.reap]
  rcases h.same k with hk | ⟨hn, b, hb, hripe⟩
  · rw [hk]
    cases hb : t.limiter.buckets k with
    | none => exact .inl rfl
    | some b =>
      by_cases hold : b.lastSeen + 10 * minute < now
      · refine .inr ⟨by simp [hold], b, rfl, ?_⟩
        have hlast := seconds_mono (hold.le.trans hg)
        rw [seconds_add_minutes] at hlast
        have hburst : regLimit.burst ≤ regLimit.rate * (10 * 60 - 2 * 240) := by norm_num [regLimit]
        exact (h.funded k b hb).ripe hburst (by exact_mod_cast hlast)
      · exact .inl (by simpa using hold)
  · exact .inr ⟨by simp [hn], b, hb, hripe.later (by linarith)⟩

theorem Reaped.initial (clock : ℕ) : Reaped clock .initial .initial where
  runs := RateLimiter.runs_newRateLimiter
  runs' := RateLimiter.runs_newRateLimiter
  log := rfl
  funded := nofun
  same _ := .inl rfl

theorem Bounded.initial : LimiterState.initial.Bounded where
  runs := RateLimiter.runs_newRateLimiter
  within _ _ _ hac := Limit.Within.zero hac

end LimiterState

open LimiterState

/-- The calls of a run without its reap passes. -/
def calls (as : List (ℕ × LimiterAction)) : List (ℕ × LimiterAction) := as.filter (·.2.isCall)

/-- A run goes through without its reap passes, up to full buckets that it has deleted. -/
theorem exec_calls {as : List (ℕ × LimiterAction)} {n m : ℕ} {s t : LimiterState}
    {s' : ℕ × LimiterState} (h : Reaped n s t) (hm : m ≤ n)
    (hs : regLimiter.exec (n, s) as = some s') :
    ∃ t', regLimiter.exec (m, t) (calls as) = some t' ∧ Reaped s'.1 s'.2 t'.2 := by
  induction as generalizing n m s t with
  | nil =>
    cases hs
    exact ⟨(m, t), rfl, h⟩
  | cons a as ih =>
    obtain ⟨⟨n', u⟩, hu, hs⟩ := Option.bind_eq_some_iff.mp hs
    obtain ⟨hle, rfl, hu⟩ := Machine.timed_step.mp hu
    obtain ⟨lock, a⟩ := a
    cases a with
    | allow key now =>
      obtain ⟨v, hv, huv⟩ := h.allow hle hu
      obtain ⟨t', ht', hst⟩ := ih huv le_rfl hs
      refine ⟨t', ?_, hst⟩
      have hstep : regLimiter.step (m, t) (lock, .allow key now) = some (lock, v) :=
        Machine.timed_step.mpr ⟨hm.trans hle, rfl, hv⟩
      rw [calls, List.filter_cons_of_pos rfl, Machine.exec_cons, hstep]
      exact ht'
    | reap now =>
      obtain ⟨t', ht', hst⟩ := ih (h.reap hle hu) (hm.trans hle) hs
      exact ⟨t', ht', hst⟩

theorem bounded_of_calls {as : List (ℕ × LimiterAction)} {n : ℕ} {s : ℕ × LimiterState}
    (h : regLimiter.exec (n, .initial) (calls as) = some s) : s.2.Bounded := by
  refine Machine.exec_invariant (Q := fun s => s.2.Bounded) ?_ .initial h
  rintro s ⟨lock, a⟩ s' ha hs hb
  obtain ⟨-, -, hs⟩ := Machine.timed_step.mp hs
  cases a with
  | allow key now => exact hb.allow hs
  | reap now => cases (List.mem_filter.mp ha).2

/-- Whatever the order in which calls and reap passes take the lock, the calls for one key that are
allowed with readings in a window of `T` seconds are at most `10 + T / 2`, and without the reap
passes every call is answered alike. -/
theorem allowed_le {start : ℕ} {as : List (ℕ × LimiterAction)} {s : ℕ × LimiterState}
    (h : regLimiter.exec (start, .initial) as = some s) :
    (∀ key (a T : ℚ), 0 ≤ T → (s.2.allowed key a (a + T) : ℚ) ≤ 10 + T / 2) ∧
      ∃ t, regLimiter.exec (start, .initial) (calls as) = some t ∧ t.2.log = s.2.log := by
  obtain ⟨t, ht, hst⟩ := exec_calls (.initial start) le_rfl h
  refine ⟨fun key a T hT => ?_, t, ht, hst.log.symm⟩
  have hw := ((bounded_of_calls ht).within key a (a + T) (by linarith)).bound
  rw [allowed, hst.log, ← allowed]
  simp only [regLimit] at hw
  linarith

/-- Eleven calls at one instant and one two seconds later, with a reap pass after ten minutes and a
call with an old reading behind it. -/
def burstRun : List (ℕ × LimiterAction) :=
  List.replicate 11 (0, .allow [1] 0) ++
    [(2 * 10 ^ 9, .allow [1] (2 * 10 ^ 9)), (20 * minute, .reap (20 * minute)),
      (20 * minute, .allow [1] (17 * minute))]

theorem allowed_le_burstRun :
    ∃ s, regLimiter.exec (0, .initial) burstRun = some s ∧
      s.2.log.map Allowance.ok = [true, true, false] ++ List.replicate 10 true ∧
      (∀ key (a T : ℚ), 0 ≤ T → (s.2.allowed key a (a + T) : ℚ) ≤ 10 + T / 2) ∧
      ∃ t, regLimiter.exec (0, .initial) (calls burstRun) = some t ∧ t.2.log = s.2.log := by
  have h : (regLimiter.exec (0, .initial) burstRun).map (fun s => s.2.log.map Allowance.ok) =
      some ([true, true, false] ++ List.replicate 10 true) := by decide +kernel
  obtain ⟨s, hs, hlog⟩ := Option.map_eq_some_iff.mp h
  exact ⟨s, hs, hlog, allowed_le hs⟩

end HeadFwd.Relay
