import HeadFwd.Relay.SingleUse
import Mathlib.Data.List.Perm.Subperm

/-! # Attempts on a challenge

The attempts counted in the stored challenge are the verify requests admitted
against its nonce. The counter is copied out of the map and back, and the map is
overwritten by init requests; a nonce nevertheless stays in one place, so the
count carries on where it was left and ends at the bound.
-/

namespace HeadFwd.Relay

open Text Net Crypto Transition

variable {P : Primitives} {env : Environment}

/-- The verify request admitted against the challenge with the nonce. -/
def RegistryEvent.admittedOn (nonce : Bytes) : RegistryEvent → Option ℕ
  | .admitted i _ c _ => if c.nonce = nonce then some i else none
  | _ => none

/-- The request compares the proof it received with the one for the challenge with the nonce. -/
def VerifyThread.comparesOn (nonce : Bytes) : VerifyThread → Bool
  | .admitted _ _ c => c.nonce = nonce
  | _ => false

/-- The request is past its comparison. -/
def VerifyThread.compared : VerifyThread → Bool
  | .admitted _ _ _ => false
  | _ => true

namespace Registry

/-- The verify requests admitted against the challenge with the nonce. -/
def admissions (s : Registry) (nonce : Bytes) : List ℕ := s.log.filterMap (·.admittedOn nonce)

/-- The verify request that derives and compares the proof for the nonce in a step. -/
def comparison (nonce : Bytes) (s : Registry) : RegistryAction → Option ℕ
  | .verifyCompare i _ => if (s.verifies i).any (·.comparesOn nonce) then some i else none
  | _ => none

/-- The sections of a verify request before its acceptance leave the registrations alone, and every
challenge but the one of the fingerprint it names. -/
def VerifyFrame (s : Registry) (a : RegistryAction) (s' : Registry) : Prop :=
  match a with
  | .verifyBegin _ call => s'.registrations = s.registrations ∧
      ∀ fp, (∀ req, call.body = some req → fp ≠ req.fingerprint) → s'.challenges fp = s.challenges fp
  | .verifyCompare _ _ => s'.registrations = s.registrations ∧ s'.challenges = s.challenges
  | _ => True

/-- Every challenge that can still be read carries the number of admissions against it. -/
structure Counted (s : Registry) : Prop where
  placed : s.Placed
  unknown : ∀ nonce, nonce ∉ s.nonces → s.admissions nonce = []
  counted : ∀ x c, s.source x = some c → c.attempts = (s.admissions c.nonce).length
  bounded : ∀ nonce, (s.admissions nonce).length ≤ maxAttempts

variable {now : ℕ} {s s' : Registry} {a : RegistryAction}

/-- Challenges are kept, dropped or moved. -/
theorem Counted.keep (h : s.Counted) (hp : s'.Placed) (hn : s.nonces ⊆ s'.nonces)
    (ha : s'.admissions = s.admissions)
    (hs : ∀ x c, s'.source x = some c → ∃ y, s.source y = some c) : s'.Counted where
  placed := hp
  unknown nonce hu := ha ▸ h.unknown nonce fun hm => hu (hn hm)
  counted x c hx := by
    obtain ⟨y, hy⟩ := hs x c hx
    exact ha ▸ h.counted y c hy
  bounded nonce := ha ▸ h.bounded nonce

/-- Steps that leave the challenges where they are, or drop some. -/
theorem Counted.drop (h : s.Counted) (hn : s.nonces ⊆ s'.nonces)
    (ha : s'.admissions = s.admissions) (hs : ∀ x c, s'.source x = some c → s.source x = some c) :
    s'.Counted :=
  h.keep (h.placed.copy hn fun x c hx => ⟨c, hs x c hx, rfl⟩) hn ha fun x c hx => ⟨x, hs x c hx⟩

/-- A new nonce has no admissions. -/
theorem Counted.generate (h : s.Counted) {i : ℕ} {c : Challenge} (hc : c.nonce ∉ s.nonces)
    (h₀ : c.attempts = 0) (hn : s'.nonces = c.nonce :: s.nonces) (ha : s'.admissions = s.admissions)
    (hs : ∀ x d, s'.source x = some d → s.source x = some d ∨ x = .thread i ∧ d = c) :
    s'.Counted where
  placed := h.placed.generate hc hn hs
  unknown nonce hu := by
    rw [hn] at hu
    exact ha ▸ h.unknown nonce fun hm => hu (List.mem_cons_of_mem _ hm)
  counted x d hx := by
    rw [ha]
    rcases hs x d hx with hx | ⟨-, rfl⟩
    · exact h.counted x d hx
    · rw [h.unknown _ hc, h₀, List.length_nil]
  bounded nonce := ha ▸ h.bounded nonce

/-- An admission is counted in the one place where the nonce is kept. -/
theorem Counted.admit (h : s.Counted) {i : ℕ} {fp : Bytes} {c : Challenge}
    (hc : s.challenges fp = some c) (hb : c.attempts + 1 ≤ maxAttempts)
    (hn : s'.nonces = s.nonces)
    (ha : ∀ nonce, s'.admissions nonce =
      if c.nonce = nonce then i :: s.admissions nonce else s.admissions nonce)
    (hs : ∀ x d, s'.source x = some d → x ≠ .entry fp ∧ s.source x = some d ∨
      x = .entry fp ∧ d = { c with attempts := c.attempts + 1 }) : s'.Counted := by
  have hcount := h.counted (.entry fp) c hc
  constructor
  case placed =>
    apply h.placed.copy (hn ▸ List.Subset.refl _)
    intro x d hx
    rcases hs x d hx with ⟨-, hx⟩ | ⟨rfl, rfl⟩
    · exact ⟨d, hx, rfl⟩
    · exact ⟨c, hc, rfl⟩
  case unknown =>
    intro nonce hu
    rw [hn] at hu
    have hne : c.nonce ≠ nonce := fun he => hu (he ▸ h.placed.known (.entry fp) c hc)
    rw [ha, if_neg hne]
    exact h.unknown nonce hu
  case counted =>
    intro x d hx
    rw [ha]
    rcases hs x d hx with ⟨hne, hx⟩ | ⟨rfl, rfl⟩
    · rw [if_neg fun he => hne (h.placed.unique x (.entry fp) d c hx hc he.symm)]
      exact h.counted x d hx
    · rw [if_pos rfl, List.length_cons, ← hcount]
  case bounded =>
    intro nonce
    rw [ha]
    split_ifs with he
    · rw [List.length_cons, ← he, ← hcount]
      exact hb
    · exact h.bounded nonce

theorem Counted.step (h : s.Counted) (he : Effect P env now s a s') : s'.Counted := by
  cases he with
  | initReplied i e nonces hn => exact h.drop hn.subset rfl fun x c => source_set_init rfl
  | initChecked i call publicKey hi hf =>
    exact h.drop (List.Subset.refl _) rfl fun x c => source_set_init rfl
  | initGenerated i random priv c hi hn hp hexp ha =>
    refine h.generate (i := i) hn ha rfl rfl fun x d hx => ?_
    cases x with
    | thread k =>
      rcases Table.bind_set_eq_some hx with ⟨rfl, hk⟩ | ⟨-, hk⟩
      · exact .inr ⟨rfl, (Option.some.inj hk).symm⟩
      · exact .inl hk
    | entry fp => exact .inl hx
  | initStored i c hi =>
    refine h.keep (h.placed.store i (computeFingerprint P c.publicKey) rfl fun x d =>
      source_of_stored hi) (List.Subset.refl _) rfl fun x d hx => ?_
    rcases source_of_stored hi hx with ⟨hx, -⟩ | ⟨-, hx⟩
    · exact ⟨x, hx⟩
    · exact ⟨.thread i, hx⟩
  | verifyReplied i e hi => exact h.drop (List.Subset.refl _) rfl fun x c hx => hx
  | verifyDropped i call e fp c hc hd =>
    refine h.drop (List.Subset.refl _) rfl fun x d hx => ?_
    cases x with
    | thread k => exact hx
    | entry fp' => exact Table.of_erase (t := s.challenges) hx
  | verifyAdmitted i call r req c hi hc hexp ha =>
    refine h.admit (i := i) hc ha rfl (fun nonce => ?_) fun x d hx => ?_
    · simp only [admissions, List.filterMap_cons, RegistryEvent.admittedOn]
      split_ifs <;> rfl
    · cases x with
      | thread k => exact .inl ⟨nofun, hx⟩
      | entry fp =>
        rcases Table.set_eq_some_iff.mp hx with ⟨rfl, rfl⟩ | ⟨hne, hfp⟩
        · exact .inr ⟨rfl, rfl⟩
        · exact .inl ⟨fun hf => hne (Source.entry.inj hf), hfp⟩
  | verifyProved i random r req c secret hi hp hs =>
    exact h.drop (List.Subset.refl _) rfl fun x c hx => hx
  | verifyAccepted i r req c secret hi =>
    refine h.drop (List.Subset.refl _) rfl fun x d hx => ?_
    cases x with
    | thread k => exact hx
    | entry fp' => exact Table.of_erase (t := s.challenges) hx

theorem Counted.initial : Registry.initial.Counted where
  placed := .initial
  unknown _ _ := rfl
  counted x c hx := by cases x <;> cases hx
  bounded _ := Nat.zero_le _

/-- The request is past its comparison. -/
def Compared (s : Registry) (i : ℕ) : Prop := (s.verifies i).any (·.compared)

theorem Compared.step {i : ℕ} (h : s.Compared i) (he : Effect P env now s a s') :
    s'.Compared i := by
  have done : ∀ {k t}, VerifyThread.compared t = true → (s.verifies.set k t i).any (·.compared) := by
    intro k t ht
    by_cases hk : i = k
    · subst hk
      simp [ht]
    · rw [Table.set_of_ne hk]
      exact h
  cases he with
  | initReplied k e nonces hn => exact h
  | initChecked k call publicKey hk hf => exact h
  | initGenerated k random priv c hk hn hp hexp ha => exact h
  | initStored k c hk => exact h
  | verifyReplied k e hk => exact done rfl
  | verifyDropped k call e fp c hc hd => exact done rfl
  | verifyAdmitted k call r req c hk hc hexp ha =>
    have hne : i ≠ k := by
      rintro rfl
      simp [Compared, hk] at h
    simpa only [Compared, Table.set_of_ne hne] using h
  | verifyProved k random r req c secret hk hp hs => exact done rfl
  | verifyAccepted k r req c secret hk => exact done rfl

theorem comparison_eq_some {nonce : Bytes} {i : ℕ} (h : s.comparison nonce a = some i) :
    ∃ random r req c, a = .verifyCompare i random ∧ s.verifies i = some (.admitted r req c) ∧
      c.nonce = nonce := by
  cases a with
  | verifyCompare k random =>
    simp only [comparison] at h
    split_ifs at h with hk
    cases h
    obtain ⟨t, ht, hn⟩ := (Option.any_eq_true _ _).mp hk
    cases t with
    | admitted r req c => exact ⟨random, r, req, c, rfl, ht, of_decide_eq_true hn⟩
    | proved r req c secret => cases hn
    | replied r => cases hn
  | _ => cases h

/-- A comparison is made once by each request. -/
theorem comparison_once {nonce : Bytes} {i : ℕ} (h : s.step P env now a = some s')
    (hc : s.comparison nonce a = some i) : ¬ s.Compared i ∧ s'.Compared i := by
  obtain ⟨random, r, req, c, rfl, hi, -⟩ := comparison_eq_some hc
  refine ⟨by simp [Compared, hi, VerifyThread.compared], ?_⟩
  simp only [step, verifyCompare, hi] at h
  split at h
  · cases h
    simp [Compared, VerifyThread.compared]
  · split_ifs at h
    cases h
    simp [Compared, VerifyThread.compared]

theorem Effect.admissions_subset (he : Effect P env now s a s') {nonce : Bytes} :
    s.admissions nonce ⊆ s'.admissions nonce := (he.log_sublist.filterMap _).subset

/-- A request that compares was admitted before. -/
theorem admitted_of_comparison (hw : s.Sound P) {nonce : Bytes} {i : ℕ}
    (h : s.comparison nonce a = some i) : i ∈ s.admissions nonce := by
  obtain ⟨random, r, req, c, rfl, hi, hn⟩ := comparison_eq_some h
  obtain ⟨-, j, instant, -, hl⟩ := hw.traced.admitted i r req c hi
  have hm : .admitted i req.fingerprint c instant ∈ s.log := hl.subset List.mem_cons_self
  exact List.mem_filterMap.mpr ⟨_, hm, by simp [RegistryEvent.admittedOn, hn]⟩

theorem verifyRequest_body {call : Call RegistrationVerifyRequest} {req : RegistrationVerifyRequest}
    (h : verifyRequest call = .ok req) : call.body = some req := by
  unfold verifyRequest at h
  cases hd : call.decode with
  | error e => simp [hd, bind, Except.bind] at h
  | ok body =>
    have hreq : body = req := by
      simp only [hd, bind, Except.bind] at h
      split_ifs at h
      exact Except.ok.inj h
    subst hreq
    unfold Call.decode at hd
    split_ifs at hd
    split at hd
    · cases hd
    · rename_i hb
      exact hb.trans (congrArg some (Except.ok.inj hd))

theorem admitAttempt_frame {challenges : Table Bytes Challenge} {fp fp' : Bytes} (hne : fp' ≠ fp) :
    (admitAttempt now challenges fp).1 fp' = challenges fp' := by
  unfold admitAttempt
  split
  · rfl
  · dsimp only
    split_ifs
    · exact Table.erase_of_ne hne
    · exact Table.erase_of_ne hne
    · exact Table.set_of_ne hne

theorem verifyBegin_frame {i : ℕ} {call : Call RegistrationVerifyRequest}
    (h : s.verifyBegin now i call = some s') : s.VerifyFrame (.verifyBegin i call) s' := by
  unfold verifyBegin at h
  split at h
  · cases h
  · cases h
    exact ⟨rfl, fun fp _ => rfl⟩
  · rename_i req hi hreq
    have frame : ∀ fp, (∀ req, call.body = some req → fp ≠ req.fingerprint) →
        (admitAttempt now s.challenges req.fingerprint).1 fp = s.challenges fp := fun fp hfp =>
      admitAttempt_frame (hfp req (verifyRequest_body hreq))
    split at h
    · rename_i he
      cases h
      exact ⟨rfl, by simpa only [he] using frame⟩
    · rename_i he
      cases h
      exact ⟨rfl, by simpa only [he] using frame⟩

theorem verifyFrame_step (h : s.step P env now a = some s') : s.VerifyFrame a s' := by
  cases a with
  | verifyBegin i call => exact verifyBegin_frame h
  | verifyCompare i random => cases step_effect h <;> exact ⟨rfl, rfl⟩
  | _ => trivial

end Registry

/-- In any interleaving of the handlers, at most five verify requests derive and compare a proof for
one nonce, the stored challenge counts the requests admitted against it, and the sections of a verify
request before its acceptance change no registration and no challenge of another fingerprint. -/
theorem attempts_bounded {start : ℕ} {as : List (ℕ × RegistryAction)} {s : ℕ × Registry}
    (h : (registry P env).exec (start, Registry.initial) as = some s) :
    (∀ nonce, ((registry P env).trace (fun s a => s.2.comparison nonce a.2)
      (start, Registry.initial) as).length ≤ 5) ∧
    (∀ fp c, s.2.challenges fp = some c → c.attempts = (s.2.admissions c.nonce).length) ∧
    ∀ t a t', (registry P env).step t a = some t' → t.2.VerifyFrame a.2 t'.2 := by
  have hs : s.2.Counted := by
    refine Machine.exec_invariant (Q := fun s => s.2.Counted) (fun s a s' _ hs hc => ?_) .initial h
    obtain ⟨-, -, hs⟩ := Machine.timed_step.mp hs
    exact hc.step (Registry.step_effect hs)
  refine ⟨fun nonce => ?_, fun fp c hc => hs.counted (.entry fp) c hc, fun t a t' ht => ?_⟩
  · -- The comparing requests are pairwise different and were all admitted.
    have hnd := (Machine.trace_nodup (M := registry P env) (D := fun s i => s.2.Compared i)
      (f := fun s a => s.2.comparison nonce a.2)
      (fun s a s' i hs hd => hd.step (Registry.step_effect (Machine.timed_step.mp hs).2.2))
      (fun s a s' i hs hi => Registry.comparison_once (Machine.timed_step.mp hs).2.2 hi) h).1
    have hsub := Machine.trace_marked (M := registry P env) (I := fun s => s.2.Sound P)
      (Q := fun s i => i ∈ s.2.admissions nonce) (f := fun s a => s.2.comparison nonce a.2)
      (fun s a s' hw hs => hw.step (Registry.step_effect (Machine.timed_step.mp hs).2.2))
      (fun s a s' i hs hi => (Registry.step_effect (Machine.timed_step.mp hs).2.2).admissions_subset hi)
      (fun s a i hw hi => Registry.admitted_of_comparison hw hi) .initial h
    exact (List.subperm_of_subset hnd hsub).length_le.trans (hs.bounded nonce)
  · exact Registry.verifyFrame_step (Machine.timed_step.mp ht).2.2

theorem attempts_bounded_registrationRun :
    ∃ s, (registry Vector.primitives {}).exec (0, Registry.initial) Vector.registrationRun = some s ∧
      (registry Vector.primitives {}).trace (fun s a => s.2.comparison Vector.nonce a.2)
        (0, Registry.initial) Vector.registrationRun = [1] ∧
      (∀ nonce, ((registry Vector.primitives {}).trace (fun s a => s.2.comparison nonce a.2)
        (0, Registry.initial) Vector.registrationRun).length ≤ 5) ∧
      (∀ fp c, s.2.challenges fp = some c → c.attempts = (s.2.admissions c.nonce).length) ∧
      ∀ t a t', (registry Vector.primitives {}).step t a = some t' →
        t.2.VerifyFrame a.2 t'.2 := by
  have h : ((registry Vector.primitives {}).exec (0, Registry.initial) Vector.registrationRun).isSome
      := by decide +kernel
  obtain ⟨s, hs⟩ := Option.isSome_iff_exists.mp h
  exact ⟨s, hs, by decide +kernel, attempts_bounded hs⟩

end HeadFwd.Relay
