import HeadFwd.Relay.Provenance
import HeadFwd.Relay.Vector

/-! # Single use of challenges

A nonce lives in one place: with the init request that drew it, then in the
challenge map under one fingerprint. Verify requests copy it out, and the first
one that is accepted removes it from the map. As long as no other request with
the right proof holds a copy at that moment, at most one secret is ever issued
on the strength of the nonce.
-/

namespace HeadFwd.Relay

open Text Net Crypto Transition

variable {P : Primitives} {env : Environment}

/-- The request and the challenge a verify request works on between its two critical sections. -/
def VerifyThread.held : VerifyThread → Option (RegistrationVerifyRequest × Challenge)
  | .admitted _ req c => some (req, c)
  | .proved _ req c _ => some (req, c)
  | .replied _ => none

/-- The challenge an init request has generated and not stored yet. -/
def InitThread.fresh : InitThread → Option Challenge
  | .generated c => some c
  | _ => none

/-- A secret was issued on the strength of the nonce. -/
def RegistryEvent.issuedOn (nonce : Bytes) : RegistryEvent → Bool
  | .issued _ _ _ _ c => c.nonce = nonce
  | _ => false

/-- Where a challenge that can still be read is kept. -/
inductive Source where
  | thread (i : ℕ)
  | entry (fp : Bytes)

namespace Registry

/-- The verify request in progress under a number. -/
def inFlight (s : Registry) (i : ℕ) : Option (RegistrationVerifyRequest × Challenge) :=
  (s.verifies i).bind VerifyThread.held

def source (s : Registry) : Source → Option Challenge
  | .thread i => (s.inits i).bind InitThread.fresh
  | .entry fp => s.challenges fp

/-- How many secrets were issued on the strength of a nonce. -/
def issues (s : Registry) (nonce : Bytes) : ℕ := s.log.countP (·.issuedOn nonce)

/-- When a verify request is accepted, no other request in progress holds the same challenge
together with its proof. -/
def Exclusive (P : Primitives) (s : Registry) : RegistryAction → Prop
  | .verifyAccept i => ∀ req c, s.inFlight i = some (req, c) → ∀ j ≠ i, ∀ req' c',
      s.inFlight j = some (req', c') → c'.nonce = c.nonce →
        ¬ Proves P req'.fingerprint req'.proof c'
  | _ => True

/-- Every nonce that can still be read is kept in one place. -/
structure Placed (s : Registry) : Prop where
  known : ∀ x c, s.source x = some c → c.nonce ∈ s.nonces
  unique : ∀ x y c d, s.source x = some c → s.source y = some d → c.nonce = d.nonce → x = y

/-- The invariant of runs without such overlaps. -/
structure SingleUse (P : Primitives) (s : Registry) : Prop where
  source_known : ∀ x c, s.source x = some c → c.nonce ∈ s.nonces
  flight_known : ∀ i req c, s.inFlight i = some (req, c) → c.nonce ∈ s.nonces
  issued_known : ∀ nonce, 0 < s.issues nonce → nonce ∈ s.nonces
  source_unique : ∀ x y c d, s.source x = some c → s.source y = some d → c.nonce = d.nonce → x = y
  flight_source : ∀ i req c x d, s.inFlight i = some (req, c) → s.source x = some d →
    d.nonce = c.nonce → x = .entry req.fingerprint
  source_unused : ∀ x c, s.source x = some c → s.issues c.nonce = 0
  flight_unused : ∀ i req c, s.inFlight i = some (req, c) →
    Proves P req.fingerprint req.proof c → s.issues c.nonce = 0
  once : ∀ nonce, s.issues nonce ≤ 1

variable {now : ℕ} {s s' : Registry}

/-- Steps that copy or drop challenges. -/
theorem Placed.copy (h : s.Placed) (hn : s.nonces ⊆ s'.nonces)
    (hs : ∀ x c, s'.source x = some c → ∃ d, s.source x = some d ∧ d.nonce = c.nonce) :
    s'.Placed where
  known x c hx := by
    obtain ⟨d, hd, he⟩ := hs x c hx
    exact hn (he ▸ h.known x d hd)
  unique x y c d hx hy he := by
    obtain ⟨c', hc', hce⟩ := hs x c hx
    obtain ⟨d', hd', hde⟩ := hs y d hy
    exact h.unique x y c' d' hc' hd' (hce.trans (he.trans hde.symm))

/-- A new nonce starts out with the request that drew it. -/
theorem Placed.generate (h : s.Placed) {i : ℕ} {c : Challenge} (hc : c.nonce ∉ s.nonces)
    (hn : s'.nonces = c.nonce :: s.nonces)
    (hs : ∀ x d, s'.source x = some d → s.source x = some d ∨ x = .thread i ∧ d = c) :
    s'.Placed where
  known x d hx := by
    rw [hn]
    rcases hs x d hx with hx' | ⟨-, rfl⟩
    · exact List.mem_cons_of_mem _ (h.known x d hx')
    · exact List.mem_cons_self
  unique x y d e hx hy he := by
    rcases hs x d hx with hx' | ⟨rfl, rfl⟩ <;> rcases hs y e hy with hy' | ⟨rfl, rfl⟩
    · exact h.unique x y d e hx' hy' he
    · exact absurd (he ▸ h.known x d hx') hc
    · exact absurd (he ▸ h.known y e hy') hc
    · rfl

/-- A challenge moves from the request that generated it into the map. -/
theorem Placed.store (h : s.Placed) (i : ℕ) (fp : Bytes) (hn : s'.nonces = s.nonces)
    (hs : ∀ x d, s'.source x = some d → s.source x = some d ∧ x ≠ .thread i ∨
      x = .entry fp ∧ s.source (.thread i) = some d) : s'.Placed where
  known x d hx := by
    rw [hn]
    rcases hs x d hx with ⟨hx', -⟩ | ⟨-, hx'⟩
    · exact h.known _ d hx'
    · exact h.known _ d hx'
  unique x y d e hx hy he := by
    rcases hs x d hx with ⟨hx', hxi⟩ | ⟨rfl, hx'⟩ <;> rcases hs y e hy with ⟨hy', hyi⟩ | ⟨rfl, hy'⟩
    · exact h.unique x y d e hx' hy' he
    · exact absurd (h.unique x _ d e hx' hy' he) hxi
    · exact absurd (h.unique _ y d e hx' hy' he).symm hyi
    · rfl

theorem SingleUse.placed (h : s.SingleUse P) : s.Placed := ⟨h.source_known, h.source_unique⟩

/-- Steps that copy or drop challenges and issue nothing. -/
theorem SingleUse.copy (h : s.SingleUse P) (hn : s.nonces ⊆ s'.nonces)
    (hi : ∀ nonce, s'.issues nonce = s.issues nonce)
    (hs : ∀ x c, s'.source x = some c → ∃ d, s.source x = some d ∧ d.nonce = c.nonce)
    (hf : ∀ i req c, s'.inFlight i = some (req, c) → s.inFlight i = some (req, c) ∨
      ∃ d, s.source (.entry req.fingerprint) = some d ∧ d.nonce = c.nonce) : s'.SingleUse P where
  source_known := (h.placed.copy hn hs).known
  flight_known i req c hc := by
    rcases hf i req c hc with hc | ⟨d, hd, he⟩
    · exact hn (h.flight_known i req c hc)
    · exact hn (he ▸ h.source_known _ d hd)
  issued_known nonce hp := hn (h.issued_known nonce (hi nonce ▸ hp))
  source_unique := (h.placed.copy hn hs).unique
  flight_source i req c x d hc hx he := by
    obtain ⟨d', hd', hde⟩ := hs x d hx
    rcases hf i req c hc with hc | ⟨c', hc', hce⟩
    · exact h.flight_source i req c x d' hc hd' (hde.trans he)
    · exact h.source_unique x _ d' c' hd' hc' (hde.trans (he.trans hce.symm))
  source_unused x c hx := by
    obtain ⟨d, hd, he⟩ := hs x c hx
    rw [hi, ← he]
    exact h.source_unused x d hd
  flight_unused i req c hc hp := by
    rw [hi]
    rcases hf i req c hc with hc | ⟨d, hd, he⟩
    · exact h.flight_unused i req c hc hp
    · exact he ▸ h.source_unused _ d hd
  once nonce := hi nonce ▸ h.once nonce

/-- A new nonce starts out with the request that drew it. -/
theorem SingleUse.generate (h : s.SingleUse P) {i : ℕ} {c : Challenge} (hc : c.nonce ∉ s.nonces)
    (hn : s'.nonces = c.nonce :: s.nonces) (hi : s'.issues = s.issues) (hf : s'.inFlight = s.inFlight)
    (hs : ∀ x d, s'.source x = some d → s.source x = some d ∨ x = .thread i ∧ d = c) :
    s'.SingleUse P where
  source_known := (h.placed.generate hc hn hs).known
  flight_known k req d hk := by
    rw [hf] at hk
    exact hn ▸ List.mem_cons_of_mem _ (h.flight_known k req d hk)
  issued_known nonce hp := by
    rw [hi] at hp
    exact hn ▸ List.mem_cons_of_mem _ (h.issued_known nonce hp)
  source_unique := (h.placed.generate hc hn hs).unique
  flight_source k req d x e hk hx he := by
    rw [hf] at hk
    rcases hs x e hx with hx' | ⟨rfl, rfl⟩
    · exact h.flight_source k req d x e hk hx' he
    · exact absurd (he ▸ h.flight_known k req d hk) hc
  source_unused x d hx := by
    rw [hi]
    rcases hs x d hx with hx' | ⟨-, rfl⟩
    · exact h.source_unused x d hx'
    · exact Nat.eq_zero_of_not_pos fun hp => hc (h.issued_known _ hp)
  flight_unused k req d hk := by
    rw [hf] at hk
    exact hi ▸ h.flight_unused k req d hk
  once nonce := hi ▸ h.once nonce

/-- A challenge moves from the request that generated it into the map. -/
theorem SingleUse.store (h : s.SingleUse P) (i : ℕ) (fp : Bytes) (hn : s'.nonces = s.nonces)
    (hi : s'.issues = s.issues) (hf : s'.inFlight = s.inFlight)
    (hs : ∀ x d, s'.source x = some d → s.source x = some d ∧ x ≠ .thread i ∨
      x = .entry fp ∧ s.source (.thread i) = some d) : s'.SingleUse P where
  source_known := (h.placed.store i fp hn hs).known
  flight_known k req d hk := hn ▸ h.flight_known k req d (hf ▸ hk)
  issued_known nonce hp := hn ▸ h.issued_known nonce (hi ▸ hp)
  source_unique := (h.placed.store i fp hn hs).unique
  flight_source k req d x e hk hx he := by
    rw [hf] at hk
    rcases hs x e hx with ⟨hx', -⟩ | ⟨rfl, hx'⟩
    · exact h.flight_source k req d x e hk hx' he
    · cases h.flight_source k req d _ e hk hx' he
  source_unused x d hx := by
    rw [hi]
    rcases hs x d hx with ⟨hx', -⟩ | ⟨-, hx'⟩
    · exact h.source_unused _ d hx'
    · exact h.source_unused _ d hx'
  flight_unused k req d hk := by
    rw [hf] at hk
    exact hi ▸ h.flight_unused k req d hk
  once nonce := hi ▸ h.once nonce

/-- The accepted request takes the last usable copies of its challenge with it. -/
theorem SingleUse.accept (h : s.SingleUse P) {i : ℕ} {req : RegistrationVerifyRequest}
    {c : Challenge} (hc : s.inFlight i = some (req, c)) (hp : Proves P req.fingerprint req.proof c)
    (hx : s.Exclusive P (.verifyAccept i)) (hn : s'.nonces = s.nonces)
    (hi : ∀ nonce, s'.issues nonce = s.issues nonce + if c.nonce = nonce then 1 else 0)
    (hs : ∀ x d, s'.source x = some d → s.source x = some d ∧ x ≠ .entry req.fingerprint)
    (hf : ∀ k p, s'.inFlight k = some p → s.inFlight k = some p ∧ k ≠ i) : s'.SingleUse P where
  source_known x d hx := hn ▸ h.source_known x d (hs x d hx).1
  flight_known k req' d hk := hn ▸ h.flight_known k req' d (hf k _ hk).1
  issued_known nonce hpos := by
    rw [hn]
    rw [hi] at hpos
    split_ifs at hpos with he
    · exact he ▸ h.flight_known i req c hc
    · exact h.issued_known nonce hpos
  source_unique x y d e hx hy he := h.source_unique x y d e (hs x d hx).1 (hs y e hy).1 he
  flight_source k req' d x e hk hx he :=
    h.flight_source k req' d x e (hf k _ hk).1 (hs x e hx).1 he
  source_unused x d hx := by
    obtain ⟨hx', hne⟩ := hs x d hx
    have hd : c.nonce ≠ d.nonce := fun he => hne (h.flight_source i req c x d hc hx' he.symm)
    rw [hi, if_neg hd]
    exact h.source_unused x d hx'
  flight_unused k req' d hk hpd := by
    obtain ⟨hk', hne⟩ := hf k _ hk
    have hd : c.nonce ≠ d.nonce := fun he => hx req c hc k hne req' d hk' he.symm hpd
    rw [hi, if_neg hd]
    exact h.flight_unused k req' d hk' hpd
  once nonce := by
    rw [hi]
    split_ifs with he
    · subst he
      rw [h.flight_unused i req c hc hp]
    · exact h.once nonce

/-- A thread that ends up without a new challenge leaves the sources as they are. -/
theorem source_set_init {i : ℕ} {t : InitThread} (ht : t.fresh = none) {nonces : List Bytes}
    {x : Source} {c : Challenge}
    (hx : source { s with inits := s.inits.set i t, nonces } x = some c) : s.source x = some c := by
  cases x with
  | thread k =>
    rcases Table.bind_set_eq_some hx with ⟨-, hk⟩ | ⟨-, hk⟩
    · cases ht.symm.trans hk
    · exact hk
  | entry fp => exact hx

/-- A stored challenge comes from the thread that generated it. -/
theorem source_of_stored {i : ℕ} {c : Challenge} (hi : s.inits i = some (.generated c)) {fp : Bytes}
    {r : Except HttpError RegistrationInitResponse} {log : List RegistryEvent} {x : Source}
    {d : Challenge}
    (hx : source { s with
      challenges := s.challenges.set fp c
      inits := s.inits.set i (.replied r)
      log } x = some d) :
    s.source x = some d ∧ x ≠ .thread i ∨ x = .entry fp ∧ s.source (.thread i) = some d := by
  cases x with
  | thread k =>
    rcases Table.bind_set_eq_some hx with ⟨-, hk⟩ | ⟨hne, hk⟩
    · cases hk
    · exact .inl ⟨hk, fun hki => hne (Source.thread.inj hki)⟩
  | entry fp' =>
    rcases Table.set_eq_some_iff.mp hx with ⟨rfl, rfl⟩ | ⟨-, hfp⟩
    · exact .inr ⟨rfl, by simp [source, hi, InitThread.fresh]⟩
    · exact .inl ⟨hfp, nofun⟩

/-- An answered request is no longer in flight. -/
theorem inFlight_of_replied {verifies : Table ℕ VerifyThread} {i k : ℕ}
    {r : Except HttpError RegistrationVerifyResponse} {p : RegistrationVerifyRequest × Challenge}
    (hk : (verifies.set i (.replied r) k).bind VerifyThread.held = some p) :
    (verifies k).bind VerifyThread.held = some p ∧ k ≠ i := by
  rcases Table.bind_set_eq_some hk with ⟨-, hk'⟩ | ⟨hne, hk'⟩
  · cases hk'
  · exact ⟨hk', hne⟩

theorem SingleUse.step (h : s.SingleUse P) (hw : s.Sound P) {a : RegistryAction}
    (hx : s.Exclusive P a) (he : Effect P env now s a s') : s'.SingleUse P := by
  cases he with
  | initReplied i e nonces hn =>
    exact h.copy hn.subset (fun _ => rfl) (fun x c hx => ⟨c, source_set_init rfl hx, rfl⟩)
      fun _ _ _ hk => .inl hk
  | initChecked i call publicKey hi hf =>
    exact h.copy (List.Subset.refl _) (fun _ => rfl)
      (fun x c hx => ⟨c, source_set_init rfl hx, rfl⟩) fun _ _ _ hk => .inl hk
  | initGenerated i random priv c hi hn hp hexp ha =>
    refine h.generate (i := i) hn rfl rfl rfl fun x d hx => ?_
    cases x with
    | thread k =>
      rcases Table.bind_set_eq_some hx with ⟨rfl, hk⟩ | ⟨-, hk⟩
      · exact .inr ⟨rfl, (Option.some.inj hk).symm⟩
      · exact .inl hk
    | entry fp => exact .inl hx
  | initStored i c hi =>
    refine h.store i (computeFingerprint P c.publicKey) rfl ?_ rfl fun x d => source_of_stored hi
    funext nonce
    simp [issues, RegistryEvent.issuedOn]
  | verifyReplied i e hi =>
    exact h.copy (List.Subset.refl _) (fun _ => rfl) (fun x c hx => ⟨c, hx, rfl⟩)
      fun k req c hk => .inl (inFlight_of_replied hk).1
  | verifyDropped i call e fp c hc hd =>
    refine h.copy (List.Subset.refl _) (fun _ => rfl) (fun x d hx => ?_)
      fun k req c hk => .inl (inFlight_of_replied hk).1
    cases x with
    | thread k => exact ⟨d, hx, rfl⟩
    | entry fp' => exact ⟨d, (Table.erase_eq_some_iff.mp hx).2, rfl⟩
  | verifyAdmitted i call r req c hi hc hexp ha =>
    refine h.copy (List.Subset.refl _) (fun nonce => ?_) (fun x d hx => ?_) fun k req' d hk => ?_
    · simp [issues, RegistryEvent.issuedOn]
    · cases x with
      | thread k => exact ⟨d, hx, rfl⟩
      | entry fp =>
        rcases Table.set_eq_some_iff.mp hx with ⟨rfl, rfl⟩ | ⟨-, hfp⟩
        · exact ⟨c, hc, rfl⟩
        · exact ⟨d, hfp, rfl⟩
    · rcases Table.bind_set_eq_some hk with ⟨-, hk'⟩ | ⟨-, hk'⟩
      · cases hk'
        exact .inr ⟨c, hc, rfl⟩
      · exact .inl hk'
  | verifyProved i random r req c secret hi hp hs =>
    refine h.copy (List.Subset.refl _) (fun _ => rfl) (fun x d hx => ⟨d, hx, rfl⟩)
      fun k req' d hk => .inl ?_
    rcases Table.bind_set_eq_some hk with ⟨rfl, hk'⟩ | ⟨-, hk'⟩
    · cases hk'
      simp [inFlight, hi, VerifyThread.held]
    · exact hk'
  | verifyAccepted i r req c secret hi =>
    have hc : s.inFlight i = some (req, c) := by simp [inFlight, hi, VerifyThread.held]
    refine h.accept hc (hw.traced.proved i r req c secret hi).2 hx rfl (fun nonce => ?_)
      (fun x d hx => ?_) fun k p hk => inFlight_of_replied hk
    · simp [issues, RegistryEvent.issuedOn, List.countP_cons]
    · cases x with
      | thread k => exact ⟨hx, nofun⟩
      | entry fp =>
        obtain ⟨hne, hfp⟩ := Table.erase_eq_some_iff.mp hx
        exact ⟨hfp, fun hf => hne (Source.entry.inj hf)⟩

theorem Placed.initial : Registry.initial.Placed where
  known x c hx := by cases x <;> cases hx
  unique x y c d hx := by cases x <;> cases hx

theorem SingleUse.initial : Registry.initial.SingleUse P where
  source_known := Placed.initial.known
  flight_known := nofun
  issued_known := nofun
  source_unique := Placed.initial.unique
  flight_source := nofun
  source_unused x c hx := by cases x <;> cases hx
  flight_unused := nofun
  once nonce := Nat.zero_le _

end Registry

/-- At most one secret is issued on the strength of one nonce, in every run in which no request is
accepted while another one holds the same challenge and its proof. -/
theorem issues_le_one {s : ℕ × Registry}
    (hr : (registry P env).Reach (fun s a => s.2.Exclusive P a.2) s) (nonce : Bytes) :
    s.2.issues nonce ≤ 1 := by
  have h : s.2.Sound P ∧ s.2.SingleUse P := by
    refine hr.invariant (P := fun s => s.2.Sound P ∧ s.2.SingleUse P) ?_ ?_
    · rintro ⟨now, s⟩ rfl
      exact ⟨.initial, .initial⟩
    · rintro s a s' - hx hs ⟨hw, h⟩
      obtain ⟨-, -, hs⟩ := Machine.timed_step.mp hs
      have he := Registry.step_effect hs
      exact ⟨hw.step he, h.step hw hx he⟩
  exact h.2.once nonce

theorem exec_verifies_eq_none {as : List (ℕ × RegistryAction)} {s s' : ℕ × Registry} {j : ℕ}
    (h : (registry P env).exec s as = some s') (ha : ∀ a ∈ as, ∀ call, a.2 ≠ .verifyBegin j call)
    (hj : s.2.verifies j = none) : s'.2.verifies j = none := by
  refine Machine.exec_invariant (Q := fun s => s.2.verifies j = none) ?_ hj h
  intro s a s' hmem hs hj
  obtain ⟨-, -, hs⟩ := Machine.timed_step.mp hs
  exact (Registry.step_effect hs).verifies_eq_none (ha a hmem) hj

theorem issues_le_one_registrationRun :
    ∃ s, (registry Vector.primitives {}).exec (0, Registry.initial) Vector.registrationRun = some s ∧
      s.2.issues Vector.nonce = 1 ∧ ∀ nonce, s.2.issues nonce ≤ 1 := by
  have h : ((registry Vector.primitives {}).exec (0, Registry.initial) Vector.registrationRun).map
      (fun s => s.2.issues Vector.nonce) = some 1 := by decide +kernel
  obtain ⟨s, hs, h⟩ := Option.map_eq_some_iff.mp h
  refine ⟨s, hs, h, ?_⟩
  rw [Vector.registrationRun] at hs
  obtain ⟨t, ht, hs⟩ := Machine.exec_append.mp hs
  have h₀ : (registry Vector.primitives {}).init (0, Registry.initial) := rfl
  have hr : (registry Vector.primitives {}).Reach
      (fun s a => s.2.Exclusive Vector.primitives a.2) t :=
    .exec (by simp [Vector.proveSteps, Vector.initSteps, Registry.Exclusive]) (.init h₀) ht
  obtain ⟨u, hu, hs⟩ := Option.bind_eq_some_iff.mp hs
  cases hs
  have hx : t.2.Exclusive Vector.primitives (.verifyAccept 1) := fun req c _ j hj req' c' hc => by
    have hn : t.2.verifies j = none :=
      exec_verifies_eq_none ht (by simp [Vector.proveSteps, Vector.initSteps, hj.symm]) rfl
    simp [Registry.inFlight, hn] at hc
  exact issues_le_one (.step hr hx hu)

/-- The same proof, sent twice, passes the first critical section of both requests before either
reaches its second. -/
def replayRun : List (ℕ × RegistryAction) :=
  Vector.initSteps ++
    [(1, .verifyBegin 1 Vector.verifyCall), (1, .verifyBegin 2 Vector.verifyCall),
      (2, .verifyCompare 1 (List.replicate 32 4)), (2, .verifyCompare 2 (List.replicate 32 5)),
      (3, .verifyAccept 1), (3, .verifyAccept 2)]

theorem replayRun_issues :
    ∃ s, (registry Vector.primitives {}).exec (0, Registry.initial) replayRun = some s ∧
      s.2.issues Vector.nonce = 2 ∧
      (s.2.registrations Vector.fingerprint).map Registration.secret =
        some (randomHex (List.replicate 32 5)) := by
  have h : ((registry Vector.primitives {}).exec (0, Registry.initial) replayRun).map
      (fun s => (s.2.issues Vector.nonce,
        (s.2.registrations Vector.fingerprint).map Registration.secret)) =
      some (2, some (randomHex (List.replicate 32 5))) := by decide +kernel
  obtain ⟨s, hs, h⟩ := Option.map_eq_some_iff.mp h
  exact ⟨s, hs, congrArg Prod.fst h, congrArg Prod.snd h⟩

end HeadFwd.Relay
