import HeadFwd.Relay.Isolation
import HeadFwd.Relay.Streams

/-! # Streams of a lost tunnel

A stream is taken out of the map and its client closed by the goroutine that
relays it, when the client or a send fails, and by a reader that is told so. The
cleanup of a tunnel does not look at the streams. After it they are gone only if
their goroutines had ended before.
-/

namespace HeadFwd.Relay

open Text Net Crypto Transition Tunnel

/-- The write failed with nothing sent. -/
def WriteOutcome.lost : WriteOutcome → Bool
  | .failed false => true
  | _ => false

namespace Traffic

variable {now : ℕ} {T : Tunnels} {s s' : Traffic} {a : TrafficAction}

/-- A reader is about to close the client of the stream. -/
def BeingClosed (s : Traffic) (j : ℕ) : Prop := ∃ t c, s.readers t = some (.closing j c)

/-- The client of the stream is closed, or a reader is about to close it. -/
def Leaving (s : Traffic) (j : ℕ) : Prop := s.closed j = true ∨ s.BeingClosed j

/-- A stream in the map has a thread with its identifier and a client nobody has turned to. The
client of one that is gone is closed or about to be, each goroutine closing its own. -/
structure Tended (s : Traffic) : Prop where
  live : ∀ x j, s.streams x = some j → (s.upgrades j).bind StreamThread.id? = some x
  own : ∀ j k, s.upgrades j = some (.closing k) → k = j
  kept : ∀ x j, s.streams x = some j → ¬ s.Leaving j
  begun : ∀ j, s.Leaving j → ∃ thread, s.upgrades j = some thread ∧ thread.begun = true
  hung : ∀ j t, .hungUp j t ∈ s.log → s.closed j = true
  gone : ∀ x j, s.owners x = some (.stream j) → s.streams x = some j ∨
    s.upgrades j = some (.closing j) ∨ s.Leaving j

/-- The stream was ended without the tunnel being lost: its goroutine is over, with no reader at its
client, or a reader closed the client on a message of the other end. -/
def Parted (s : Traffic) (j : ℕ) : Prop :=
  (∃ e, s.upgrades j = some (.ended e)) ∧ ¬ s.BeingClosed j ∨ ∃ t, .hungUp j (some t) ∈ s.log

/-- No stream announced on the connection is left in the map or with an open client. -/
def TornDown (s : Traffic) (t : ℕ) : Prop :=
  ∀ x, s.Announced t x → s.streams x = none ∧ ∀ j, s.owners x = some (.stream j) → s.closed j = true

theorem Tended.initial : Traffic.initial.Tended := by
  refine ⟨nofun, nofun, nofun, ?_, nofun, nofun⟩
  rintro j (h | ⟨t, c, h⟩)
  · cases h
  · cases h

/-- Closing a client is never undone. -/
theorem closed_mono (he : Effect now T s a s') {j : ℕ} (hj : s.closed j = true) :
    s'.closed j = true := by
  have hang : ∀ k, Function.update s.closed k true j = true := by
    intro k
    by_cases hk : j = k
    · subst hk
      exact Function.update_self ..
    · rw [Function.update_of_ne hk, hj]
  cases he with
  | streamClosed k l hk => exact hang l
  | hungUp t written w k c ht => exact hang k
  | _ => exact hj

/-- An entry stays while its thread keeps its identifier. -/
theorem Tended.live_step (h : s.Tended) (he : Effect now T s a s') {x : Bytes} {j : ℕ}
    (hx : s'.streams x = some j) : (s'.upgrades j).bind StreamThread.id? = some x := by
  -- A thread without an identifier has no entry, and one with an identifier has no other entry.
  have other : ∀ {k thread thread'}, s.upgrades k = some thread →
      (thread.id? = some x → thread'.id? = some x) → s.streams x = some j →
        (s.upgrades.set k thread' j).bind StreamThread.id? = some x := by
    intro k thread thread' hk ht hx
    have hl := h.live x j hx
    by_cases hjk : j = k
    · subst hjk
      rw [hk] at hl
      exact Table.bind_set_self.trans (ht hl)
    · exact (Table.bind_set_of_ne hjk).trans hl
  cases he with
  | streamBegun k r fp thread hk ht =>
    have hl := h.live x j hx
    have hjk : j ≠ k := by
      rintro rfl
      rw [hk] at hl
      cases hl
    exact (Table.bind_set_of_ne hjk).trans hl
  | streamRefused k supported t r e hk => exact other hk nofun hx
  | streamRegistered k random t r hk ho =>
    rcases Table.set_eq_some_iff.mp hx with ⟨rfl, rfl⟩ | ⟨-, hx⟩
    · exact Table.bind_set_self
    · exact other hk nofun hx
  | streamRead k chunk t id thread hk ht =>
    refine other hk ?_ hx
    rcases ht with rfl | ⟨d, rfl, rfl⟩
    · exact fun hid => hid
    · exact fun hid => hid
  | streamSent k w t m id thread hk ht =>
    obtain ⟨thread', hk, hsends⟩ := Option.bind_eq_some_iff.mp hk
    refine other hk (fun hid => ?_) hx
    have heq : id = x := by
      cases thread' with
      | registered u o => cases hsends; exact Option.some.inj hid
      | sending u d => cases hsends; exact Option.some.inj hid
      | ending u y => cases hsends; exact Option.some.inj hid
      | _ => cases hsends
    subst heq
    rcases ht with rfl | rfl
    · rfl
    · rfl
  | streamRemoved k id thread hk ht =>
    obtain ⟨hne, hx⟩ := Table.erase_eq_some_iff.mp hx
    exact other hk (fun hid => absurd (Option.some.inj hid).symm hne) hx
  | streamClosed k l hk => exact other hk nofun hx
  | readClose t c k conn hc ht hs => exact h.live x j (Table.of_erase hx)
  | readIgnored t m pending streams hp hs => exact h.live x j (hs x j hx)
  | _ => exact h.live x j hx

/-- A reader that takes an entry out of the map closes its client next. -/
theorem streams_of_read {t : ℕ} {m : TunnelMessage} (h : s.read T t m = some s') {x : Bytes} {j : ℕ}
    (hx : s.streams x = some j) : s'.streams x = some j ∨ s'.BeingClosed j := by
  unfold read at h
  split at h
  · dsimp only at h
    split at h
    · split at h
      · cases h
        exact .inl hx
      · cases h
        exact .inl hx
    · split at h
      · cases h
        exact .inl hx
      · cases h
        exact .inl hx
    · rename_i c
      split at h
      · rename_i k hk
        cases h
        by_cases hxc : x = c.id
        · subst hxc
          cases hx.symm.trans hk
          exact .inr ⟨t, c, Table.set_self⟩
        · exact .inl ((Table.erase_of_ne hxc).trans hx)
      · rename_i hk
        cases h
        have hxc : x ≠ c.id := by
          rintro rfl
          cases hx.symm.trans hk
        exact .inl ((Table.erase_of_ne hxc).trans hx)
    · cases h
      exact .inl hx
    · cases h
      exact .inl hx
  · cases h

/-- The goroutine that takes its entry out of the map closes its client next. -/
theorem streams_of_streamRemove (hO : Owned T s) {k : ℕ} (h : s.streamRemove k = some s') {x : Bytes}
    {j : ℕ} (hx : s.streams x = some j) :
    s'.streams x = some j ∨ s'.upgrades j = some (.closing j) := by
  unfold streamRemove at h
  split at h
  · rename_i id hk
    cases h
    by_cases hxid : x = id
    · subst hxid
      have hown : s.owners x = some (.stream k) := hO.ids k x (by rw [hk]; rfl)
      cases (hO.streams x j hx).symm.trans hown
      right
      simp only [hx]
      exact Table.set_self
    · exact .inl ((Table.erase_of_ne hxid).trans hx)
  · cases h

/-- An entry stays in the map until somebody is about to close its client. -/
theorem streams_step (hO : Owned T s) (hs : s.step now T a = some s') {x : Bytes} {j : ℕ}
    (hx : s.streams x = some j) :
    s'.streams x = some j ∨ s'.upgrades j = some (.closing j) ∨ s'.Leaving j := by
  cases a with
  | read t m => exact (streams_of_read hs hx).imp_right fun hj => .inr (.inr hj)
  | streamRemove k => exact (streams_of_streamRemove hO hs hx).imp_right .inl
  | streamRegister k random =>
    cases step_effect hs with
    | streamRegistered _ _ t r hk ho =>
      refine .inl ((Table.set_of_ne ?_).trans hx)
      rintro rfl
      cases ho.symm.trans (hO.streams _ j hx)
  | _ => cases step_effect hs <;> exact .inl hx

/-- Whoever is about to close a client does so before it turns to anything else. -/
theorem closing_step (he : Effect now T s a s') {j : ℕ}
    (h : s.upgrades j = some (.closing j)) :
    s'.upgrades j = some (.closing j) ∨ s'.closed j = true := by
  have other : ∀ {k thread thread'}, s.upgrades k = some thread → thread ≠ .closing j →
      s.upgrades.set k thread' j = some (.closing j) := by
    intro k thread thread' hk hne
    apply Table.set_frame h
    rw [hk]
    exact fun he => hne (Option.some.inj he)
  cases he with
  | streamBegun k r fp thread hk ht => exact .inl (Table.set_frame_new h hk)
  | streamRefused k supported t r e hk => exact .inl (other hk (by simp))
  | streamRegistered k random t r hk ho => exact .inl (other hk (by simp))
  | streamRead k chunk t id thread hk ht => exact .inl (other hk (by simp))
  | streamSent k w t m id thread hk ht =>
    obtain ⟨thread', hk, hsends⟩ := Option.bind_eq_some_iff.mp hk
    refine .inl (other hk ?_)
    rintro rfl
    cases hsends
  | streamRemoved k id thread hk ht => exact .inl (other hk (by simp))
  | streamClosed k l hk =>
    by_cases hjk : j = k
    · subst hjk
      cases hk.symm.trans h
      exact .inr (Function.update_self ..)
    · exact .inl ((Table.set_of_ne hjk).trans h)
  | _ => exact .inl h

theorem Leaving.step {j : ℕ} (h : s.Leaving j) (he : Effect now T s a s') : s'.Leaving j := by
  obtain h | ⟨u, c, hu⟩ := h
  · exact .inl (closed_mono he h)
  have other : ∀ {t task}, s.readers t = none → s.readers.set t task u = some (.closing j c) :=
    fun ht => Table.set_frame_new hu ht
  have done : ∀ {t task}, s.readers t = some task → task ≠ .closing j c →
      s.readers.erase t u = some (.closing j c) := by
    intro t task ht hne
    apply Table.erase_frame hu
    rw [ht]
    exact fun he => hne (Option.some.inj he)
  cases he with
  | readResponse t resp i conn hc ht hp => exact .inr ⟨u, c, other ht⟩
  | readData t d k conn hc ht hs => exact .inr ⟨u, c, other ht⟩
  | readClose t d k conn hc ht hs => exact .inr ⟨u, c, other ht⟩
  | readPing t ht => exact .inr ⟨u, c, other ht⟩
  | delivered t written w i resp ht hc => exact .inr ⟨u, c, done ht (by simp)⟩
  | wrote t written w k d payload ht hp => exact .inr ⟨u, c, done ht (by simp)⟩
  | ponged t written w ht => exact .inr ⟨u, c, done ht (by simp)⟩
  | hungUp t written w k d ht =>
    by_cases hjk : j = k
    · exact .inl (hjk ▸ Function.update_self ..)
    · refine .inr ⟨u, c, done ht ?_⟩
      rintro he
      cases he
      exact hjk rfl
  | _ => exact .inr ⟨u, c, hu⟩

theorem Tended.own_step (h : s.Tended) (hO : Owned T s) (he : Effect now T s a s') {j k : ℕ}
    (hj : s'.upgrades j = some (.closing k)) : k = j := by
  have other : ∀ {l thread}, s.upgrades.set l thread j = some (.closing k) → thread ≠ .closing k →
      k = j := by
    intro l thread hj hne
    exact h.own j k (Table.of_set hj hne)
  cases he with
  | streamBegun l r fp thread hl ht => exact other hj (by rcases ht with rfl | ⟨t, -, rfl⟩ <;> simp)
  | streamRefused l supported t r e hl => exact other hj (by simp)
  | streamRegistered l random t r hl ho => exact other hj (by simp)
  | streamRead l chunk t id thread hl ht =>
    exact other hj (by rcases ht with rfl | ⟨d, -, rfl⟩ <;> simp)
  | streamSent l w t m id thread hl ht => exact other hj (by rcases ht with rfl | rfl <;> simp)
  | streamRemoved l id thread hl ht =>
    rcases Table.set_eq_some_iff.mp hj with ⟨rfl, rfl⟩ | ⟨-, hj⟩
    · rcases ht with ht | ⟨m, hm, ht⟩
      · cases ht
      · -- The goroutine and the entry belong to the owner of the identifier.
        cases ht
        have hown : s.owners id = some (.stream j) := hO.ids j id (by rw [hl]; rfl)
        cases (hO.streams id k hm).symm.trans hown
        rfl
    · exact h.own j k hj
  | streamClosed l m hl => exact other hj (by simp)
  | _ => exact h.own j k hj

/-- Where the entries come from. -/
theorem streams_of_step (he : Effect now T s a s') {x : Bytes} {j : ℕ} (hx : s'.streams x = some j) :
    s.streams x = some j ∨ s.owners x = none ∧ ∃ t r, s.upgrades j = some (.building t r) := by
  cases he with
  | streamRegistered k random t r hk ho =>
    rcases Table.set_eq_some_iff.mp hx with ⟨rfl, rfl⟩ | ⟨-, hx⟩
    · exact .inr ⟨ho, t, r, hk⟩
    · exact .inl hx
  | streamRemoved k id thread hk ht => exact .inl (Table.of_erase hx)
  | readClose t c k conn hc ht hs => exact .inl (Table.of_erase hx)
  | readIgnored t m pending streams hp hs => exact .inl (hs x j hx)
  | _ => exact .inl hx

/-- A client is turned to by its goroutine, or by a reader that has just taken its entry. -/
theorem leaving_of_step (hown : ∀ j k, s.upgrades j = some (.closing k) → k = j)
    (he : Effect now T s a s') {j : ℕ} (h : s'.Leaving j) :
    s.Leaving j ∨ s.upgrades j = some (.closing j) ∨
      ∃ x, s.streams x = some j ∧ s'.streams x = none := by
  -- What a reader takes up, unless it is this client, and what it is done with.
  have taken : ∀ {t task}, (∀ c, task ≠ .closing j c) →
      (s.closed j = true ∨ ∃ u c, s.readers.set t task u = some (.closing j c)) → s.Leaving j := by
    rintro t task hne (h | ⟨u, c, h⟩)
    · exact .inl h
    · exact .inr ⟨u, c, Table.of_set h (hne c)⟩
  have done : ∀ {t}, (s.closed j = true ∨ ∃ u c, s.readers.erase t u = some (.closing j c)) →
      s.Leaving j := by
    rintro t (h | ⟨u, c, h⟩)
    · exact .inl h
    · exact .inr ⟨u, c, Table.of_erase h⟩
  cases he with
  | streamClosed k l hk =>
    obtain rfl := hown k l hk
    rcases h with h | h
    · by_cases hjl : j = l
      · subst hjl
        exact .inr (.inl hk)
      · exact .inl (.inl ((Function.update_of_ne hjl ..).symm.trans h))
    · exact .inl (.inr h)
  | readResponse t resp i conn hc ht hp => exact .inl (taken (by simp) h)
  | readData t d k conn hc ht hs => exact .inl (taken (by simp) h)
  | readClose t d k conn hc ht hs =>
    rcases h with h | ⟨u, c, h⟩
    · exact .inl (.inl h)
    · rcases Table.set_eq_some_iff.mp h with ⟨-, h⟩ | ⟨-, h⟩
      · cases h
        exact .inr (.inr ⟨d.id, hs, Table.erase_self⟩)
      · exact .inl (.inr ⟨u, c, h⟩)
  | readPing t ht => exact .inl (taken (by simp) h)
  | delivered t written w i resp ht hc => exact .inl (done h)
  | wrote t written w k d payload ht hp => exact .inl (done h)
  | hungUp t written w k d ht =>
    by_cases hjk : j = k
    · subst hjk
      exact .inl (.inr ⟨t, d, ht⟩)
    · exact .inl (done (h.imp_left fun h => (Function.update_of_ne hjk ..).symm.trans h))
  | ponged t written w ht => exact .inl (done h)
  | _ => exact .inl h

theorem Tended.kept_step (h : s.Tended) (he : Effect now T s a s') {x : Bytes} {j : ℕ}
    (hx : s'.streams x = some j) : ¬ s'.Leaving j := by
  intro hj
  rcases streams_of_step he hx with hold | ⟨-, t, r, hb⟩
  · rcases leaving_of_step h.own he hj with hj | hj | ⟨y, hy, hn⟩
    · exact h.kept x j hold hj
    · have hl := h.live x j hold
      rw [hj] at hl
      cases hl
    · cases (h.live x j hold).symm.trans (h.live y j hy)
      cases hn.symm.trans hx
  · rcases leaving_of_step h.own he hj with hj | hj | ⟨y, hy, -⟩
    · obtain ⟨thread, hth, hbegun⟩ := h.begun j hj
      cases hb.symm.trans hth
      cases hbegun
    · cases hb.symm.trans hj
    · have hl := h.live y j hy
      rw [hb] at hl
      cases hl

theorem Tended.begun_step (h : s.Tended) (he : Effect now T s a s') {j : ℕ} (hj : s'.Leaving j) :
    ∃ thread, s'.upgrades j = some thread ∧ thread.begun = true := by
  rcases leaving_of_step h.own he hj with hj | hj | ⟨x, hx, -⟩
  · obtain ⟨thread, hth, hb⟩ := h.begun j hj
    exact Traffic.begun_step he hth hb
  · exact Traffic.begun_step he hj rfl
  · obtain ⟨thread, hth, hid⟩ := Option.bind_eq_some_iff.mp (h.live x j hx)
    apply Traffic.begun_step he hth
    cases thread with
    | building t r => cases hid
    | _ => rfl

theorem Tended.hung_step (h : s.Tended) (he : Effect now T s a s') {j : ℕ} {t : Option ℕ}
    (hj : .hungUp j t ∈ s'.log) : s'.closed j = true := by
  have old : .hungUp j t ∈ s.log → s'.closed j = true := fun hj => closed_mono he (h.hung j t hj)
  have skip : ∀ {e}, TrafficEvent.hungUp j t ∈ e :: s.log → e ≠ .hungUp j t → s'.closed j = true := by
    intro e hj hne
    rcases List.mem_cons.mp hj with hj | hj
    · exact absurd hj.symm hne
    · exact old hj
  have hang : ∀ {k u}, TrafficEvent.hungUp j t ∈ TrafficEvent.hungUp k u :: s.log →
      s'.closed k = true → s'.closed j = true := by
    intro k u hj hk
    rcases List.mem_cons.mp hj with hj | hj
    · cases hj
      exact hk
    · exact old hj
  cases he with
  | refused i r e hi => exact skip hj (by simp)
  | unconnected i r fp hi => exact skip hj (by simp)
  | received i req deadline u resp hi hc => exact skip hj (by simp)
  | cleared i req e hi => exact skip hj (by simp)
  | streamClosed k l hk => exact hang hj (Function.update_self ..)
  | readResponse u resp i conn hc ht hp => exact skip hj (by simp)
  | readData u d k conn hc ht hs => exact skip hj (by simp)
  | readClose u c k conn hc ht hs => exact skip hj (by simp)
  | readPing u ht => exact skip hj (by simp)
  | readIgnored u m pending streams hp hs => exact skip hj (by simp)
  | wrote u written w k d payload ht hp => exact skip hj (by simp)
  | hungUp u written w k c ht => exact hang hj (Function.update_self ..)
  | _ => exact old hj

theorem Tended.gone_step (h : s.Tended) (hO : Owned T s) (hs : s.step now T a = some s') {x : Bytes}
    {j : ℕ} (hx : s'.owners x = some (.stream j)) :
    s'.streams x = some j ∨ s'.upgrades j = some (.closing j) ∨ s'.Leaving j := by
  have he : Effect now T s a s' := step_effect hs
  have old : s.owners x = some (.stream j) →
      s'.streams x = some j ∨ s'.upgrades j = some (.closing j) ∨ s'.Leaving j := by
    intro hx
    rcases h.gone x j hx with hx | hj | hj
    · exact streams_step hO hs hx
    · exact .inr ((closing_step he hj).imp_right .inl)
    · exact .inr (.inr (hj.step he))
  cases he with
  | registered i random t r hi ho => exact old (Table.of_set hx (by simp))
  | streamRegistered k random t r hk ho =>
    rcases Table.set_eq_some_iff.mp hx with ⟨rfl, hj⟩ | ⟨-, hx⟩
    · cases hj
      exact .inl Table.set_self
    · exact old hx
  | _ => exact old hx

theorem Tended.step (h : s.Tended) (hO : Owned T s) (hs : s.step now T a = some s') :
    s'.Tended := by
  have he : Effect now T s a s' := step_effect hs
  constructor
  · intro x j hx
    exact h.live_step he hx
  · intro j k hj
    exact h.own_step hO he hj
  · intro x j hx
    exact h.kept_step he hx
  · intro j hj
    exact h.begun_step he hj
  · intro j t hj
    exact h.hung_step he hj
  · intro x j hx
    exact h.gone_step hO hs hx

/-- A parted stream is gone. -/
theorem Tended.of_parted (h : s.Tended) {x : Bytes} {j : ℕ} (hj : s.Parted j)
    (hx : s.owners x = some (.stream j)) : s.streams x ≠ some j ∧ s.closed j = true := by
  rcases hj with ⟨⟨e, he⟩, hn⟩ | ⟨t, hj⟩
  · have hlive : s.streams x ≠ some j := by
      intro hs
      have hl := h.live x j hs
      rw [he] at hl
      cases hl
    rcases h.gone x j hx with hs | hj | hj | hj
    · exact absurd hs hlive
    · cases he.symm.trans hj
    · exact ⟨hlive, hj⟩
    · exact absurd hj hn
  · have hc := h.hung j (some t) hj
    exact ⟨fun hs => h.kept x j hs (.inl hc), hc⟩

/-- A stream that was announced is not put into the map again, nor opened for another client. -/
theorem TornDown.step {t : ℕ} (h : s.TornDown t) (hO : Owned T s) (he : Effect now T s a s')
    (hn : ∀ x, s'.Announced t x → s.Announced t x) : s'.TornDown t := by
  intro x hx
  have hx := hn x hx
  obtain ⟨o, ho⟩ := hx.owned hO
  obtain ⟨hnone, hclosed⟩ := h x hx
  constructor
  · by_contra hne
    obtain ⟨j, hj⟩ := Option.ne_none_iff_exists'.mp hne
    rcases streams_of_step he hj with hj | ⟨hfree, -⟩
    · cases hnone.symm.trans hj
    · cases hfree.symm.trans ho
  · intro j hj
    rcases owners_step he hj with hj | ⟨hfree, -⟩
    · exact closed_mono he (hclosed j hj)
    · cases hfree.symm.trans ho

/-- A write that is lost announces nothing. -/
theorem outbox_of_lost {j : ℕ} {w : WriteOutcome} (he : Effect now T s (.streamSend j w) s')
    (hw : w.lost = true) : s'.outbox = s.outbox := by
  cases he with
  | streamSent k w t m id thread hk ht =>
    cases w with
    | sent => cases hw
    | failed delivered =>
      cases delivered with
      | false => rfl
      | true => cases hw

end Traffic

/-- A reader cleans up after its connection. -/
def Action.cleans : Action → Bool
  | .tunnel (.cleanup _) => true
  | _ => false

namespace Server

variable {P : Primitives} {env : Environment} {now : ℕ} {s s' : Server} {a : Action}

/-- Writing to a connection that was closed fails and sends nothing. -/
def refuses (s : Server) : Action → Bool
  | .traffic (.streamSend j w) =>
    match (s.traffic.upgrades j).bind StreamThread.sends with
    | some (t, _, _) => (s.tunnels.conns t).all fun c => !c.closed || w.lost
    | none => true
  | _ => true

/-- The cleanup of a tunnel finds all streams announced on it parted. -/
def Drained (s : Server) : Action → Prop
  | .tunnel (.cleanup t) => ∀ x j, s.traffic.Announced t x →
    s.traffic.owners x = some (.stream j) → s.traffic.Parted j
  | _ => True

theorem drained_of_cleans (h : a.cleans = false) : s.Drained a := by
  cases a with
  | tunnel b =>
    cases b with
    | cleanup t => cases h
    | _ => trivial
  | _ => trivial

/-- What the teardown of a tunnel relies on, and what it leaves. -/
structure Swept (P : Primitives) (s : Server) : Prop where
  authentic : s.Authentic P
  correlated : s.traffic.Correlated
  owned : Traffic.Owned s.tunnels s.traffic
  tended : s.traffic.Tended
  torn : ∀ t, s.tunnels.CleanedUp t → s.traffic.TornDown t

theorem Swept.initial : Server.initial.Swept P :=
  ⟨.initial, .initial, .initial, .initial, fun _ ⟨_, hc, _⟩ => nomatch hc⟩

/-- Nothing is announced on a connection that was cleaned up. -/
theorem Swept.announced_step (h : s.Swept P) {b : TrafficAction} {x : Traffic}
    (hg : s.refuses (.traffic b) = true) (he : Traffic.Effect now s.tunnels s.traffic b x) {t : ℕ}
    (ht : s.tunnels.CleanedUp t) {id : Bytes} (hid : x.Announced t id) :
    s.traffic.Announced t id := by
  rcases Traffic.announced_step he hid with hid | ⟨j, o, w, hj, rfl, rfl⟩
  · exact hid
  · obtain ⟨c, hc, hr⟩ := ht
    have hclosed : c.closed = true := h.authentic.ordered.closing t c hc (by rw [hr]; nofun)
    have hsends : (s.traffic.upgrades j).bind StreamThread.sends = some (t, .wsOpen o, o.id) := by
      rw [hj]
      rfl
    have hlost : w.lost = true := by simpa [refuses, hsends, hc, hclosed] using hg
    obtain ⟨m, hm, hid⟩ := hid
    exact ⟨m, Traffic.outbox_of_lost he hlost ▸ hm, hid⟩

/-- The cleanup itself tears down nothing, so all must have been done before. -/
theorem Swept.cleanup_step (h : s.Swept P) {b : TunnelAction} {T : Tunnels}
    (hg : s.Drained (.tunnel b)) (he : Tunnels.Effect s.registry.registrations s.tunnels b T) {t : ℕ}
    (ht : T.CleanedUp t) : s.traffic.TornDown t := by
  rcases ht.of_step h.authentic.ordered he with ht | rfl
  · exact h.torn t ht
  · intro x hx
    refine ⟨?_, fun j hj => (h.tended.of_parted (hg x j hx hj) hj).2⟩
    by_contra hne
    obtain ⟨j, hj⟩ := Option.ne_none_iff_exists'.mp hne
    have hown := h.owned.streams x j hj
    exact (h.tended.of_parted (hg x j hx hown) hown).1 hj

theorem Swept.step (h : s.Swept P) (hd : s.Drained a) (hg : s.refuses a = true)
    (hs : s.step P env now a = some s') : s'.Swept P := by
  have ha := h.authentic.step hs
  rcases step_cases hs with ⟨b, r, rfl, -, rfl⟩ | ⟨b, t, rfl, -, ht, rfl⟩ | ⟨b, x, rfl, hx, rfl⟩
  · exact ⟨ha, h.correlated, h.owned, h.tended, h.torn⟩
  · have he := Tunnels.step_effect ht
    exact ⟨ha, h.correlated, h.owned.mono (OnTunnel.step h.authentic.ordered he), h.tended,
      fun u hu => h.cleanup_step hd he hu⟩
  · have he := Traffic.step_effect hx
    refine ⟨ha, h.correlated.step he,
      h.owned.step h.authentic.ordered h.correlated.identified he, h.tended.step h.owned hx, ?_⟩
    intro t ht
    exact (h.torn t ht).step h.owned he fun id hid => h.announced_step hg he ht hid

end Server

/-- Teardown. Once the cleanup of a tunnel has run, no stream announced on it is in the map, and the
clients of all of them are closed. -/
theorem teardown_complete {P : Primitives} {env : Environment} {s : ℕ × Server}
    (hr : (relay P env).Reach (fun s a => s.2.Drained a.2 ∧ s.2.refuses a.2 = true) s) {t : ℕ}
    (ht : s.2.tunnels.CleanedUp t) : s.2.traffic.TornDown t := by
  have h : s.2.Swept P := by
    refine hr.invariant (P := fun s => s.2.Swept P) ?_ ?_
    · rintro ⟨now, s⟩ rfl
      exact .initial
    · rintro s a s' - ⟨hd, hg⟩ hs h
      obtain ⟨-, -, hs⟩ := Machine.timed_step.mp hs
      exact h.step hd hg hs
  exact h.torn t ht

/-- A client of the registered host asks for an upgrade. -/
def Vector.upgradeRequest : ClientRequest where
  request := { Vector.post with
    method := str "GET"
    host := Vector.host
    header := [(str "Connection", [str "Upgrade"]),
      (str "Upgrade", [str "tailscale-control-protocol"])] }
  url := str "/ts2021"
  body := none

def Vector.streamID : Bytes := randomHex (List.replicate 16 6)

/-- A stream is opened over the tunnel. -/
def openRun : List (ℕ × Action) :=
  connectRun ++ [(3, .traffic (.streamBegin 0 Vector.upgradeRequest)),
    (3, .traffic (.streamRegister 0 (List.replicate 16 6))), (3, .traffic (.streamSend 0 .sent))]

/-- The other end closes it, and then the tunnel is lost. -/
def partedRun : List (ℕ × Action) :=
  openRun ++ [(4, .traffic (.read 0 (.wsClose { id := Vector.streamID }))),
    (4, .traffic (.readerFinish 0 0 .sent)), (5, .tunnel (.readFail 0))]

theorem teardown_complete_partedRun :
    ∃ s s', (relay Vector.primitives {}).exec (0, Server.initial) partedRun = some s ∧
      (relay Vector.primitives {}).step s (5, .tunnel (.cleanup 0)) = some s' ∧
      s'.2.tunnels.CleanedUp 0 ∧ s'.2.traffic.Announced 0 Vector.streamID ∧
      s'.2.traffic.TornDown 0 := by
  have h : ((relay Vector.primitives {}).exec (0, Server.initial) partedRun).map
      (fun s => ((((relay Vector.primitives {}).step s (5, .tunnel (.cleanup 0))).isSome,
        (s.2.traffic.outbox 0).map TunnelMessage.opens), s.2.traffic.owners Vector.streamID,
        decide (.hungUp 0 (some 0) ∈ s.2.traffic.log))) =
      some ((true, [some Vector.streamID]), some (.stream 0), true) := by decide +kernel
  obtain ⟨s, hs, h⟩ := Option.map_eq_some_iff.mp h
  simp only [Prod.mk.injEq, decide_eq_true_eq] at h
  obtain ⟨⟨hstep, hout⟩, hown, hlog⟩ := h
  obtain ⟨s', hs'⟩ := Option.isSome_iff_exists.mp hstep
  -- No cleanup comes before the last one, which finds the only stream closed.
  have hm : (relay Vector.primitives {}).Meets (fun s a => s.2.refuses a.2 = true) (0, .initial)
      partedRun := by decide +kernel
  have hnone : ∀ a ∈ partedRun, a.2.cleans = false := by decide +kernel
  have hboth : (relay Vector.primitives {}).Meets
      (fun s a => s.2.Drained a.2 ∧ s.2.refuses a.2 = true) (0, .initial) partedRun :=
    hm.imp fun s a ha hg => ⟨Server.drained_of_cleans (hnone a ha), hg⟩
  have h₀ : (relay Vector.primitives {}).init (0, Server.initial) := rfl
  have hr := Machine.Reach.meets (.init h₀) hboth hs
  have opened : ∀ {x}, s.2.traffic.Announced 0 x → x = Vector.streamID := by
    rintro x ⟨m, hm, hx⟩
    have hmem := List.mem_map_of_mem (f := TunnelMessage.opens) hm
    rw [hout, hx, List.mem_singleton] at hmem
    exact Option.some.inj hmem
  have hd : s.2.Drained (.tunnel (.cleanup 0)) := by
    intro x j hx hj
    cases opened hx
    cases hown.symm.trans hj
    exact .inr ⟨0, hlog⟩
  have ht := (cleanup_step hs').2
  have ha : s'.2.traffic.Announced 0 Vector.streamID := by
    obtain ⟨m, hm, hx⟩ := List.mem_map.mp (hout ▸ List.mem_singleton_self (some Vector.streamID))
    obtain ⟨-, -, hstep⟩ := Machine.timed_step.mp hs'
    rcases Server.step_traffic hstep with ⟨htr, -⟩ | ⟨b, hb, -⟩
    · exact ⟨m, htr ▸ hm, hx⟩
    · cases hb
  exact ⟨s, s', hs, hs', ht, ha, teardown_complete (.step hr ⟨hd, rfl⟩ hs') ht⟩

/-- The tunnel is lost while the stream is open. -/
def lostRun : List (ℕ × Action) :=
  openRun ++ [(5, .tunnel (.readFail 0)), (5, .tunnel (.cleanup 0))]

/-- The run has no other client. -/
theorem lostRun_others (s : ℕ × Server) (a : ℕ × Action) (s' : ℕ × Server) (ha : a ∈ lostRun)
    (hs : (relay Vector.primitives {}).step s a = some s')
    (h : (∀ i, s.2.traffic.https i = none) ∧ ∀ j, j ≠ 0 → s.2.traffic.upgrades j = none) :
    (∀ i, s'.2.traffic.https i = none) ∧ ∀ j, j ≠ 0 → s'.2.traffic.upgrades j = none := by
  obtain ⟨-, -, hs⟩ := Machine.timed_step.mp hs
  rcases Server.step_traffic hs with ⟨htr, -⟩ | ⟨b, hb, he⟩
  · rw [htr]
    exact h
  · have other : ∀ {thread : StreamThread} j, j ≠ 0 → s.2.traffic.upgrades.set 0 thread j = none :=
      fun j hj => (Table.set_of_ne hj).trans (h.2 j hj)
    simp only [lostRun, openRun, connectRun, List.mem_append, List.mem_map, List.mem_cons,
      List.not_mem_nil, or_false] at ha
    rcases ha with ((⟨c, -, rfl⟩ | rfl | rfl) | rfl | rfl | rfl) | rfl | rfl
    · cases hb
    · cases hb
    · cases hb
    · cases hb
      generalize s'.2.traffic = x at he ⊢
      cases he with
      | streamBegun k r fp thread hk ht => exact ⟨h.1, other⟩
    · cases hb
      generalize s'.2.traffic = x at he ⊢
      cases he with
      | streamRegistered k random t r hk ho => exact ⟨h.1, other⟩
    · cases hb
      generalize s'.2.traffic = x at he ⊢
      cases he with
      | streamSent k w t m id thread hk ht => exact ⟨h.1, other⟩
    · cases hb
    · cases hb

/-- After the cleanup the stream is still in the map and its client open, although all handlers have
returned and left nothing but the goroutine that reads from the client. -/
theorem lostRun_keeps_stream :
    ∃ s, (relay Vector.primitives {}).exec (0, Server.initial) lostRun = some s ∧
      s.2.tunnels.CleanedUp 0 ∧ (∀ i, s.2.traffic.https i = none) ∧
      (∀ j thread, s.2.traffic.upgrades j = some thread →
        thread.announced = some (0, Vector.streamID)) ∧
      s.2.traffic.Announced 0 Vector.streamID ∧
      s.2.traffic.streams Vector.streamID = some 0 ∧
      s.2.traffic.owners Vector.streamID = some (.stream 0) ∧ s.2.traffic.closed 0 = false := by
  have h : ((relay Vector.primitives {}).exec (0, Server.initial) lostRun).map
      (fun s => (((s.2.tunnels.conns 0).map Conn.reader,
        (s.2.traffic.outbox 0).map TunnelMessage.opens),
        (s.2.traffic.upgrades 0).bind StreamThread.announced)) =
      some ((some .cleaned, [some Vector.streamID]), some (0, Vector.streamID)) := by decide +kernel
  have hmaps : ((relay Vector.primitives {}).exec (0, Server.initial) lostRun).map
      (fun s => ((s.2.traffic.streams Vector.streamID, s.2.traffic.owners Vector.streamID),
        s.2.traffic.closed 0)) = some ((some 0, some (.stream 0)), false) := by decide +kernel
  obtain ⟨s, hs, h⟩ := Option.map_eq_some_iff.mp h
  rw [hs, Option.map_some] at hmaps
  simp only [Option.some.injEq, Prod.mk.injEq] at h hmaps
  obtain ⟨⟨hconn, hout⟩, hthread⟩ := h
  obtain ⟨⟨hstreams, hown⟩, hclosed⟩ := hmaps
  obtain ⟨c, hc, hr⟩ := Option.map_eq_some_iff.mp hconn
  obtain ⟨m, hm, hx⟩ := List.mem_map.mp (hout ▸ List.mem_singleton_self (some Vector.streamID))
  have hrest := Machine.exec_invariant
    (Q := fun s => (∀ i, s.2.traffic.https i = none) ∧ ∀ j, j ≠ 0 → s.2.traffic.upgrades j = none)
    lostRun_others ⟨fun _ => rfl, fun _ _ => rfl⟩ hs
  refine ⟨s, hs, ⟨c, hc, hr⟩, hrest.1, fun j thread hj => ?_, ⟨m, hm, hx⟩, hstreams, hown, hclosed⟩
  by_cases hj0 : j = 0
  · subst hj0
    rw [hj] at hthread
    exact hthread
  · cases (hrest.2 j hj0).symm.trans hj

end HeadFwd.Relay
