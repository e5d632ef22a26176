import HeadFwd.Sidecar.Streams

/-! # From Headscale to the tunnel

The goroutine of a stream reads from Headscale and sends what it read under the
identifier of the stream. It does not look at the result: a tunnel that a write has
failed on takes nothing more, so that nothing is sent after a gap.
-/

namespace HeadFwd.Sidecar.Process

open Text Net Transition Tunnel

variable {s s' : Process} {a : ProcessAction}

/-- The bytes that the goroutine of a stream has read and not yet sent. -/
def unsent (s : Process) (h : Task) : Bytes := ((s.handlers h).map Handler.unsent).getD []

/-- Headscale's bytes go to the tunnel in order. -/
def Outbound (s : Process) : Prop :=
  ∀ h id, s.Opened h id →
    Relayed (s.failed h.1 = false) (s.links h).read (s.unsent h) (dataOf id (s.outbox h.1))

theorem unsent_of_set {u k : Task} {hd hd₀ : Handler} (hu : s.handlers u = some hd₀)
    (hs : s'.handlers = s.handlers.set u hd) (h : hd.unsent = hd₀.unsent) :
    s'.unsent k = s.unsent k := by
  rw [unsent, unsent, hs]
  by_cases hk : k = u
  · subst hk
    rw [Table.set_self, hu, Option.map_some, Option.map_some, h]
  · rw [Table.set_of_ne hk]

theorem unsent_of_ne {u k : Task} {hd : Handler} (hs : s'.handlers = s.handlers.set u hd)
    (hk : k ≠ u) : s'.unsent k = s.unsent k := by
  rw [unsent, unsent, hs, Table.set_of_ne hk]

theorem unsent_eq {k : Task} {hd : Handler} (hk : s.handlers k = some hd) :
    s.unsent k = hd.unsent := by
  rw [unsent, hk]
  rfl

/-- A message that has nothing for a stream. -/
theorem write_of_chunk {t u : ℕ} {m : TunnelMessage} {w : WriteResult} {id : Bytes}
    (hm : m.chunk id = []) :
    dataOf id ((s.write t m w).outbox u) = dataOf id (s.outbox u) ∧
      ((s.write t m w).failed u = false → s.failed u = false) := by
  rcases write_outbox (s := s) (t := t) (m := m) (w := w) u with ⟨ho, hf, -⟩ | ⟨rfl, hf, ho⟩
  · exact ⟨by rw [ho], hf⟩
  · exact ⟨by rw [ho, dataOf_append, dataOf_singleton, hm, List.append_nil], fun _ => hf⟩

theorem Outbound.initial : Process.initial.Outbound := by
  rintro h id ⟨m, hm, -⟩
  cases hm

/-- A stream that is opened has sent nothing before. -/
theorem dataOf_of_opens (hr : s.Rooted) (hd : s'.Distinct) {t : ℕ} {m : TunnelMessage} {id : Bytes}
    (hp : s'.received = s.push t m) (hm : m.opens = some id) : dataOf id (s.outbox t) = [] := by
  apply dataOf_eq_nil
  rintro d hd' rfl
  obtain ⟨⟨k, ho⟩, -⟩ := hr.sent t d hd'
  have hnew : s'.Opened (t, (s.received t).length) d.id := (opened_push hp).mpr (.inr ⟨rfl, hm⟩)
  cases hd _ _ _ ((opened_push hp).mpr (.inl ho)) hnew
  exact absurd ho.lt (lt_irrefl _)

/-- A message that is not the stream's own is written to a tunnel. -/
theorem Outbound.write (h : s.Outbound) {k : Task} {id : Bytes} (ho : s.Opened k id) {s₀ : Process}
    {t : ℕ} {m : TunnelMessage} {w : WriteResult} (hout : s₀.outbox = s.outbox)
    (hf : s₀.failed = s.failed) (hl : s₀.links = s.links) (hu : s₀.unsent k = s.unsent k)
    (hm : m.chunk id = []) :
    Relayed ((s₀.write t m w).failed k.1 = false) ((s₀.write t m w).links k).read
      ((s₀.write t m w).unsent k) (dataOf id ((s₀.write t m w).outbox k.1)) := by
  obtain ⟨hdata, hfail⟩ := write_of_chunk (s := s₀) (t := t) (u := k.1) (w := w) hm
  refine (h k id ho).keep (fun h => hf ▸ hfail h) ?_ ?_ ?_
  · rw [write_links, hl]
  · rw [unsent, write_handlers]
    exact hu
  · rw [hdata, hout]

/-- The goroutine of the stream sends the chunk it holds. -/
theorem Outbound.send_own (h : s.Outbound) {k : Task} {id p : Bytes} {w : WriteResult}
    (ho : s.Opened k id) (hu : s.handlers k = some (.sending id p)) {s₀ : Process}
    (hs : s₀ = { s with handlers := s.handlers.set k (.reading id) }) {m : TunnelMessage}
    (hm : m.chunk id = p) :
    Relayed ((s₀.write k.1 m w).failed k.1 = false) ((s₀.write k.1 m w).links k).read
      ((s₀.write k.1 m w).unsent k) (dataOf id ((s₀.write k.1 m w).outbox k.1)) := by
  have hk := h k id ho
  rw [unsent_eq hu] at hk
  have hun : (s₀.write k.1 m w).unsent k = [] := by
    rw [unsent, write_handlers, hs]
    exact unsent_eq (s := { s with handlers := s.handlers.set k (.reading id) }) Table.set_self
  rw [hun, write_links]
  subst hs
  rcases write_outbox (t := k.1) (m := m) (w := w) k.1 with ⟨hout, -, hf⟩ | ⟨-, hf, hout⟩
  · rw [hout]
    exact hk.dead (by rw [hf rfl]; nofun)
  · rw [hout, dataOf_append, dataOf_singleton, hm]
    exact hk.pass hf

theorem Outbound.opened_step (h : s.Outbound) (hr : s.Rooted) (hd : s.Distinct) (he : Effect s a s')
    {k : Task} {id : Bytes} (ho : s.Opened k id) :
    Relayed (s'.failed k.1 = false) (s'.links k).read (s'.unsent k) (dataOf id (s'.outbox k.1)) := by
  have hk := h k id ho
  cases he with
  | started t m hd' hl hm =>
    have hne : k ≠ (t, (s.received t).length) := by
      rintro rfl
      exact absurd ho.lt (lt_irrefl _)
    exact hk.keep (fun h => h) rfl (unsent_of_ne rfl hne) rfl
  | wrote t written u p hu =>
    refine hk.keep (fun h => h) (view_update Link.read ?_) rfl rfl
    rw [Link.write]
    split_ifs <;> rfl
  | closed t written u hu => exact hk.keep (fun h => h) (view_update Link.read rfl) rfl rfl
  | moved u hd₀ hd' hu hs hearly hun hun' =>
    exact hk.keep (fun h => h) rfl (unsent_of_set hu rfl (hun'.trans hun.symm)) rfl
  | requested u ok o addr raw hu =>
    exact hk.keep (fun h => h) (view_update Link.read rfl) (unsent_of_set hu rfl rfl) rfl
  | replied u w resp hu => exact h.write ho rfl rfl rfl (unsent_of_set hu rfl rfl) rfl
  | stored u id' hu => exact hk.keep (fun h => h) rfl (unsent_of_set hu rfl rfl) rfl
  | read u id' chunk hu =>
    by_cases hku : k = u
    · subst hku
      rw [unsent_eq hu] at hk
      refine (hk.take (fun h => h) chunk).keep (fun h => h) ?_ ?_ rfl
      · simp only [Function.update_self]
      · exact (unsent_eq Table.set_self).trans rfl
    · refine hk.keep (fun h => h) ?_ (unsent_of_ne rfl hku) rfl
      simp only [Function.update_of_ne hku]
  | sent u w id' p hu =>
    have ho' : s.Opened u id' := hr.handlers u _ id' hu rfl
    by_cases hku : k = u
    · subst hku
      obtain rfl := ho.eq ho'
      exact h.send_own ho hu rfl (by simp [TunnelMessage.chunk])
    · refine h.write ho rfl rfl rfl (unsent_of_ne rfl hku) (if_neg ?_)
      rintro rfl
      exact hku (hd k u _ ho ho')
  | sentClose u w id' hu => exact h.write ho rfl rfl rfl (unsent_of_set hu rfl rfl) rfl
  | deleted u id' hu => exact hk.keep (fun h => h) rfl (unsent_of_set hu rfl rfl) rfl
  | left u hu =>
    exact hk.keep (fun h => h) (view_update Link.read rfl) (unsent_of_set hu rfl rfl) rfl
  | pinged t w => exact h.write ho rfl rfl rfl rfl rfl
  | _ => exact hk

theorem Outbound.step (h : s.Outbound) (hr : s.Rooted) (hd : s'.Distinct) (he : Effect s a s') :
    s'.Outbound := by
  intro k id ho'
  by_cases ho : s.Opened k id
  · exact h.opened_step hr (hd.of_step he) he ho
  · -- The stream has just been opened: nothing has been read, held or sent.
    cases he with
    | started t m hd' hl hm =>
      obtain ⟨rfl, hid⟩ := ((opened_push (m := m) rfl).mp ho').resolve_left ho
      obtain ⟨hh, hlink⟩ := hr.unborn (t, (s.received t).length) le_rfl
      have hu : hd'.unsent = [] := by
        rcases hm with ⟨req, -, rfl⟩ | ⟨o, o', -, rfl, -⟩
        · rfl
        · rfl
      refine Relayed.nil.keep (fun h => h) ?_ ((unsent_eq Table.set_self).trans hu)
        (dataOf_of_opens hr hd rfl hid)
      exact congrArg Link.read hlink
    | delivered t d u p hl hs hp =>
      cases (((opened_push (m := .wsData d) rfl).mp ho').resolve_left ho).2
    | hungUp t c u hl hs =>
      cases (((opened_push (m := .wsClose c) rfl).mp ho').resolve_left ho).2
    | ignored t m hl hopen hdata hc =>
      cases hopen.symm.trans (((opened_push (m := m) rfl).mp ho').resolve_left ho).2
    | replied u w resp hu => exact absurd (by rwa [Opened, write_received] at ho') ho
    | sent u w id' p hu => exact absurd (by rwa [Opened, write_received] at ho') ho
    | sentClose u w id' hu => exact absurd (by rwa [Opened, write_received] at ho') ho
    | pinged t w => exact absurd (by rwa [Opened, write_received] at ho') ho
    | _ => exact absurd ho' ho

end HeadFwd.Sidecar.Process
