import HeadFwd.Sidecar.Streams

/-! # Opening a stream

The goroutine that opens a stream resolves the address of Headscale, dials it,
decodes the body and writes the raw request. At each of these it may give up. It
then closes what it has opened itself, logs the error and returns; the relay, which
holds the client's connection for the stream, is told nothing.
-/

namespace HeadFwd.Sidecar

open Text Net Transition Tunnel

/-- The steps in which a goroutine opens its stream. -/
def Handler.stepsLeft : Handler → ℕ
  | .opening _ => 3
  | .dialled _ _ => 2
  | .storing _ => 1
  | _ => 0

namespace Process

/-- The goroutine is at work on opening the stream. -/
def Opening (s : Process) (h : Task) (id : Bytes) : Prop :=
  ∃ hd, s.handlers h = some hd ∧ hd.early = true ∧ hd.stream = some id

/-- The stream is in the map and its goroutine reads from Headscale. -/
def Registered (s : Process) (h : Task) (id : Bytes) : Prop :=
  s.streamConns id = some h ∧ s.handlers h = some (.reading id)

/-- The process lives on. A goroutine at work on opening a stream still is, has registered it, or has
sent its end over the tunnel. -/
def Answers (s s' : Process) : Prop :=
  s'.crashed = none ∧ ∀ h id, s.Opening h id → s'.Opening h id ∨ s'.Registered h id ∨
    ∃ c, c.id = id ∧ s'.outbox h.1 = s.outbox h.1 ++ [.wsClose c]

variable (cfg : Settings)

/-- What opening a stream needs goes well: the address and the dial, the body, the URL and the write
of the raw request. -/
def Succeeds (s : Process) : ProcessAction → Prop
  | .dial h ok => ∀ o, s.handlers h = some (.opening o) →
      ok = true ∧ (headscaleDialAddress cfg).isSome
  | .request h ok => ∀ o addr, s.handlers h = some (.dialled o addr) →
      ok = true ∧ (openBody o).isSome ∧ (cfg.parse o.url).isSome
  | _ => True

/-- The goroutine that takes a step in opening a stream. -/
def openerOf : ProcessAction → Option Task
  | .dial h _ => some h
  | .request h _ => some h
  | .store h => some h
  | _ => none

variable {cfg} {s s' : Process} {a : ProcessAction}

/-- A goroutine keeps its place when another one moves. -/
theorem Opening.of_set {h u : Task} {id : Bytes} {hd : Handler} (ho : s.Opening h id) (hu : h ≠ u)
    (hs : s'.handlers = s.handlers.set u hd) : s'.Opening h id := by
  obtain ⟨hd₀, hh, he, hid⟩ := ho
  refine ⟨hd₀, ?_, he, hid⟩
  rw [hs, Table.set_of_ne hu, hh]

/-- Steps of other goroutines leave the opening of a stream alone. -/
theorem Opening.of_not_early {h u : Task} {id : Bytes} {hd : Handler} (ho : s.Opening h id)
    (hu : ∀ hd₀, s.handlers u = some hd₀ → hd₀.early = false)
    (hs : s'.handlers = s.handlers.set u hd) : s'.Opening h id := by
  refine ho.of_set ?_ hs
  rintro rfl
  obtain ⟨hd₀, hh, he, -⟩ := ho
  cases he.symm.trans (hu hd₀ hh)

theorem Opening.of_handlers {h : Task} {id : Bytes} (ho : s.Opening h id)
    (hs : s'.handlers = s.handlers) : s'.Opening h id := by
  rwa [Opening, hs]

theorem Opening.receive {t : ℕ} {m : TunnelMessage} {h : Task} {id : Bytes} (ho : s.Opening h id)
    (hr : s.Rooted) (hs : s.receive t m = some s') : s'.Opening h id := by
  have hnew : ∀ hd₀, s.handlers (t, (s.received t).length) = some hd₀ → hd₀.early = false := by
    intro hd₀ hh
    cases (hr.unborn (t, (s.received t).length) le_rfl).1.symm.trans hh
  unfold Process.receive at hs
  dsimp only at hs
  split_ifs at hs
  split at hs
  · cases hs
    exact ho.of_not_early hnew rfl
  · cases hs
    exact ho.of_not_early hnew rfl
  · split at hs
    · cases hs
      exact ho.of_handlers rfl
    · cases hs
      exact ho.of_handlers rfl
  · split at hs
    · cases hs
      exact ho.of_handlers rfl
    · cases hs
      exact ho.of_handlers rfl
  · cases hs
    exact ho.of_handlers rfl

/-- Only the steps of its own goroutine have to do with the opening of a stream. -/
theorem Opening.step {h : Task} {id : Bytes} (ho : s.Opening h id) (hr : s.Rooted)
    (ha : openerOf a = none) (hs : s.step cfg a = some s') : s'.Opening h id := by
  -- The goroutine that moves is past the opening of a stream.
  have past : ∀ {u hd₀}, s.handlers u = some hd₀ → hd₀.early = false →
      ∀ hd, s.handlers u = some hd → hd.early = false := by
    intro u hd₀ hu he hd hd'
    cases hu.symm.trans hd'
    exact he
  unfold Process.step at hs
  split_ifs at hs
  cases a with
  | receive t m => exact ho.receive hr hs
  | finish t written =>
    simp only [finish] at hs
    split at hs
    · cases hs
      exact ho.of_handlers rfl
    · cases hs
      exact ho.of_handlers rfl
    · cases hs
  | respond u headscale =>
    simp only [respond, Go.handleRequest_eq] at hs
    split at hs
    · rename_i hu
      cases hs
      exact ho.of_not_early (past hu rfl) rfl
    · cases hs
  | reply u w =>
    simp only [reply] at hs
    split at hs
    · rename_i hu
      cases hs
      exact ho.of_not_early (past hu rfl) (write_handlers ..)
    · cases hs
  | read u chunk =>
    simp only [Process.read] at hs
    split at hs
    · rename_i hu
      cases hs
      exact ho.of_not_early (past hu rfl) rfl
    · rename_i hu
      split_ifs at hs
      cases hs
      exact ho.of_not_early (past hu rfl) rfl
    · cases hs
  | send u w =>
    simp only [send] at hs
    split at hs
    · rename_i hu
      cases hs
      exact ho.of_not_early (past hu rfl) (write_handlers ..)
    · rename_i hu
      cases hs
      exact ho.of_not_early (past hu rfl) (write_handlers ..)
    · cases hs
  | delete u =>
    simp only [delete] at hs
    split at hs
    · rename_i hu
      cases hs
      exact ho.of_not_early (past hu rfl) rfl
    · cases hs
  | close u =>
    simp only [close] at hs
    split at hs
    · rename_i hu
      cases hs
      exact ho.of_not_early (past hu rfl) rfl
    · cases hs
  | ping t w =>
    cases hs
    exact ho.of_handlers (write_handlers ..)
  | dial u ok => cases ha
  | request u ok => cases ha
  | store u => cases ha

/-- A goroutine moves on with its stream. -/
theorem Answers.of_move {h : Task} {hd₀ hd : Handler} (hc : s'.crashed = none)
    (hh : s.handlers h = some hd₀) (hs : s'.handlers = s.handlers.set h hd)
    (hid : ∀ id, hd₀.stream = some id → s'.Opening h id ∨ s'.Registered h id) : s.Answers s' := by
  refine ⟨hc, ?_⟩
  intro k id ho
  by_cases hk : k = h
  · subst hk
    obtain ⟨hd', hh', -, hid'⟩ := ho
    cases hh.symm.trans hh'
    exact (hid id hid').imp_right .inl
  · exact .inl (ho.of_set hk hs)

/-- A goroutine gives up on its stream. -/
theorem not_answers_of_gaveUp {h : Task} {id : Bytes} {hd : Handler} (ho : s.Opening h id)
    (hs : s'.handlers = s.handlers.set h hd) (hd₀ : hd.early = false ∧ hd.stream = none)
    (hout : s'.outbox = s.outbox) : ¬ s.Answers s' := by
  rintro ⟨-, ha⟩
  have hh : s'.handlers h = some hd := by rw [hs, Table.set_self]
  rcases ha h id ho with ⟨hd', hh', he, -⟩ | ⟨-, hread⟩ | ⟨c, -, hsent⟩
  · cases hh.symm.trans hh'
    cases he.symm.trans hd₀.1
  · cases hh.symm.trans hread
    cases hd₀.2
  · rw [hout] at hsent
    simpa using congrArg List.length hsent

theorem answers_dial_iff {h : Task} {ok : Bool} (hc : s.crashed = none)
    (hs : s.dial cfg h ok = some s') : s.Answers s' ↔ s.Succeeds cfg (.dial h ok) := by
  unfold dial at hs
  split at hs
  · rename_i o hh
    have ho : s.Opening h o.id := ⟨_, hh, rfl, rfl⟩
    have hcond : s.Succeeds cfg (.dial h ok) ↔ ok = true ∧ (headscaleDialAddress cfg).isSome := by
      simp [Succeeds, hh]
    rw [hcond]
    split at hs
    · rename_i addr haddr
      cases hs
      refine iff_of_true ?_ ⟨rfl, by rw [haddr]; rfl⟩
      refine .of_move hc hh rfl ?_
      rintro id ⟨⟩
      exact .inl ⟨_, Table.set_self, rfl, rfl⟩
    · rename_i hfail
      cases hs
      refine iff_of_false (not_answers_of_gaveUp ho rfl ⟨rfl, rfl⟩ rfl) ?_
      rintro ⟨rfl, hsome⟩
      obtain ⟨addr, haddr⟩ := Option.isSome_iff_exists.mp hsome
      exact hfail addr haddr rfl
  · cases hs

theorem answers_request_iff {h : Task} {ok : Bool} (hc : s.crashed = none)
    (hs : s.request cfg h ok = some s') : s.Answers s' ↔ s.Succeeds cfg (.request h ok) := by
  unfold request at hs
  split at hs
  · rename_i o addr hh
    have ho : s.Opening h o.id := ⟨_, hh, rfl, rfl⟩
    have hcond : s.Succeeds cfg (.request h ok) ↔
        ok = true ∧ (openBody o).isSome ∧ (cfg.parse o.url).isSome := by
      simp [Succeeds, hh]
    rw [hcond]
    split at hs
    · rename_i hbody
      cases hs
      refine iff_of_false (not_answers_of_gaveUp ho rfl ⟨rfl, rfl⟩ rfl) ?_
      simp [hbody]
    · rename_i body hbody
      split at hs
      · rename_i p hraw
        cases hs
        obtain ⟨hurl, -⟩ := (Go.buildRawRequest_eq_error cfg).mp hraw
        apply iff_of_false
        · rintro ⟨hcrash, -⟩
          cases hcrash
        · simp [hurl]
      · rename_i raw hraw
        have hurl : (cfg.parse o.url).isSome := by
          rw [Option.isSome_iff_ne_none]
          intro hn
          cases hraw.symm.trans ((Go.buildRawRequest_eq_error cfg).mpr ⟨hn, rfl⟩)
        split_ifs at hs with hok
        · cases hs
          refine iff_of_true ?_ ⟨hok, by rw [hbody]; rfl, hurl⟩
          refine .of_move hc hh rfl ?_
          rintro id ⟨⟩
          exact .inl ⟨_, Table.set_self, rfl, rfl⟩
        · cases hs
          refine iff_of_false (not_answers_of_gaveUp ho rfl ⟨rfl, rfl⟩ rfl) ?_
          exact fun h => hok h.1
  · cases hs

theorem answers_store {h : Task} (hc : s.crashed = none) (hs : s.store h = some s') :
    s.Answers s' := by
  unfold store at hs
  split at hs
  · rename_i id hh
    cases hs
    refine .of_move hc hh rfl ?_
    rintro id' ⟨⟩
    exact .inr ⟨Table.set_self, Table.set_self⟩
  · cases hs

/-- One step answers exactly when what it needs goes well. -/
theorem answers_iff (hr : s.Rooted) (hs : s.step cfg a = some s') :
    s.Answers s' ↔ s.Succeeds cfg a := by
  have hc : s.crashed = none := by
    unfold Process.step at hs
    split_ifs at hs with hc
    simpa using hc
  have other : openerOf a = none → s.Parses cfg a → s.Answers s' := by
    intro ha hp
    exact ⟨(step_crashed hc hs).mpr hp, fun h id ho => .inl (ho.step hr ha hs)⟩
  have own : ∀ {x}, (if s.crashed.isSome then none else x) = some s' → x = some s' := by
    intro x hx
    simpa [hc] using hx
  cases a with
  | dial h ok => exact answers_dial_iff hc (own hs)
  | request h ok => exact answers_request_iff hc (own hs)
  | store h => exact iff_of_true (answers_store hc (own hs)) trivial
  | _ => exact iff_of_true (other rfl (by simp [Parses, building])) trivial

/-- How many steps of its own a goroutine is away from having opened its stream. -/
def stepsLeft (s : Process) (h : Task) : ℕ := ((s.handlers h).map Handler.stepsLeft).getD 0

/-- A goroutine at work on opening a stream can always take its next step, however it turns out. -/
theorem Opening.progress {h : Task} {id : Bytes} (ho : s.Opening h id) (hc : s.crashed = none) :
    ∃ next : Bool → ProcessAction, ∀ ok, openerOf (next ok) = some h ∧
      ∃ u, s.step cfg (next ok) = some u ∧ (u.crashed = none → u.stepsLeft h < s.stepsLeft h) := by
  obtain ⟨hd, hh, he, hid⟩ := ho
  -- A step that sets the goroutine's state to one with fewer steps left.
  have fewer : ∀ {u : Process} {hd' : Handler}, u.handlers = s.handlers.set h hd' →
      hd'.stepsLeft < hd.stepsLeft → u.stepsLeft h < s.stepsLeft h := by
    intro u hd' hu hlt
    simpa [stepsLeft, hu, hh] using hlt
  cases hd with
  | opening o =>
    refine ⟨.dial h, fun ok => ⟨rfl, ?_⟩⟩
    simp only [Process.step, hc, dial, hh, Option.isSome_none, Bool.false_eq_true, if_false]
    split
    · exact ⟨_, rfl, fun _ => fewer rfl (by simp [Handler.stepsLeft])⟩
    · exact ⟨_, rfl, fun _ => fewer rfl (by simp [Handler.stepsLeft])⟩
  | dialled o addr =>
    refine ⟨.request h, fun ok => ⟨rfl, ?_⟩⟩
    simp only [Process.step, hc, request, hh, Option.isSome_none, Bool.false_eq_true, if_false]
    split
    · exact ⟨_, rfl, fun _ => fewer rfl (by simp [Handler.stepsLeft])⟩
    · split
      · exact ⟨_, rfl, by rintro ⟨⟩⟩
      · split_ifs
        · exact ⟨_, rfl, fun _ => fewer rfl (by simp [Handler.stepsLeft])⟩
        · exact ⟨_, rfl, fun _ => fewer rfl (by simp [Handler.stepsLeft])⟩
  | storing id =>
    refine ⟨fun _ => .store h, fun _ => ⟨rfl, ?_⟩⟩
    simp only [Process.step, hc, store, hh, Option.isSome_none, Bool.false_eq_true, if_false]
    exact ⟨_, rfl, fun _ => fewer rfl (by simp [Handler.stepsLeft])⟩
  | _ => cases he

end Process

/-- In a run of the sidecar every stream that a goroutine opens is registered, or its end is sent to
the relay, exactly when the address, every dial, every body, every URL and every write of a raw
request is in order. A goroutine at work on a stream gets through in at most three steps. -/
theorem ws_open_answered_iff (cfg : Settings) {as : List ProcessAction} {s : Process}
    (hr : (sidecar cfg).exec .initial as = some s) :
    ((sidecar cfg).Steps (fun s _ s' => s.Answers s') .initial as ↔
      (sidecar cfg).Meets (fun s a => s.Succeeds cfg a) .initial as) ∧
    ∀ h id, s.Opening h id → s.crashed = none → s.stepsLeft h ≤ 3 ∧
      ∃ next : Bool → ProcessAction, ∀ ok, Process.openerOf (next ok) = some h ∧
        ∃ u, s.step cfg (next ok) = some u ∧ (u.crashed = none → u.stepsLeft h < s.stepsLeft h) := by
  constructor
  · refine Machine.steps_iff_meets (I := Process.Rooted) ?_ ?_ .initial hr
    · exact fun s a s' h _ hs => h.step (Process.step_effect hs)
    · exact fun s a s' h hs => Process.answers_iff h hs
  · intro h id ho hc
    refine ⟨?_, ho.progress hc⟩
    obtain ⟨hd, hh, -, -⟩ := ho
    cases hd <;> simp [Process.stepsLeft, hh, Handler.stepsLeft]

theorem ws_open_answered_openRun :
    (sidecar percentSettings).Steps (fun s _ s' => s.Answers s') .initial
      (openRun (str "/ts2021") ++ [.store (0, 0)]) := by
  obtain ⟨s, hr⟩ : ∃ s, (sidecar percentSettings).exec .initial
      (openRun (str "/ts2021") ++ [.store (0, 0)]) = some s := ⟨_, rfl⟩
  refine (ws_open_answered_iff percentSettings hr).1.mpr ?_
  refine ⟨trivial, fun s₁ h₁ => ⟨fun _ _ => ⟨rfl, rfl⟩, fun s₂ h₂ => ⟨?_, fun _ _ => ⟨trivial, ?_⟩⟩⟩⟩
  · intro o addr hh
    cases h₁
    cases h₂
    cases hh
    exact ⟨rfl, rfl, by decide +kernel⟩
  · exact fun _ _ => trivial

/-- Headscale is down: the dial of the sidecar fails. -/
def refusedRun : List ProcessAction :=
  [.receive 0 (.wsOpen ⟨str "s", str "GET", str "/ts2021", [], none, false⟩), .dial (0, 0) false]

/-- The goroutine is gone, the stream is in no map, and the relay has been told nothing. -/
theorem refusedRun_silent :
    ∃ s, (sidecar percentSettings).exec .initial refusedRun = some s ∧
      s.handlers (0, 0) = some .ended ∧ s.streamConns (str "s") = none ∧ s.outbox 0 = [] ∧
      ¬ (sidecar percentSettings).Steps (fun s _ s' => s.Answers s') .initial refusedRun := by
  let o : WsOpen := ⟨str "s", str "GET", str "/ts2021", [], none, false⟩
  obtain ⟨t, ht, hh, hc, hmap, hout⟩ : ∃ t, (sidecar percentSettings).step .initial
      (.receive 0 (.wsOpen o)) = some t ∧ t.handlers (0, 0) = some (.opening o) ∧ t.crashed = none ∧
        t.streamConns (str "s") = none ∧ t.outbox 0 = [] := ⟨_, rfl, rfl, rfl, rfl, rfl⟩
  have hu : (sidecar percentSettings).step t (.dial (0, 0) false) =
      some { t with handlers := t.handlers.set (0, 0) .ended } := by
    simp [sidecar, Process.step, Process.dial, hc, hh]
  refine ⟨{ t with handlers := t.handlers.set (0, 0) .ended }, ?_, by simp, hmap, hout, ?_⟩
  · rw [refusedRun, Machine.exec_cons, ht, Option.bind_some, Machine.exec_cons, hu]
    rfl
  · intro h
    obtain ⟨-, h⟩ := h t ht
    have hanswers : t.Answers { t with handlers := t.handlers.set (0, 0) .ended } := (h _ hu).1
    have hopening : t.Opening (0, 0) o.id := ⟨_, hh, rfl, rfl⟩
    exact absurd hanswers (Process.not_answers_of_gaveUp hopening rfl ⟨rfl, rfl⟩ rfl)

end HeadFwd.Sidecar
