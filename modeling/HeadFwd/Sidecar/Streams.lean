import HeadFwd.Sidecar.Process
import HeadFwd.Transition.Stage
import HeadFwd.Tunnel.Streams

/-! # Streams through the sidecar

A stream runs through the sidecar in both directions: from the messages of its
tunnel to its connection with Headscale, and back. Each direction is a stage. The
goroutine of a stream is found by its identifier, which the relay draws afresh, so
that no two goroutines are started for the same one.
-/

namespace HeadFwd.Sidecar

open Text Net Transition Tunnel

/-- The stream a goroutine serves. -/
def Handler.stream : Handler → Option Bytes
  | .opening o => some o.id
  | .dialled o _ => some o.id
  | .storing id => some id
  | .reading id => some id
  | .sending id _ => some id
  | .closing id => some id
  | .deleting id => some id
  | _ => none

/-- The connection of the stream is not yet in the map. -/
def Handler.early : Handler → Bool
  | .opening _ => true
  | .dialled _ _ => true
  | .storing _ => true
  | _ => false

/-- The bytes a goroutine has read and not yet sent. -/
def Handler.unsent : Handler → Bytes
  | .sending _ payload => payload
  | _ => []

/-- The goroutine whose connection a loop is about to use. -/
def LoopTask.task : LoopTask → Task
  | .writing h _ => h
  | .closing h => h

/-- What a write to Headscale makes of a connection. -/
def Link.write (l : Link) (payload : Bytes) (written : ℕ) : Link :=
  if l.broken || l.closed then l
  else { l with
    written := l.written ++ payload.take written
    broken := written < payload.length }

namespace Process

/-- The messages read on a connection, with one more. -/
def push (s : Process) (t : ℕ) (m : TunnelMessage) : ℕ → List TunnelMessage :=
  Function.update s.received t (s.received t ++ [m])

/-- What a step does to the goroutines, the streams and the messages. -/
inductive Effect (s : Process) : ProcessAction → Process → Prop where
  | started (t : ℕ) (m : TunnelMessage) (hd : Handler) (hl : s.loops t = none)
    (hm : (∃ req, m = .request req ∧ hd = .requested req) ∨
      ∃ o o', m = .wsOpen o ∧ hd = .opening o' ∧ o'.id = o.id) :
    Effect s (.receive t m) { s with
      received := s.push t m
      handlers := s.handlers.set (t, (s.received t).length) hd }
  | delivered (t : ℕ) (d : WsData) (h : Task) (p : Bytes) (hl : s.loops t = none)
    (hs : s.streamConns d.id = some h) (hp : payload d = some p) :
    Effect s (.receive t (.wsData d)) { s with
      received := s.push t (.wsData d)
      loops := s.loops.set t (.writing h p) }
  | hungUp (t : ℕ) (c : WsClose) (h : Task) (hl : s.loops t = none)
    (hs : s.streamConns c.id = some h) :
    Effect s (.receive t (.wsClose c)) { s with
      received := s.push t (.wsClose c)
      streamConns := s.streamConns.erase c.id
      loops := s.loops.set t (.closing h) }
  | ignored (t : ℕ) (m : TunnelMessage) (hl : s.loops t = none) (ho : m.opens = none)
    (hd : ∀ d, m = .wsData d → s.streamConns d.id = none ∨ payload d = none)
    (hc : ∀ c, m = .wsClose c → s.streamConns c.id = none) :
    Effect s (.receive t m) { s with received := s.push t m }
  | wrote (t written : ℕ) (h : Task) (p : Bytes) (hl : s.loops t = some (.writing h p)) :
    Effect s (.finish t written) { s with
      loops := s.loops.erase t
      links := Function.update s.links h ((s.links h).write p written) }
  | closed (t written : ℕ) (h : Task) (hl : s.loops t = some (.closing h)) :
    Effect s (.finish t written) { s with
      loops := s.loops.erase t
      links := Function.update s.links h { s.links h with closed := true } }
  | crashed {a : ProcessAction} (p : Panic) : Effect s a { s with crashed := some p }
  | moved {a : ProcessAction} (h : Task) (hd hd' : Handler) (hh : s.handlers h = some hd)
    (hs : hd'.stream = none ∨ hd'.stream = hd.stream) (he : hd'.early = true → hd.early = true)
    (hu : hd.unsent = []) (hu' : hd'.unsent = []) :
    Effect s a { s with handlers := s.handlers.set h hd' }
  | requested (h : Task) (ok : Bool) (o : WsOpen) (addr raw : Bytes)
    (hh : s.handlers h = some (.dialled o addr)) :
    Effect s (.request h ok) { s with
      handlers := s.handlers.set h (.storing o.id)
      links := Function.update s.links h { s.links h with request := raw } }
  | replied (h : Task) (w : WriteResult) (resp : TunnelResponse)
    (hh : s.handlers h = some (.responding resp)) :
    Effect s (.reply h w) ({ s with handlers := s.handlers.set h .ended }.write h.1 (.response resp) w)
  | stored (h : Task) (id : Bytes) (hh : s.handlers h = some (.storing id)) :
    Effect s (.store h) { s with
      streamConns := s.streamConns.set id h
      handlers := s.handlers.set h (.reading id) }
  | read (h : Task) (id chunk : Bytes) (hh : s.handlers h = some (.reading id)) :
    Effect s (.read h (some chunk)) { s with
      handlers := s.handlers.set h (.sending id chunk)
      links := Function.update s.links h { s.links h with read := (s.links h).read ++ chunk } }
  | sent (h : Task) (w : WriteResult) (id p : Bytes) (hh : s.handlers h = some (.sending id p)) :
    Effect s (.send h w) ({ s with handlers := s.handlers.set h (.reading id) }.write h.1
      (.wsData { id, data := encodeBase64 p, isBinary := true }) w)
  | sentClose (h : Task) (w : WriteResult) (id : Bytes) (hh : s.handlers h = some (.closing id)) :
    Effect s (.send h w) ({ s with handlers := s.handlers.set h (.deleting id) }.write h.1
      (.wsClose { id, code := 1000, reason := str "closed" }) w)
  | deleted (h : Task) (id : Bytes) (hh : s.handlers h = some (.deleting id)) :
    Effect s (.delete h) { s with
      streamConns := s.streamConns.erase id
      handlers := s.handlers.set h .leaving }
  | left (h : Task) (hh : s.handlers h = some .leaving) :
    Effect s (.close h) { s with
      handlers := s.handlers.set h .ended
      links := Function.update s.links h { s.links h with closed := true } }
  | pinged (t : ℕ) (w : WriteResult) : Effect s (.ping t w) (s.write t .ping w)

variable {cfg : Settings} {s s' : Process} {a : ProcessAction}

theorem not_early {hd hd' : Handler} (h : hd'.early = false) (h' : hd'.early = true) :
    hd.early = true := by
  cases h.symm.trans h'

theorem receive_effect {t : ℕ} {m : TunnelMessage} (h : s.receive t m = some s') :
    Effect s (.receive t m) s' := by
  unfold receive at h
  split_ifs at h with hl
  rw [Bool.not_eq_true, Option.isSome_eq_false_iff, Option.isNone_iff_eq_none] at hl
  dsimp only at h
  split at h
  · rename_i req
    cases h
    exact .started t _ _ hl (.inl ⟨req, rfl, rfl⟩)
  · rename_i o
    cases h
    refine .started t _ _ hl (.inr ⟨o, _, rfl, rfl, ?_⟩)
    split_ifs <;> rfl
  · rename_i d
    split at h
    · rename_i k p hs hp
      cases h
      exact .delivered t d k p hl hs hp
    · rename_i hn
      cases h
      refine .ignored t _ hl rfl ?_ fun c hc => by cases hc
      rintro d' ⟨⟩
      cases hs : s.streamConns d.id with
      | none => exact .inl rfl
      | some k =>
        cases hp : payload d with
        | none => exact .inr rfl
        | some p => exact absurd hp (hn k p hs)
  · rename_i c
    split at h
    · rename_i k hs
      cases h
      exact .hungUp t c k hl hs
    · rename_i hs
      cases h
      refine .ignored t _ hl rfl (fun d hd => by cases hd) ?_
      rintro c' ⟨⟩
      exact hs
  · rename_i hq ho hd hc
    cases h
    refine .ignored t m hl ?_ (fun d hm => absurd hm (hd d)) fun c hm => absurd hm (hc c)
    cases m with
    | wsOpen o => exact absurd rfl (ho o)
    | _ => rfl

theorem finish_effect {t written : ℕ} (h : s.finish t written = some s') :
    Effect s (.finish t written) s' := by
  unfold finish at h
  split at h
  · rename_i k p hl
    cases h
    exact .wrote t written k p hl
  · rename_i k hl
    cases h
    exact .closed t written k hl
  · cases h

theorem request_effect {h : Task} {ok : Bool} (hs : s.request cfg h ok = some s') :
    Effect s (.request h ok) s' := by
  unfold request at hs
  split at hs
  · rename_i o addr hh
    split at hs
    · cases hs
      exact .moved h _ _ hh (.inl rfl) (not_early rfl) rfl rfl
    · split at hs
      · cases hs
        exact .crashed _
      · split_ifs at hs
        · cases hs
          exact .requested h ok o addr _ hh
        · cases hs
          exact .moved h _ _ hh (.inl rfl) (not_early rfl) rfl rfl
  · cases hs

theorem read_effect {h : Task} {chunk : Option Bytes} (hs : s.read h chunk = some s') :
    Effect s (.read h chunk) s' := by
  unfold read at hs
  split at hs
  · rename_i id hh
    cases hs
    exact .moved h _ _ hh (.inr rfl) (not_early rfl) rfl rfl
  · rename_i id chunk hh
    split_ifs at hs
    cases hs
    exact .read h id chunk hh
  · cases hs

theorem send_effect {h : Task} {w : WriteResult} (hs : s.send h w = some s') :
    Effect s (.send h w) s' := by
  unfold send at hs
  split at hs
  · rename_i id p hh
    cases hs
    exact .sent h w id p hh
  · rename_i id hh
    cases hs
    exact .sentClose h w id hh
  · cases hs

/-- Every step has one of the listed effects. -/
theorem step_effect (hs : s.step cfg a = some s') : Effect s a s' := by
  unfold step at hs
  split_ifs at hs
  cases a with
  | receive t m => exact receive_effect hs
  | finish t written => exact finish_effect hs
  | respond h headscale =>
    simp only [respond] at hs
    split at hs
    · rename_i req hh
      split at hs
      · cases hs
        exact .crashed _
      · cases hs
        exact .moved h _ _ hh (.inl rfl) (not_early rfl) rfl rfl
    · cases hs
  | reply h w =>
    simp only [reply] at hs
    split at hs
    · rename_i resp hh
      cases hs
      exact .replied h w resp hh
    · cases hs
  | dial h ok =>
    simp only [dial] at hs
    split at hs
    · rename_i o hh
      split at hs
      · cases hs
        exact .moved h _ _ hh (.inr rfl) (fun _ => rfl) rfl rfl
      · cases hs
        exact .moved h _ _ hh (.inl rfl) (not_early rfl) rfl rfl
    · cases hs
  | request h ok => exact request_effect hs
  | store h =>
    simp only [store] at hs
    split at hs
    · rename_i id hh
      cases hs
      exact .stored h id hh
    · cases hs
  | read h chunk => exact read_effect hs
  | send h w => exact send_effect hs
  | delete h =>
    simp only [delete] at hs
    split at hs
    · rename_i id hh
      cases hs
      exact .deleted h id hh
    · cases hs
  | close h =>
    simp only [close] at hs
    split at hs
    · rename_i hh
      cases hs
      exact .left h hh
    · cases hs
  | ping t w =>
    cases hs
    exact .pinged t w

section Write

variable (s) (t : ℕ) (m : TunnelMessage) (w : WriteResult)

@[simp] theorem write_streamConns : (s.write t m w).streamConns = s.streamConns := by
  unfold write
  split_ifs
  · rfl
  · cases w <;> rfl

@[simp] theorem write_handlers : (s.write t m w).handlers = s.handlers := by
  unfold write
  split_ifs
  · rfl
  · cases w <;> rfl

@[simp] theorem write_loops : (s.write t m w).loops = s.loops := by
  unfold write
  split_ifs
  · rfl
  · cases w <;> rfl

@[simp] theorem write_links : (s.write t m w).links = s.links := by
  unfold write
  split_ifs
  · rfl
  · cases w <;> rfl

@[simp] theorem write_received : (s.write t m w).received = s.received := by
  unfold write
  split_ifs
  · rfl
  · cases w <;> rfl

variable {s t m w}

/-- What a write does to a tunnel: it passes the message on, or the tunnel takes nothing more. -/
theorem write_outbox (u : ℕ) :
    ((s.write t m w).outbox u = s.outbox u ∧ ((s.write t m w).failed u = false → s.failed u = false) ∧
      (u = t → (s.write t m w).failed t = true)) ∨
    u = t ∧ s.failed t = false ∧ (s.write t m w).outbox t = s.outbox t ++ [m] := by
  unfold write
  split_ifs with hf
  · exact .inl ⟨rfl, fun h => h, fun hu => hf⟩
  · have hf' := eq_false_of_ne_true hf
    by_cases hu : u = t
    · subst hu
      cases w with
      | ok => exact .inr ⟨rfl, hf', Function.update_self ..⟩
      | failed delivered =>
        cases delivered with
        | true => exact .inr ⟨rfl, hf', Function.update_self ..⟩
        | false => exact .inl ⟨rfl, fun _ => hf', fun _ => Function.update_self ..⟩
    · cases w with
      | ok => exact .inl ⟨Function.update_of_ne hu .., fun h => h, fun h => absurd h hu⟩
      | failed delivered =>
        have hfu : Function.update s.failed t true u = s.failed u := Function.update_of_ne hu ..
        cases delivered with
        | true =>
          exact .inl ⟨Function.update_of_ne hu .., fun h => hfu ▸ h, fun h => absurd h hu⟩
        | false => exact .inl ⟨rfl, fun h => hfu ▸ h, fun h => absurd h hu⟩

theorem mem_write_outbox {m' : TunnelMessage} {u : ℕ} (h : m' ∈ (s.write t m w).outbox u) :
    m' ∈ s.outbox u ∨ u = t ∧ m' = m := by
  rcases write_outbox (s := s) (t := t) (m := m) (w := w) u with ⟨hw, -⟩ | ⟨rfl, -, hw⟩
  · rw [hw] at h
    exact .inl h
  · rw [hw, List.mem_append, List.mem_singleton] at h
    exact h.imp_right fun h => ⟨rfl, h⟩

end Write

/-- The goroutine was started for the message that opens the stream. -/
def Opened (s : Process) (h : Task) (id : Bytes) : Prop :=
  ∃ m, (s.received h.1)[h.2]? = some m ∧ m.opens = some id

theorem Opened.eq {h : Task} {id id' : Bytes} (ho : s.Opened h id) (ho' : s.Opened h id') :
    id = id' := by
  obtain ⟨m, hm, hid⟩ := ho
  obtain ⟨m', hm', hid'⟩ := ho'
  cases hm.symm.trans hm'
  exact Option.some.inj (hid.symm.trans hid')

theorem Opened.lt {h : Task} {id : Bytes} (ho : s.Opened h id) : h.2 < (s.received h.1).length := by
  obtain ⟨m, hm, -⟩ := ho
  exact (List.getElem?_eq_some_iff.mp hm).1

theorem received_step (he : Effect s a s') :
    (∃ t m, a = .receive t m ∧ s'.received = s.push t m) ∨ s'.received = s.received := by
  cases he with
  | started t m hd hl hm => exact .inl ⟨t, m, rfl, rfl⟩
  | delivered t d h p hl hs hp => exact .inl ⟨t, _, rfl, rfl⟩
  | hungUp t c h hl hs => exact .inl ⟨t, _, rfl, rfl⟩
  | ignored t m hl ho hd hc => exact .inl ⟨t, m, rfl, rfl⟩
  | replied h w resp hh => exact .inr (write_received ..)
  | sent h w id p hh => exact .inr (write_received ..)
  | sentClose h w id hh => exact .inr (write_received ..)
  | pinged t w => exact .inr (write_received ..)
  | _ => exact .inr rfl

theorem opened_push {t : ℕ} {m : TunnelMessage} (hr : s'.received = s.push t m) {h : Task}
    {id : Bytes} : s'.Opened h id ↔
      s.Opened h id ∨ h = (t, (s.received t).length) ∧ m.opens = some id := by
  obtain ⟨u, k⟩ := h
  rw [Opened, Opened, hr]
  by_cases hu : u = t
  · subst hu
    simp only [push, Function.update_self, List.getElem?_append, List.getElem?_singleton]
    constructor
    · rintro ⟨m', hm', hid⟩
      split_ifs at hm' with hlt hk
      · exact .inl ⟨m', hm', hid⟩
      · cases hm'
        exact .inr ⟨by rw [show k = (s.received u).length by omega], hid⟩
    · rintro (⟨m', hm', hid⟩ | ⟨hk, hid⟩)
      · have hlt := (List.getElem?_eq_some_iff.mp hm').1
        exact ⟨m', by rw [if_pos hlt, hm'], hid⟩
      · cases hk
        exact ⟨m, by simp, hid⟩
  · simp only [push, Function.update_of_ne hu, Prod.mk.injEq, hu, false_and, or_false]

theorem Opened.step (he : Effect s a s') {h : Task} {id : Bytes} (ho : s.Opened h id) :
    s'.Opened h id := by
  rcases received_step he with ⟨t, m, -, hr⟩ | hr
  · exact (opened_push hr).mpr (.inl ho)
  · rwa [Opened, hr]

theorem write_outbox_grows {t u : ℕ} {m : TunnelMessage} {w : WriteResult}
    (h : s'.outbox = s.outbox) : s.outbox u <+: (s'.write t m w).outbox u := by
  rw [← h]
  rcases write_outbox (s := s') (t := t) (m := m) (w := w) u with ⟨ho, -⟩ | ⟨rfl, -, ho⟩
  · rw [ho]
  · rw [ho]
    exact List.prefix_append ..

/-- What has reached the relay stays there. -/
theorem outbox_grows (he : Effect s a s') (t : ℕ) : s.outbox t <+: s'.outbox t := by
  cases he with
  | replied h w resp hh => exact write_outbox_grows rfl
  | sent h w id p hh => exact write_outbox_grows rfl
  | sentClose h w id hh => exact write_outbox_grows rfl
  | pinged u w => exact write_outbox_grows rfl
  | _ => exact List.prefix_rfl

/-- No two goroutines are started for the same stream. -/
def Distinct (s : Process) : Prop := ∀ h h' id, s.Opened h id → s.Opened h' id → h = h'

theorem Distinct.of_step (hd : s'.Distinct) (he : Effect s a s') : s.Distinct :=
  fun h h' id ho ho' => hd h h' id (ho.step he) (ho'.step he)

/-- Goroutines, entries, loops and messages go back to messages that open streams; nothing is known
of a goroutine before its message. -/
structure Rooted (s : Process) : Prop where
  handlers : ∀ h hd id, s.handlers h = some hd → hd.stream = some id → s.Opened h id
  streams : ∀ id h, s.streamConns id = some h → s.Opened h id
  loops : ∀ t l, s.loops t = some l → ∃ id, s.Opened l.task id
  sent : ∀ t d, .wsData d ∈ s.outbox t → (∃ k, s.Opened (t, k) d.id) ∧ ValidUtf8 d.data
  unborn : ∀ h, (s.received h.1).length ≤ h.2 →
    s.handlers h = none ∧ s.links h = ⟨[], [], [], false, false⟩

theorem Rooted.initial : Process.initial.Rooted := by
  refine ⟨nofun, nofun, nofun, nofun, ?_⟩
  intro h _
  exact ⟨rfl, rfl⟩

theorem Rooted.handlers_step (h : s.Rooted) (he : Effect s a s') {k : Task} {hd : Handler}
    {id : Bytes} (hk : s'.handlers k = some hd) (hid : hd.stream = some id) : s'.Opened k id := by
  have old : s.handlers k = some hd → s'.Opened k id := fun hk =>
    (h.handlers k hd id hk hid).step he
  -- A goroutine that serves the same stream as before.
  have set : ∀ {u hd₀ hd'}, s.handlers.set u hd' k = some hd → s.handlers u = some hd₀ →
      (hd'.stream = none ∨ hd'.stream = hd₀.stream) → s'.Opened k id := by
    intro u hd₀ hd' hk hu hs
    rcases Table.set_eq_some_iff.mp hk with ⟨rfl, rfl⟩ | ⟨-, hk⟩
    · rcases hs with hs | hs
      · cases hs.symm.trans hid
      · exact (h.handlers k hd₀ id hu (hs.symm.trans hid)).step he
    · exact old hk
  cases he with
  | started t m hd' hl hm =>
    rcases Table.set_eq_some_iff.mp hk with ⟨rfl, rfl⟩ | ⟨-, hk⟩
    · rcases hm with ⟨req, -, rfl⟩ | ⟨o, o', rfl, rfl, ho⟩
      · cases hid
      · cases hid
        exact (opened_push (m := .wsOpen o) rfl).mpr (.inr ⟨rfl, congrArg some ho.symm⟩)
    · exact old hk
  | moved u hd₀ hd' hu hs hearly hun hun' => exact set hk hu hs
  | requested u ok o addr raw hu => exact set hk hu (.inr rfl)
  | replied u w resp hu =>
    rw [write_handlers] at hk
    exact set hk hu (.inl rfl)
  | stored u id' hu => exact set hk hu (.inr rfl)
  | read u id' chunk hu => exact set hk hu (.inr rfl)
  | sent u w id' p hu =>
    rw [write_handlers] at hk
    exact set hk hu (.inr rfl)
  | sentClose u w id' hu =>
    rw [write_handlers] at hk
    exact set hk hu (.inr rfl)
  | deleted u id' hu => exact set hk hu (.inl rfl)
  | left u hu => exact set hk hu (.inl rfl)
  | pinged t w =>
    rw [write_handlers] at hk
    exact old hk
  | _ => exact old hk

theorem Rooted.streams_step (h : s.Rooted) (he : Effect s a s') {k : Task} {id : Bytes}
    (hk : s'.streamConns id = some k) : s'.Opened k id := by
  have old : s.streamConns id = some k → s'.Opened k id := fun hk => (h.streams id k hk).step he
  cases he with
  | hungUp t c u hl hs => exact old (Table.of_erase hk)
  | stored u id' hu =>
    rcases Table.set_eq_some_iff.mp hk with ⟨rfl, rfl⟩ | ⟨-, hk⟩
    · exact (h.handlers u _ id hu rfl).step (.stored u id hu)
    · exact old hk
  | deleted u id' hu => exact old (Table.of_erase hk)
  | replied u w resp hu => exact old (by simpa using hk)
  | sent u w id' p hu => exact old (by simpa using hk)
  | sentClose u w id' hu => exact old (by simpa using hk)
  | pinged t w => exact old (by simpa using hk)
  | _ => exact old hk

theorem Rooted.loops_step (h : s.Rooted) (he : Effect s a s') {t : ℕ} {l : LoopTask}
    (hl : s'.loops t = some l) : ∃ id, s'.Opened l.task id := by
  have old : s.loops t = some l → ∃ id, s'.Opened l.task id := by
    intro hl
    obtain ⟨id, ho⟩ := h.loops t l hl
    exact ⟨id, ho.step he⟩
  cases he with
  | delivered u d k p hn hs hp =>
    rcases Table.set_eq_some_iff.mp hl with ⟨rfl, rfl⟩ | ⟨-, hl⟩
    · exact ⟨d.id, (h.streams d.id k hs).step (.delivered t d k p hn hs hp)⟩
    · exact old hl
  | hungUp u c k hn hs =>
    rcases Table.set_eq_some_iff.mp hl with ⟨rfl, rfl⟩ | ⟨-, hl⟩
    · exact ⟨c.id, (h.streams c.id k hs).step (.hungUp t c k hn hs)⟩
    · exact old hl
  | wrote u written k p hu => exact old (Table.of_erase hl)
  | closed u written k hu => exact old (Table.of_erase hl)
  | replied u w resp hu => exact old (by simpa using hl)
  | sent u w id' p hu => exact old (by simpa using hl)
  | sentClose u w id' hu => exact old (by simpa using hl)
  | pinged t w => exact old (by simpa using hl)
  | _ => exact old hl

theorem Rooted.sent_step (h : s.Rooted) (he : Effect s a s') {t : ℕ} {d : WsData}
    (hm : .wsData d ∈ s'.outbox t) : (∃ k, s'.Opened (t, k) d.id) ∧ ValidUtf8 d.data := by
  have old : .wsData d ∈ s.outbox t → (∃ k, s'.Opened (t, k) d.id) ∧ ValidUtf8 d.data := by
    intro hm
    obtain ⟨⟨k, ho⟩, hv⟩ := h.sent t d hm
    exact ⟨⟨k, ho.step he⟩, hv⟩
  cases he with
  | replied u w resp hu =>
    rcases mem_write_outbox hm with hm | ⟨-, hm⟩
    · exact old hm
    · cases hm
  | sent u w id p hu =>
    rcases mem_write_outbox hm with hm | ⟨rfl, hd⟩
    · exact old hm
    · cases hd
      refine ⟨⟨u.2, (h.handlers u _ id hu rfl).step (.sent u w id p hu)⟩, ?_⟩
      exact validUtf8_of_ascii fun b hb => lt_of_mem_encodeBase64 hb
  | sentClose u w id hu =>
    rcases mem_write_outbox hm with hm | ⟨-, hm⟩
    · exact old hm
    · cases hm
  | pinged u w =>
    rcases mem_write_outbox hm with hm | ⟨-, hm⟩
    · exact old hm
    · cases hm
  | _ => exact old hm

theorem received_length (he : Effect s a s') (t : ℕ) :
    (s.received t).length ≤ (s'.received t).length := by
  rcases received_step he with ⟨u, m, -, hr⟩ | hr
  · rw [hr, push]
    by_cases ht : t = u
    · subst ht
      simp
    · rw [Function.update_of_ne ht]
  · rw [hr]

theorem Rooted.unborn_step (h : s.Rooted) (he : Effect s a s') {k : Task}
    (hk : (s'.received k.1).length ≤ k.2) :
    s'.handlers k = none ∧ s'.links k = ⟨[], [], [], false, false⟩ := by
  have hlen := received_length he k.1
  obtain ⟨hh, hl⟩ := h.unborn k (hlen.trans hk)
  have ne_of_handler : ∀ {u hd}, s.handlers u = some hd → k ≠ u := by
    rintro u hd hu rfl
    cases hh.symm.trans hu
  have ne_of_loop : ∀ {t l}, s.loops t = some l → k ≠ l.task := by
    rintro t l hloop rfl
    obtain ⟨id, ho⟩ := h.loops t l hloop
    exact absurd ho.lt (not_lt.mpr (hlen.trans hk))
  cases he with
  | started t m hd hn hm =>
    refine ⟨(Table.set_of_ne ?_).trans hh, hl⟩
    rintro rfl
    simp only [push, Function.update_self, List.length_append, List.length_singleton] at hk
    omega
  | wrote t written u p hu =>
    have hne : k ≠ u := ne_of_loop hu
    exact ⟨hh, (Function.update_of_ne hne ..).trans hl⟩
  | closed t written u hu =>
    have hne : k ≠ u := ne_of_loop hu
    exact ⟨hh, (Function.update_of_ne hne ..).trans hl⟩
  | moved u hd hd' hu hs hearly hun hun' => exact ⟨(Table.set_of_ne (ne_of_handler hu)).trans hh, hl⟩
  | requested u ok o addr raw hu =>
    have hne := ne_of_handler hu
    exact ⟨(Table.set_of_ne hne).trans hh, (Function.update_of_ne hne ..).trans hl⟩
  | replied u w resp hu =>
    rw [write_handlers, write_links]
    exact ⟨(Table.set_of_ne (ne_of_handler hu)).trans hh, hl⟩
  | stored u id hu => exact ⟨(Table.set_of_ne (ne_of_handler hu)).trans hh, hl⟩
  | read u id chunk hu =>
    have hne := ne_of_handler hu
    exact ⟨(Table.set_of_ne hne).trans hh, (Function.update_of_ne hne ..).trans hl⟩
  | sent u w id p hu =>
    rw [write_handlers, write_links]
    exact ⟨(Table.set_of_ne (ne_of_handler hu)).trans hh, hl⟩
  | sentClose u w id hu =>
    rw [write_handlers, write_links]
    exact ⟨(Table.set_of_ne (ne_of_handler hu)).trans hh, hl⟩
  | deleted u id hu => exact ⟨(Table.set_of_ne (ne_of_handler hu)).trans hh, hl⟩
  | left u hu =>
    have hne := ne_of_handler hu
    exact ⟨(Table.set_of_ne hne).trans hh, (Function.update_of_ne hne ..).trans hl⟩
  | pinged t w =>
    rw [write_handlers, write_links]
    exact ⟨hh, hl⟩
  | _ => exact ⟨hh, hl⟩

theorem Rooted.step (h : s.Rooted) (he : Effect s a s') : s'.Rooted where
  handlers _ _ _ hk hid := h.handlers_step he hk hid
  streams _ _ hk := h.streams_step he hk
  loops _ _ hl := h.loops_step he hl
  sent _ _ hm := h.sent_step he hm
  unborn _ hk := h.unborn_step he hk

/-- A view of the links after one of them has changed outside the view. -/
theorem view_update {β : Type} (f : Link → β) {links : Task → Link} {u k : Task} {l : Link}
    (hl : f l = f (links u)) : f (Function.update links u l k) = f (links k) := by
  by_cases hk : k = u
  · subst hk
    rw [Function.update_self, hl]
  · rw [Function.update_of_ne hk]

end Process

end HeadFwd.Sidecar
