import HeadFwd.Ios.Verifier
import HeadFwd.Text.Utf8
import HeadFwd.Transition.Basic

/-! # The key interceptor of the patched tsnet

Each call of `TsnetUp` with a pinned key starts a server on the loopback interface
that answers for the control server, and writes its address over the control URL.
The server is closed when the call returns, but the address stays: in the field, in
the node that came up with it, and in every `Up` that begins later.
-/

namespace HeadFwd.Ios

open Text Transition

/-- What listens on a loopback port and passes requests on to its target. -/
structure Interceptor where
  address : Bytes
  target : Bytes
  serving : Bool
  deriving DecidableEq, Repr

/-- A call has started its interceptor, if it could; it has written the address; `Up` runs with the
control URL that the field held when it began; it has returned. -/
inductive UpStage where
  | started
  | written
  | running (url : Bytes)
  | returned
  deriving DecidableEq, Repr

structure UpCall where
  interceptor : Option Interceptor
  stage : UpStage
  deriving DecidableEq, Repr

/-- The control URL with which `Up` runs. -/
def UpCall.url (c : UpCall) : Option Bytes :=
  match c.stage with
  | .running url => some url
  | _ => none

/-- A server handle with its calls of `TsnetUp` in the order in which they began, and the control
URL with which the node came up. -/
structure Handle where
  dir : Bytes
  controlURL : Bytes
  calls : List UpCall
  node : Option Bytes
  closed : Bool
  deriving DecidableEq, Repr

def Handle.initial (dir controlURL : Bytes) : Handle := ⟨dir, controlURL, [], none, false⟩

/-- The parts of `TsnetUp`, and `TsnetClose`. A call that begins finds the file with the pinned key
or not, and gets a port or not; `Up` brings the node up or fails before; the deferred cleanup runs
when the call returns. -/
inductive HandleAction where
  | start (file : Option Bytes) (port : Option Bytes)
  | write (i : ℕ)
  | up (i : ℕ) (comesUp : Bool)
  | cleanup (i : ℕ)
  | close
  deriving DecidableEq, Repr

namespace Handle

/-- The interceptor of a call. -/
def interceptor (s : Handle) (i : ℕ) : Option Interceptor := s.calls[i]?.bind UpCall.interceptor

/-- The control URLs that may be contacted: that of the node, and those of the calls whose `Up`
runs. -/
def contacts (s : Handle) : List Bytes := s.node.toList ++ s.calls.filterMap UpCall.url

/-- Those that may be contacted when a call has returned. -/
def contactsWithout (s : Handle) (i : ℕ) : List Bytes :=
  s.node.toList ++ (s.calls.eraseIdx i).filterMap UpCall.url

/-- Whether an interceptor listens at a URL. -/
def serves (s : Handle) (url : Bytes) : Bool :=
  s.calls.any fun c => c.interceptor.any fun k => k.serving && k.address = url

def startKeyInterceptor (s : Handle) (port : Option Bytes) : Option Interceptor :=
  port.map fun a => { address := a, target := s.controlURL, serving := true }

/-- The interceptor that a call starts. -/
def opened (s : Handle) (file port : Option Bytes) : Option Interceptor :=
  if s.dir ≠ [] ∧ (readPinnedServerKey file).isSome then s.startKeyInterceptor port else none

/-- A port that is in use is not given out. -/
def start (s : Handle) (file port : Option Bytes) : Option Handle :=
  if s.closed then some { s with calls := s.calls ++ [⟨none, .returned⟩] }
  else match s.opened file port with
    | none => some { s with calls := s.calls ++ [⟨none, .written⟩] }
    | some k =>
      if s.serves k.address then none
      else some { s with calls := s.calls ++ [⟨some k, .started⟩] }

def write (s : Handle) (i : ℕ) : Option Handle :=
  match s.calls[i]? with
  | some ⟨some k, .started⟩ =>
    some { s with controlURL := k.address, calls := s.calls.set i ⟨some k, .written⟩ }
  | _ => none

def up (s : Handle) (i : ℕ) (comesUp : Bool) : Option Handle :=
  match s.calls[i]? with
  | some ⟨k, .written⟩ =>
    some { s with
      node := if comesUp = true ∧ s.closed = false then some s.controlURL else s.node
      calls := s.calls.set i ⟨k, .running s.controlURL⟩ }
  | _ => none

/-- The call returns, and its interceptor is closed. -/
def cleanup (s : Handle) (i : ℕ) : Option Handle :=
  match s.calls[i]? with
  | some ⟨k, .running _⟩ =>
    some { s with calls := s.calls.set i ⟨k.map fun k => { k with serving := false }, .returned⟩ }
  | _ => none

def step (s : Handle) : HandleAction → Option Handle
  | .start file port => s.start file port
  | .write i => s.write i
  | .up i comesUp => s.up i comesUp
  | .cleanup i => s.cleanup i
  | .close => some { s with node := none, closed := true }

/-- Every interceptor passes on to the control server, and every control URL that may be contacted is
that of the control server or of an interceptor that listens. -/
structure Sound (control : Bytes) (s : Handle) : Prop where
  targets : ∀ i k, s.interceptor i = some k → k.target = control
  contacts : ∀ url ∈ s.contacts, url = control ∨ s.serves url = true

/-- An interceptor is started before the field is written; `Up` begins while the server in the field
listens; and no call returns while the node or another `Up` uses its interceptor. -/
def Safe (control : Bytes) (s : Handle) : HandleAction → Prop
  | .start file port =>
    s.closed = false → (s.opened file port).isSome → s.controlURL = control
  | .up _ _ => s.controlURL = control ∨ s.serves s.controlURL = true
  | .cleanup i => ∀ url ∈ s.contactsWithout i,
    url = control ∨ (s.interceptor i).map Interceptor.address ≠ some url
  | _ => True

instance (control : Bytes) (s : Handle) : DecidablePred (s.Safe control)
  | .start file port =>
    inferInstanceAs (Decidable (s.closed = false → (s.opened file port).isSome → s.controlURL = control))
  | .write _ => .isTrue trivial
  | .up _ _ => inferInstanceAs (Decidable (s.controlURL = control ∨ s.serves s.controlURL = true))
  | .cleanup i =>
    inferInstanceAs (Decidable (∀ url ∈ s.contactsWithout i,
      url = control ∨ (s.interceptor i).map Interceptor.address ≠ some url))
  | .close => .isTrue trivial

end Handle

/-- One server handle, any number of calls. -/
def handle (dir control : Bytes) : Machine Handle HandleAction where
  init s := s = .initial dir control
  step := Handle.step

namespace Handle

variable {s s' : Handle} {control : Bytes} {i j : ℕ}

theorem interceptor_eq {c : UpCall} (hi : s.calls[i]? = some c) :
    s.interceptor i = c.interceptor := by
  rw [interceptor, hi, Option.bind_some]

theorem serves_iff {url : Bytes} : s.serves url = true ↔
    ∃ i k, s.interceptor i = some k ∧ k.serving = true ∧ k.address = url := by
  simp only [serves, List.any_eq_true, Option.any_eq_true, Bool.and_eq_true, decide_eq_true_eq,
    interceptor, Option.bind_eq_some_iff]
  constructor
  · rintro ⟨c, hc, k, hk, h⟩
    obtain ⟨i, hi⟩ := List.mem_iff_getElem?.mp hc
    exact ⟨i, k, ⟨c, hi, hk⟩, h⟩
  · rintro ⟨i, k, ⟨c, hc, hk⟩, h⟩
    exact ⟨c, List.mem_of_getElem? hc, k, hk, h⟩

theorem mem_contacts {url : Bytes} :
    url ∈ s.contacts ↔ s.node = some url ∨ ∃ c ∈ s.calls, c.url = some url := by
  rw [contacts, List.mem_append, Option.mem_toList, List.mem_filterMap]

theorem mem_contactsWithout {url : Bytes} : url ∈ s.contactsWithout i ↔
    s.node = some url ∨ ∃ j c, j ≠ i ∧ s.calls[j]? = some c ∧ c.url = some url := by
  simp only [contactsWithout, List.mem_append, Option.mem_toList, List.mem_filterMap,
    List.mem_eraseIdx_iff_getElem?]
  constructor
  · rintro (h | ⟨c, ⟨j, hj, hc⟩, h⟩)
    · exact .inl h
    · exact .inr ⟨j, c, hj, hc, h⟩
  · rintro (h | ⟨j, c, hj, hc, h⟩)
    · exact .inl h
    · exact .inr ⟨c, ⟨j, hj, hc⟩, h⟩

/-- What holds in every state of a sound run: ports are not shared, and an interceptor listens until
its call returns. -/
structure Wf (control : Bytes) (s : Handle) : Prop where
  sound : s.Sound control
  distinct : ∀ i j k l, s.interceptor i = some k → s.interceptor j = some l → k.serving = true →
    l.serving = true → k.address = l.address → i = j
  listens : ∀ c ∈ s.calls, ∀ k, c.interceptor = some k → c.stage ≠ .returned → k.serving = true

/-- A call of `TsnetUp` that begins. -/
theorem interceptor_append {c : UpCall} (h : s'.calls = s.calls ++ [c]) :
    s'.interceptor j = if j = s.calls.length then c.interceptor else s.interceptor j := by
  rw [interceptor, h]
  split_ifs with hj
  · rw [hj, List.getElem?_concat_length, Option.bind_some]
  · rcases Nat.lt_or_gt_of_ne hj with hlt | hgt
    · rw [List.getElem?_append_left hlt, interceptor]
    · have hnew : (s.calls ++ [c])[j]? = none := List.getElem?_eq_none (by simp; omega)
      have hold : s.calls[j]? = none := List.getElem?_eq_none hgt.le
      rw [interceptor, hnew, hold]

/-- A call that goes on. -/
theorem interceptor_set {c c' : UpCall} (hi : s.calls[i]? = some c)
    (h : s'.calls = s.calls.set i c') :
    s'.interceptor j = if j = i then c'.interceptor else s.interceptor j := by
  have hlt := (List.getElem?_eq_some_iff.mp hi).1
  rw [interceptor, h, List.getElem?_set]
  split_ifs with hj hji hji
  · rw [Option.bind_some]
  · exact absurd hj.symm hji
  · exact absurd hji.symm hj
  · rfl

/-- What may be contacted when a call goes on. -/
theorem of_mem_contacts_set {c : UpCall} {url : Bytes} (h : s'.calls = s.calls.set i c)
    (hu : url ∈ s'.contacts) : s'.node = some url ∨ c.url = some url ∨ url ∈ s.contacts := by
  rcases mem_contacts.mp hu with hn | ⟨d, hd, hurl⟩
  · exact .inl hn
  · rw [h] at hd
    rcases List.mem_or_eq_of_mem_set hd with hd | rfl
    · exact .inr (.inr (mem_contacts.mpr (.inr ⟨d, hd, hurl⟩)))
    · exact .inr (.inl hurl)

theorem contactsWithout_subset : s.contactsWithout i ⊆ s.contacts := by
  intro url hu
  rcases mem_contactsWithout.mp hu with h | ⟨j, c, -, hc, h⟩
  · exact mem_contacts.mpr (.inl h)
  · exact mem_contacts.mpr (.inr ⟨c, List.mem_of_getElem? hc, h⟩)

/-- What may be contacted when a call has returned is what the others use. -/
theorem mem_contacts_returned {k : Option Interceptor} {url : Bytes} :
    url ∈ contacts { s with calls := s.calls.set i ⟨k, .returned⟩ } ↔ url ∈ s.contactsWithout i := by
  rw [mem_contacts, mem_contactsWithout]
  refine or_congr_right ?_
  constructor
  · rintro ⟨d, hd, hurl⟩
    obtain ⟨j, hj⟩ := List.mem_iff_getElem?.mp hd
    rw [List.getElem?_set] at hj
    split_ifs at hj with hji
    · cases hj
      cases hurl
    · exact ⟨j, d, Ne.symm hji, hj, hurl⟩
  · rintro ⟨j, d, hji, hj, hurl⟩
    refine ⟨d, List.mem_of_getElem? (i := j) ?_, hurl⟩
    rw [List.getElem?_set_ne hji.symm, hj]

theorem serves_congr {url : Bytes} (h : ∀ j, s'.interceptor j = s.interceptor j) :
    s'.serves url = s.serves url := by
  rw [Bool.eq_iff_iff, serves_iff, serves_iff]
  simp only [h]

namespace Wf

/-- A step that leaves the interceptors alone. -/
theorem frame (h : s.Wf control) (hk : ∀ j, s'.interceptor j = s.interceptor j)
    (hu : ∀ url ∈ s'.contacts, url = control ∨ s.serves url = true)
    (hl : ∀ c ∈ s'.calls, c ∈ s.calls ∨ ∀ k, c.interceptor = some k → c.stage ≠ .returned →
      k.serving = true) : s'.Wf control := by
  refine ⟨⟨?_, ?_⟩, ?_, ?_⟩
  · intro i k hi
    exact h.sound.targets i k (hk i ▸ hi)
  · intro url hc
    rw [serves_congr hk]
    exact hu url hc
  · intro i j k l hi hj
    exact h.distinct i j k l (hk i ▸ hi) (hk j ▸ hj)
  · intro c hc
    rcases hl c hc with hold | hnew
    · exact h.listens c hold
    · exact hnew

/-- An interceptor that starts on a free port and passes on to the control server. -/
theorem opened {k : Interceptor} (h : s.Wf control) (ht : k.target = control)
    (hk : k.serving = true) (hfree : s.serves k.address = false) :
    Wf control { s with calls := s.calls ++ [⟨some k, .started⟩] } := by
  have hj : ∀ j, interceptor { s with calls := s.calls ++ [⟨some k, .started⟩] } j =
      if j = s.calls.length then some k else s.interceptor j := fun j =>
    @interceptor_append s _ j ⟨some k, .started⟩ rfl
  have hother : ∀ {j l}, s.interceptor j = some l → l.serving = true → l.address ≠ k.address := by
    intro j l hl hs he
    have hserves : s.serves k.address = true := serves_iff.mpr ⟨j, l, hl, hs, he⟩
    rw [hserves] at hfree
    cases hfree
  refine ⟨⟨?_, ?_⟩, ?_, ?_⟩
  · intro j l hl
    rw [hj] at hl
    split_ifs at hl
    · cases hl
      exact ht
    · exact h.sound.targets j l hl
  · intro url hu
    have hold : url ∈ s.contacts := by simpa [contacts, UpCall.url] using hu
    refine (h.sound.contacts url hold).imp_right fun hs => ?_
    obtain ⟨j, l, hl, hs⟩ := serves_iff.mp hs
    have hne : j ≠ s.calls.length := by
      rintro rfl
      simp [interceptor] at hl
    exact serves_iff.mpr ⟨j, l, by rw [hj, if_neg hne, hl], hs⟩
  · intro i j m l hi hl hm hs he
    rw [hj] at hi hl
    split_ifs at hi hl with h₁ h₂ h₂
    · rw [h₁, h₂]
    · cases hi
      exact absurd he.symm (hother hl hs)
    · cases hl
      exact absurd he (hother hi hm)
    · exact h.distinct i j m l hi hl hm hs he
  · intro c hc
    rcases List.mem_append.mp hc with hc | hc
    · exact h.listens c hc
    · obtain rfl := List.mem_singleton.mp hc
      rintro l ⟨⟩ -
      exact hk

/-- The end of a call whose address nothing else uses. -/
theorem closed {k : Option Interceptor} {own : Bytes} (h : s.Wf control)
    (hi : s.calls[i]? = some ⟨k, .running own⟩)
    (hn : ∀ url ∈ s.contactsWithout i, url = control ∨ k.map Interceptor.address ≠ some url) :
    Wf control { s with
      calls := s.calls.set i ⟨k.map fun k => { k with serving := false }, .returned⟩ } := by
  have hj : ∀ j, interceptor { s with
      calls := s.calls.set i ⟨k.map fun k => { k with serving := false }, .returned⟩ } j =
      if j = i then k.map (fun k => { k with serving := false }) else s.interceptor j := fun j =>
    @interceptor_set s _ i j _ ⟨k.map fun k => { k with serving := false }, .returned⟩ hi rfl
  have hthis : s.interceptor i = k := interceptor_eq hi
  refine ⟨⟨?_, ?_⟩, ?_, ?_⟩
  · intro j l hl
    rw [hj] at hl
    split_ifs at hl
    · obtain ⟨m, rfl, rfl⟩ := Option.map_eq_some_iff.mp hl
      exact h.sound.targets i m hthis
    · exact h.sound.targets j l hl
  · intro url hu
    refine or_iff_not_imp_left.mpr fun hc => ?_
    have hold := mem_contacts_returned.mp hu
    obtain ⟨j, l, hl, hs, hurl⟩ := serves_iff.mp
      ((h.sound.contacts url (contactsWithout_subset hold)).resolve_left hc)
    have hne : j ≠ i := by
      rintro rfl
      obtain rfl : k = some l := hthis.symm.trans hl
      exact (hn url hold).resolve_left hc (congrArg some hurl)
    exact serves_iff.mpr ⟨j, l, by rw [hj, if_neg hne, hl], hs, hurl⟩
  · intro m j a b ha hb hsa hsb
    have hlive : ∀ {j l}, (if j = i then k.map (fun k => { k with serving := false })
        else s.interceptor j) = some l → l.serving = true → s.interceptor j = some l := by
      intro j l hl hs
      split_ifs at hl
      · obtain ⟨c, -, rfl⟩ := Option.map_eq_some_iff.mp hl
        cases hs
      · exact hl
    rw [hj] at ha hb
    exact h.distinct m j a b (hlive ha hsa) (hlive hb hsb) hsa hsb
  · intro c hc
    rcases List.mem_or_eq_of_mem_set hc with hc | rfl
    · exact h.listens c hc
    · exact fun _ _ hr => absurd rfl hr

end Wf

/-- What a step can do, with what it does to the calls, the field and the node. -/
theorem step_cases {a : HandleAction} (h : s.step a = some s') :
    (∃ file port c, a = .start file port ∧ s' = { s with calls := s.calls ++ [c] } ∧
      (s.closed = true ∨ s.opened file port = none) ∧ c.interceptor = none ∧ c.url = none) ∨
    (∃ file port k, a = .start file port ∧ s.closed = false ∧ s.opened file port = some k ∧
      s.serves k.address = false ∧ s' = { s with calls := s.calls ++ [⟨some k, .started⟩] }) ∨
    (∃ i k, a = .write i ∧ s.calls[i]? = some ⟨some k, .started⟩ ∧
      s' = { s with controlURL := k.address, calls := s.calls.set i ⟨some k, .written⟩ }) ∨
    (∃ i comesUp k, a = .up i comesUp ∧ s.calls[i]? = some ⟨k, .written⟩ ∧ s' = { s with
      node := if comesUp = true ∧ s.closed = false then some s.controlURL else s.node
      calls := s.calls.set i ⟨k, .running s.controlURL⟩ }) ∨
    (∃ i k own, a = .cleanup i ∧ s.calls[i]? = some ⟨k, .running own⟩ ∧ s' = { s with
      calls := s.calls.set i ⟨k.map fun k => { k with serving := false }, .returned⟩ }) ∨
    a = .close ∧ s' = { s with node := none, closed := true } := by
  cases a with
  | start file port =>
    simp only [step, start] at h
    split_ifs at h with hc
    · cases h
      exact .inl ⟨file, port, _, rfl, rfl, .inl hc, rfl, rfl⟩
    · split at h
      · rename_i ho
        cases h
        exact .inl ⟨file, port, _, rfl, rfl, .inr ho, rfl, rfl⟩
      · rename_i k ho
        split_ifs at h with hs
        cases h
        exact .inr (.inl ⟨file, port, k, rfl, by simpa using hc, ho, by simpa using hs, rfl⟩)
  | write i =>
    simp only [step, write] at h
    split at h
    · rename_i k hi
      cases h
      exact .inr (.inr (.inl ⟨i, k, rfl, hi, rfl⟩))
    · cases h
  | up i comesUp =>
    simp only [step, up] at h
    split at h
    · rename_i k hi
      cases h
      exact .inr (.inr (.inr (.inl ⟨i, comesUp, k, rfl, hi, rfl⟩)))
    · cases h
  | cleanup i =>
    simp only [step, cleanup] at h
    split at h
    · rename_i k own hi
      cases h
      exact .inr (.inr (.inr (.inr (.inl ⟨i, k, own, rfl, hi, rfl⟩))))
    · cases h
  | close =>
    cases h
    exact .inr (.inr (.inr (.inr (.inr ⟨rfl, rfl⟩))))

theorem target_of_opened {file port : Option Bytes} {k : Interceptor}
    (h : s.opened file port = some k) : k.target = s.controlURL ∧ k.serving = true := by
  unfold opened at h
  split_ifs at h
  obtain ⟨a, -, rfl⟩ := Option.map_eq_some_iff.mp h
  exact ⟨rfl, rfl⟩

/-- A call that goes on leaves the interceptors as they are. -/
theorem interceptor_advance {k : Option Interceptor} {stage stage' : UpStage}
    (hi : s.calls[i]? = some ⟨k, stage⟩) (h : s'.calls = s.calls.set i ⟨k, stage'⟩) :
    s'.interceptor j = s.interceptor j := by
  rw [interceptor_set hi h]
  split_ifs with hj
  · rw [hj, interceptor_eq hi]
  · rfl

/-- Steps that meet the condition keep the invariant. -/
theorem Wf.step {a : HandleAction} (h : s.Wf control) (hg : s.Safe control a)
    (hs : s.step a = some s') : s'.Wf control := by
  rcases step_cases hs with ⟨file, port, c, rfl, rfl, -, hc, hu⟩ |
    ⟨file, port, k, rfl, hc, ho, hf, rfl⟩ | ⟨i, k, rfl, hi, rfl⟩ | ⟨i, comesUp, k, rfl, hi, rfl⟩ |
    ⟨i, k, own, rfl, hi, rfl⟩ | ⟨rfl, rfl⟩
  · apply h.frame
    · intro j
      rw [interceptor_append rfl, hc]
      split_ifs with hj
      · simp [interceptor, hj]
      · rfl
    · intro url hurl
      apply h.sound.contacts
      simpa [contacts, hu] using hurl
    · intro d hd
      rcases List.mem_append.mp hd with hd | hd
      · exact .inl hd
      · obtain rfl := List.mem_singleton.mp hd
        rw [hc]
        exact .inr (by rintro k ⟨⟩)
  · obtain ⟨ht, hk⟩ := target_of_opened ho
    exact h.opened (ht.trans (hg hc (ho ▸ rfl))) hk hf
  · have hk := h.listens _ (List.mem_of_getElem? hi) k rfl (by simp)
    apply h.frame
    · exact fun j => interceptor_advance hi rfl
    · intro url hurl
      apply h.sound.contacts
      rcases of_mem_contacts_set rfl hurl with hn | hu | hold
      · exact mem_contacts.mpr (.inl hn)
      · cases hu
      · exact hold
    · intro d hd
      rcases List.mem_or_eq_of_mem_set hd with hd | rfl
      · exact .inl hd
      · refine .inr ?_
        rintro l ⟨⟩ -
        exact hk
  · have hk := h.listens _ (List.mem_of_getElem? hi)
    apply h.frame
    · exact fun j => interceptor_advance hi rfl
    · intro url hurl
      rcases of_mem_contacts_set rfl hurl with hn | hu | hold
      · dsimp only at hn
        split_ifs at hn with hup
        · cases hn
          exact hg
        · exact h.sound.contacts url (mem_contacts.mpr (.inl hn))
      · cases hu
        exact hg
      · exact h.sound.contacts url hold
    · intro d hd
      rcases List.mem_or_eq_of_mem_set hd with hd | rfl
      · exact .inl hd
      · exact .inr fun l hl _ => hk l hl (by simp)
  · apply h.closed hi
    rw [← show s.interceptor i = k from interceptor_eq hi]
    exact hg
  · apply h.frame
    · exact fun j => rfl
    · intro url hurl
      rcases mem_contacts.mp hurl with hn | hc
      · cases hn
      · exact h.sound.contacts url (mem_contacts.mpr (.inr hc))
    · exact fun c hc => .inl hc

/-- A step that does not meet the condition leaves a state that is not sound. -/
theorem Wf.not_sound {a : HandleAction} (h : s.Wf control) (hg : ¬ s.Safe control a)
    (hs : s.step a = some s') : ¬ s'.Sound control := by
  intro hp
  apply hg
  rcases step_cases hs with ⟨file, port, c, rfl, rfl, hc, -⟩ | ⟨file, port, k, rfl, hc, ho, hf, rfl⟩ |
    ⟨i, k, rfl, hi, rfl⟩ | ⟨i, comesUp, k, rfl, hi, rfl⟩ | ⟨i, k, own, rfl, hi, rfl⟩ | ⟨rfl, rfl⟩
  · intro hopen hsome
    rcases hc with hc | hc
    · cases hopen.symm.trans hc
    · rw [hc] at hsome
      cases hsome
  · intro _ _
    rw [← (target_of_opened ho).1]
    apply hp.targets s.calls.length
    rw [interceptor_append rfl, if_pos rfl]
  · trivial
  · -- The call that now runs uses what the field holds.
    have hlt := (List.getElem?_eq_some_iff.mp hi).1
    have hcall : ⟨k, .running s.controlURL⟩ ∈ s.calls.set i ⟨k, .running s.controlURL⟩ :=
      List.mem_set hlt _
    have hurl := hp.contacts s.controlURL (mem_contacts.mpr (.inr ⟨_, hcall, rfl⟩))
    refine hurl.imp_right fun hserves => ?_
    rwa [serves_congr fun j => interceptor_advance hi rfl] at hserves
  · intro url hu
    refine or_iff_not_imp_left.mpr fun hc haddr => ?_
    have hthis : s.interceptor i = k := interceptor_eq hi
    rw [hthis] at haddr
    obtain ⟨m, rfl, rfl⟩ := Option.map_eq_some_iff.mp haddr
    have hm := h.listens _ (List.mem_of_getElem? hi) m rfl (by simp)
    -- Nothing else listens at the address of the interceptor that is closed.
    obtain ⟨j, l, hl, hs, hurl⟩ := serves_iff.mp
      ((hp.contacts _ (mem_contacts_returned.mpr hu)).resolve_left hc)
    rw [interceptor_set hi rfl] at hl
    split_ifs at hl with hj
    · cases hl
      cases hs
    · exact hj (h.distinct j i l m hl hthis hs hm hurl)
  · trivial

end Handle

/-- Through a run of any calls the interceptors and the node are sound exactly when every step meets
the condition. -/
theorem interceptors_sound_iff {dir control : Bytes} {as : List HandleAction} {s : Handle}
    (hr : (handle dir control).exec (.initial dir control) as = some s) :
    (handle dir control).Along (Handle.Sound control) (.initial dir control) as ↔
      (handle dir control).Meets (Handle.Safe control) (.initial dir control) as := by
  have hi : Handle.Wf control (.initial dir control) :=
    ⟨⟨fun i k hk => by simp [Handle.interceptor, Handle.initial] at hk, by rintro url ⟨⟩⟩,
      fun i j k l hk => by simp [Handle.interceptor, Handle.initial] at hk,
      fun c hc => by cases hc⟩
  apply Machine.along_iff_meets (fun s h => h.sound) ?_ ?_ hi hr
  · exact fun s a s' h hg hs => h.step hg hs
  · exact fun s a s' h hg hs => h.not_sound hg hs

def controlServer : Bytes := str "https://0123456789abcdef0123456789abcdef.headfwd.net"

def pinnedKey : Option Bytes := some (str "mkey:00")

/-- The handle is closed while `Up` still runs. -/
def cancelledUpRun : List HandleAction :=
  [.start pinnedKey (some (str "http://127.0.0.1:50000")), .write 0, .up 0 true, .close, .cleanup 0]

theorem interceptors_sound_cancelledRun :
    (handle (str "/state") controlServer).Along (Handle.Sound controlServer)
      (.initial (str "/state") controlServer) cancelledUpRun := by
  have h : ((handle (str "/state") controlServer).exec (.initial (str "/state") controlServer)
      cancelledUpRun).isSome := by decide +kernel
  obtain ⟨s, hr⟩ := Option.isSome_iff_exists.mp h
  exact (interceptors_sound_iff hr).mpr (by decide +kernel)

/-- The first call comes up; the handle after it has returned, or when a second one has begun. -/
def upRun : List HandleAction :=
  [.start pinnedKey (some (str "http://127.0.0.1:50000")), .write 0, .up 0 true]

/-- The first call fails and returns; the second gets no port. -/
def retriedRun : List HandleAction :=
  [.start pinnedKey (some (str "http://127.0.0.1:50000")), .write 0, .up 0 false, .cleanup 0,
    .start pinnedKey none, .up 1 false]

/-- The node is left with a port on which nothing listens; a second interceptor passes on to the
first; and a second `Up` runs with a port on which nothing listens. -/
theorem interceptor_outlived :
    let M := handle (str "/state") controlServer
    let s₀ := Handle.initial (str "/state") controlServer
    (∃ s, M.exec s₀ (upRun ++ [.cleanup 0]) = some s ∧
      s.node = some (str "http://127.0.0.1:50000") ∧
      s.serves (str "http://127.0.0.1:50000") = false ∧ ¬ s.Sound controlServer) ∧
    (∃ s, M.exec s₀ (upRun ++ [.start pinnedKey (some (str "http://127.0.0.1:50001"))]) = some s ∧
      (s.interceptor 1).map Interceptor.target = some (str "http://127.0.0.1:50000") ∧
      ¬ s.Sound controlServer) ∧
    ∃ s, M.exec s₀ retriedRun = some s ∧
      s.calls[1]?.bind UpCall.url = some (str "http://127.0.0.1:50000") ∧
      s.serves (str "http://127.0.0.1:50000") = false ∧ ¬ s.Sound controlServer := by
  intro M s₀
  have hfirst : (M.exec s₀ (upRun ++ [.cleanup 0])).any (fun s =>
      s.node = some (str "http://127.0.0.1:50000") ∧
        s.serves (str "http://127.0.0.1:50000") = false) = true := by decide +kernel
  have hsecond : (M.exec s₀ (upRun ++ [.start pinnedKey
      (some (str "http://127.0.0.1:50001"))])).any (fun s =>
        (s.interceptor 1).map Interceptor.target = some (str "http://127.0.0.1:50000")) = true := by
    decide +kernel
  have hthird : (M.exec s₀ retriedRun).any (fun s =>
      s.calls[1]?.bind UpCall.url = some (str "http://127.0.0.1:50000") ∧
        s.serves (str "http://127.0.0.1:50000") = false) = true := by decide +kernel
  have hne : str "http://127.0.0.1:50000" ≠ controlServer := by decide +kernel
  have hdead : ∀ s : Handle, str "http://127.0.0.1:50000" ∈ s.contacts →
      s.serves (str "http://127.0.0.1:50000") = false → ¬ s.Sound controlServer := by
    intro s hs hd h
    rcases h.contacts _ hs with he | hserves
    · exact hne he
    · cases hd.symm.trans hserves
  simp only [Option.any_eq_true, decide_eq_true_eq] at hfirst hsecond hthird
  obtain ⟨s, hs, hn, hd⟩ := hfirst
  obtain ⟨t, ht, hk⟩ := hsecond
  obtain ⟨u, hu, hc, hd'⟩ := hthird
  refine ⟨⟨s, hs, hn, hd, hdead s ?_ hd⟩, ⟨t, ht, hk, ?_⟩, u, hu, hc, hd', hdead u ?_ hd'⟩
  · exact Handle.mem_contacts.mpr (.inl hn)
  · intro h
    obtain ⟨k, hk, he⟩ := Option.map_eq_some_iff.mp hk
    exact hne (he.symm.trans (h.targets 1 k hk))
  · obtain ⟨c, hcall, hurl⟩ := Option.bind_eq_some_iff.mp hc
    exact Handle.mem_contacts.mpr (.inr ⟨c, List.mem_of_getElem? hcall, hurl⟩)

end HeadFwd.Ios
