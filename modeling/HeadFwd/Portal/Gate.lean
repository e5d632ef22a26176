import Mathlib.Data.Finset.Basic
import HeadFwd.Net.Address
import HeadFwd.Net.Http
import HeadFwd.Text.Utf8

/-! # The admin gate of the portal

`adminOnly` admits a request from the address it extracts. The extracted
address comes from two headers the client writes before it comes from the TCP
peer, so two requests of one peer are treated alike for every store and node
list exactly when the addresses they name are.
-/

namespace HeadFwd.Portal

open Text Net

/-- A node of the Headscale list, with the fields the gate reads. -/
structure Node where
  ipAddresses : List Bytes
  userName : Bytes
  deriving DecidableEq, Repr

/-- The second dotted part as a decimal number in 64-bit arithmetic; `none` when a character is
no digit. -/
def decimal64 (s : Bytes) : Option ℤ :=
  s.foldl (fun n c => n.bind fun n =>
    if isDigit c then some (Int.bmod (n * 10 + (c.toNat - 48)) (2 ^ 64)) else none) (some 0)

def isLocalIP (ip : Bytes) : Bool :=
  if (parseIP ip).any isLoopback then true
  else if (str "10.").isPrefixOf ip then true
  else if (str "192.168.").isPrefixOf ip then true
  else if (str "172.").isPrefixOf ip then
    match splitByteN (chr '.') 4 ip with
    | _ :: p :: _ =>
      match decimal64 p with
      | some n => 16 ≤ n && n ≤ 31
      | none => false
    | _ => false
  else false

/-- The host part of the TCP peer address, or all of it when it has no port. -/
def peerIP (r : Request) : Bytes :=
  match splitHostPort r.remoteAddr with
  | some (host, _) => host
  | none => r.remoteAddr

def extractIP (r : Request) : Bytes :=
  let xff := r.header.get (str "X-Forwarded-For")
  if xff ≠ [] then
    match splitByteN (chr ',') 2 xff with
    | p :: _ => trimSpace p
    | [] => []
  else
    let xri := r.header.get (str "X-Real-Ip")
    if xri ≠ [] then xri
    else peerIP r

/-- The user of the first node that lists the address; `nodes` is `none` when listing failed. -/
def resolveUser (ip : Bytes) (nodes : Option (List Node)) : Bytes :=
  match nodes with
  | none => []
  | some nodes =>
    match nodes.find? fun n => ip ∈ n.ipAddresses with
    | some n => n.userName
    | none => []

/-- The admins of an in-memory store. -/
abbrev Admins := Finset Bytes

/-- The decision of the middleware: the caller name placed in the context, or a refusal. An
absent store lets every request through without a name. -/
def adminOnly (store : Option Admins) (nodes : Option (List Node)) (r : Request) :
    Option (Option Bytes) :=
  match store with
  | none => some none
  | some admins =>
    let ip := extractIP r
    if isLocalIP ip then some (some (str "local"))
    else
      let userName := resolveUser ip nodes
      if userName = [] ∨ userName ∉ admins then none
      else some (some userName)

/-- A configured gate lets the request through. -/
def Admits (admins : Admins) (nodes : Option (List Node)) (r : Request) : Prop :=
  (adminOnly (some admins) nodes r).isSome

instance (admins : Admins) (nodes : Option (List Node)) (r : Request) :
    Decidable (Admits admins nodes r) := inferInstanceAs (Decidable (_ = true))

theorem admits_iff {admins : Admins} {nodes : Option (List Node)} {r : Request} :
    Admits admins nodes r ↔ isLocalIP (extractIP r) ∨
      resolveUser (extractIP r) nodes ≠ [] ∧ resolveUser (extractIP r) nodes ∈ admins := by
  unfold Admits adminOnly
  by_cases hl : isLocalIP (extractIP r)
  · simp [hl]
  · simp only [hl, Bool.false_eq_true, if_false, false_or]
    split_ifs with h
    · simp only [Option.isSome_none, Bool.false_eq_true, false_iff]
      tauto
    · simpa using h

theorem mem_of_resolveUser {ip : Bytes} {nodes : Option (List Node)}
    (h : resolveUser ip nodes ≠ []) :
    ∃ ns n, nodes = some ns ∧ n ∈ ns ∧ ip ∈ n.ipAddresses ∧ n.userName = resolveUser ip nodes := by
  cases nodes with
  | none => simp [resolveUser] at h
  | some ns =>
    simp only [resolveUser] at h ⊢
    cases hf : ns.find? fun n => ip ∈ n.ipAddresses with
    | none => rw [hf] at h; exact absurd rfl h
    | some n =>
      have hip : ip ∈ n.ipAddresses := by simpa using List.find?_some hf
      exact ⟨ns, n, rfl, List.mem_of_find?_eq_some hf, hip, rfl⟩

/-- The address the forwarding headers name. -/
def namedIP (h : Header) : Option Bytes :=
  let xff := h.get (str "X-Forwarded-For")
  let xri := h.get (str "X-Real-Ip")
  if xff ≠ [] then (splitByteN (chr ',') 2 xff).head?.map trimSpace
  else if xri ≠ [] then some xri
  else none

theorem splitByteN_two_ne_nil (c : UInt8) (s : Bytes) : splitByteN c 2 s ≠ [] := by
  unfold splitByteN
  split <;> simp

theorem extractIP_eq (r : Request) : extractIP r = (namedIP r.header).getD (peerIP r) := by
  unfold extractIP namedIP
  simp only
  split_ifs with h₁ h₂
  · cases hs : splitByteN (chr ',') 2 (r.header.get (str "X-Forwarded-For")) with
    | nil => exact absurd hs (splitByteN_two_ne_nil _ _)
    | cons p ps => rfl
  · rfl
  · rfl

/-- The TCP peer is local, or its address belongs to a node of an admin. -/
def PeerTrusted (admins : Admins) (nodes : Option (List Node)) (r : Request) : Prop :=
  isLocalIP (peerIP r) ∨
    ∃ ns n, nodes = some ns ∧ n ∈ ns ∧ peerIP r ∈ n.ipAddresses ∧ n.userName ∈ admins

/-- No store and no node list tells the two requests apart or admits one of them on anything but
its TCP peer. -/
def HeaderBlind (r₁ r₂ : Request) : Prop :=
  ∀ admins nodes, (Admits admins nodes r₁ ↔ Admits admins nodes r₂) ∧
    (Admits admins nodes r₁ → PeerTrusted admins nodes r₁) ∧
    (Admits admins nodes r₂ → PeerTrusted admins nodes r₂)

/-- A list with one node of one user, who is the only admin. -/
theorem admits_single {u : Bytes} (hu : u ≠ []) (ip : Bytes) (r : Request) :
    Admits {u} (some [⟨[ip], u⟩]) r ↔ isLocalIP (extractIP r) ∨ extractIP r = ip := by
  rw [admits_iff]
  by_cases h : extractIP r = ip <;> simp [resolveUser, h, hu]

theorem admits_unlisted (r : Request) : Admits ∅ none r ↔ isLocalIP (extractIP r) := by
  simp [admits_iff]

theorem HeaderBlind.named_peer {r₁ r₂ : Request} (h : HeaderBlind r₁ r₂)
    (hp : ¬ isLocalIP (peerIP r₁)) : extractIP r₁ = peerIP r₁ := by
  by_contra hne
  by_cases hl : isLocalIP (extractIP r₁)
  · rcases (h ∅ none).2.1 ((admits_unlisted r₁).mpr hl) with hp' | ⟨_, _, hn, -⟩
    · exact hp hp'
    · cases hn
  · have hu : str "u" ≠ [] := by decide
    have ha := (admits_single hu (extractIP r₁) r₁).mpr (.inr rfl)
    rcases (h _ _).2.1 ha with hp' | ⟨ns, n, hns, hn, hip, -⟩
    · exact hp hp'
    · cases hns
      simp only [List.mem_singleton] at hn
      subst hn
      exact hne (List.mem_singleton.mp hip).symm

theorem HeaderBlind.symm {r₁ r₂ : Request} (h : HeaderBlind r₁ r₂) : HeaderBlind r₂ r₁ :=
  fun admins nodes => ⟨(h admins nodes).1.symm, (h admins nodes).2.2, (h admins nodes).2.1⟩

theorem HeaderBlind.alike {r₁ r₂ : Request} (h : HeaderBlind r₁ r₂) :
    extractIP r₁ = extractIP r₂ ∨ isLocalIP (extractIP r₁) ∧ isLocalIP (extractIP r₂) := by
  have hl : isLocalIP (extractIP r₁) ↔ isLocalIP (extractIP r₂) := by
    rw [← admits_unlisted, ← admits_unlisted]
    exact (h ∅ none).1
  by_cases hl₁ : isLocalIP (extractIP r₁)
  · exact .inr ⟨hl₁, hl.mp hl₁⟩
  · have hu : str "u" ≠ [] := by decide
    have ha := (h _ _).1.mp ((admits_single hu (extractIP r₁) r₁).mpr (.inr rfl))
    rcases (admits_single hu _ r₂).mp ha with hl₂ | he
    · exact absurd (hl.mpr hl₂) hl₁
    · exact .inl he.symm

theorem peerTrusted_of_admits {admins : Admins} {nodes : Option (List Node)} {r : Request}
    (h : extractIP r = peerIP r ∨ isLocalIP (peerIP r)) (ha : Admits admins nodes r) :
    PeerTrusted admins nodes r := by
  rcases h with he | hl
  · rw [admits_iff, he] at ha
    rcases ha with hl | ⟨hne, hmem⟩
    · exact .inl hl
    · obtain ⟨ns, n, hns, hn, hip, hu⟩ := mem_of_resolveUser hne
      exact .inr ⟨ns, n, hns, hn, hip, hu ▸ hmem⟩
  · exact .inl hl

theorem admits_congr {admins : Admins} {nodes : Option (List Node)} {r₁ r₂ : Request}
    (h : extractIP r₁ = extractIP r₂ ∨ isLocalIP (extractIP r₁) ∧ isLocalIP (extractIP r₂)) :
    Admits admins nodes r₁ ↔ Admits admins nodes r₂ := by
  rw [admits_iff, admits_iff]
  rcases h with he | ⟨h₁, h₂⟩
  · rw [he]
  · simp [h₁, h₂]

/-- Two requests of one TCP peer are treated alike, and on the peer alone, exactly when neither
names an address other than the peer's, or the peer is local and the two addresses are
equal or both local. -/
theorem headerBlind_iff {r₁ r₂ : Request} (h : r₁.remoteAddr = r₂.remoteAddr) :
    HeaderBlind r₁ r₂ ↔
      let ip₁ := (namedIP r₁.header).getD (peerIP r₁)
      let ip₂ := (namedIP r₂.header).getD (peerIP r₂)
      ip₁ = peerIP r₁ ∧ ip₂ = peerIP r₂ ∨
        isLocalIP (peerIP r₁) ∧ (ip₁ = ip₂ ∨ isLocalIP ip₁ ∧ isLocalIP ip₂) := by
  have hp : peerIP r₁ = peerIP r₂ := by simp only [peerIP, h]
  simp only [← extractIP_eq]
  constructor
  · intro hb
    by_cases hl : isLocalIP (peerIP r₁)
    · exact .inr ⟨hl, hb.alike⟩
    · exact .inl ⟨hb.named_peer hl, hb.symm.named_peer (hp ▸ hl)⟩
  · rintro (⟨h₁, h₂⟩ | ⟨hl, ha⟩) admins nodes
    · exact ⟨admits_congr (.inl (by rw [h₁, h₂, hp])), peerTrusted_of_admits (.inl h₁),
        peerTrusted_of_admits (.inl h₂)⟩
    · exact ⟨admits_congr ha, peerTrusted_of_admits (.inr hl),
        peerTrusted_of_admits (.inr (hp ▸ hl))⟩

/-- A tailnet peer, with and without a forwarded loopback address. -/
def tailnetRequest (header : Header) : Request where
  method := str "GET"
  host := str "100.64.0.1:3001"
  remoteAddr := str "100.64.0.7:51820"
  header := header
  tls := false

theorem headerBlind_iff_tailnetRequest :
    (tailnetRequest []).remoteAddr =
        (tailnetRequest [(str "X-Real-Ip", [str "100.64.0.7"])]).remoteAddr ∧
      HeaderBlind (tailnetRequest []) (tailnetRequest [(str "X-Real-Ip", [str "100.64.0.7"])]) :=
  ⟨rfl, (headerBlind_iff rfl).mpr (by decide)⟩

theorem not_headerBlind_forwarded :
    ¬ (∀ r₁ r₂ : Request, r₁.remoteAddr = r₂.remoteAddr → HeaderBlind r₁ r₂) ∧
      Admits {str "alice"} (some []) (tailnetRequest [(str "X-Forwarded-For", [str "127.0.0.1"])]) ∧
      ¬ Admits {str "alice"} (some []) (tailnetRequest []) := by
  have ha : Admits {str "alice"} (some [])
      (tailnetRequest [(str "X-Forwarded-For", [str "127.0.0.1"])]) := by decide
  have hn : ¬ Admits {str "alice"} (some []) (tailnetRequest []) := by decide
  refine ⟨fun h => hn ?_, ha, hn⟩
  exact (h (tailnetRequest [(str "X-Forwarded-For", [str "127.0.0.1"])]) (tailnetRequest []) rfl
    _ _).1.mp ha

end HeadFwd.Portal
