import HeadFwd.Portal.Gate

/-! # Identity headers for the upstream application

The director of `UpstreamHandler` removes the identity headers a client sent and
sets those of the node that lists the address `extractIP` returns. That address
comes from two headers of the client before it comes from the TCP peer. The default
director, which runs first, rewrites only the URL.
-/

namespace HeadFwd.Portal

open Text Net

/-- A node with the name that identifies the device. -/
structure Device extends Node where
  givenName : Bytes

def identityHeaders : List Bytes :=
  [str "X-Tailscale-User", str "X-Tailscale-Login", str "X-Tailscale-Device", str "X-Tailscale-IP"]

/-- A snapshot of the node list. Instants are in nanoseconds. -/
structure NodeCache where
  nodes : List Device
  expires : ℕ

def nodeCacheTTL : ℕ := 30 * 10 ^ 9

/-- The nodes for a request at the instant `now`. When they are listed anew, that ends at `done`;
`listing` is `none` when it fails. -/
def NodeCache.get (c : NodeCache) (now done : ℕ) (listing : Option (List Device)) :
    NodeCache × Option (List Device) :=
  if now < c.expires then (c, some c.nodes)
  else match listing with
    | none => (c, if c.nodes ≠ [] then some c.nodes else none)
    | some nodes => (⟨nodes, done + nodeCacheTTL⟩, some nodes)

def isTailnetIP (ip : Bytes) : Bool := (str "100.").isPrefixOf ip || (str "fd7a:").isPrefixOf ip

def stripIdentity (h : Header) : Header := identityHeaders.foldl Header.del h

def setIdentity (h : Header) (node : Device) (ip : Bytes) : Header :=
  (((h.set (str "X-Tailscale-User") node.userName).set (str "X-Tailscale-Login") node.userName).set
    (str "X-Tailscale-Device") node.givenName).set (str "X-Tailscale-IP") ip

/-- The node that lists an address. -/
def owner (nodes : Option (List Device)) (ip : Bytes) : Option Device :=
  nodes.bind (List.find? fun n => ip ∈ n.ipAddresses)

/-- The header of the request that is passed on. The cache is not asked for a client outside the
tailnet. -/
def director (c : NodeCache) (now done : ℕ) (listing : Option (List Device)) (r : Request) :
    NodeCache × Header :=
  let header := stripIdentity r.header
  let remoteIP := extractIP { r with header }
  if !isTailnetIP remoteIP then (c, header)
  else
    let (c', nodes) := c.get now done listing
    match owner nodes remoteIP with
    | none => (c', header)
    | some node => (c', setIdentity header node remoteIP)

/-- What the header says under the four names. -/
def identity (h : Header) : List (Option (List Bytes)) := identityHeaders.map h.values

/-- No identity, or that of the node that lists the address of the TCP peer. -/
def Authentic (nodes : Option (List Device)) (r : Request) (h : Header) : Prop :=
  identity h = [none, none, none, none] ∨
    ∃ n, owner nodes (peerIP r) = some n ∧
      identity h = [some [n.userName], some [n.userName], some [n.givenName], some [peerIP r]]

theorem lookup_foldl_del_of_notMem {k : Bytes} {names : List Bytes}
    (hk : k ∉ names.map canonicalHeaderKey) (h : Header) :
    List.lookup k (names.foldl Header.del h) = List.lookup k h := by
  induction names generalizing h with
  | nil => rfl
  | cons name names ih =>
    rw [List.map_cons, List.mem_cons, not_or] at hk
    rw [List.foldl_cons, ih hk.2, Header.lookup_del_of_ne hk.1]

theorem lookup_foldl_del_of_mem {k : Bytes} {names : List Bytes}
    (hk : k ∈ names.map canonicalHeaderKey) (h : Header) :
    List.lookup k (names.foldl Header.del h) = none := by
  induction names generalizing h with
  | nil => cases hk
  | cons name names ih =>
    rw [List.foldl_cons]
    by_cases hm : k ∈ names.map canonicalHeaderKey
    · exact ih hm _
    · obtain rfl | hk := List.mem_cons.mp hk
      · rw [lookup_foldl_del_of_notMem hm, Header.lookup_del_self]
      · exact absurd hk hm

theorem identity_stripIdentity (h : Header) :
    identity (stripIdentity h) = [none, none, none, none] := by
  have hn : ∀ name ∈ identityHeaders, (stripIdentity h).values name = none := fun name hm =>
    lookup_foldl_del_of_mem (List.mem_map_of_mem hm) h
  rw [identity, List.map_congr_left hn]
  rfl

theorem get_stripIdentity {name : Bytes} (hn : name ∉ identityHeaders.map canonicalHeaderKey)
    (h : Header) : (stripIdentity h).get name = h.get name := by
  rw [Header.get, Header.get, stripIdentity, lookup_foldl_del_of_notMem hn]

/-- The address does not depend on the headers that are removed. -/
theorem extractIP_stripIdentity (r : Request) :
    extractIP { r with header := stripIdentity r.header } = extractIP r := by
  have hx : (stripIdentity r.header).get (str "X-Forwarded-For") =
      r.header.get (str "X-Forwarded-For") := get_stripIdentity (by decide) r.header
  have hr : (stripIdentity r.header).get (str "X-Real-Ip") = r.header.get (str "X-Real-Ip") :=
    get_stripIdentity (by decide) r.header
  simp only [extractIP, hx, hr, peerIP]

theorem identity_setIdentity (h : Header) (n : Device) (ip : Bytes) :
    identity (setIdentity h n ip) =
      [some [n.userName], some [n.userName], some [n.givenName], some [ip]] := by
  have hl : canonicalHeaderKey (str "X-Tailscale-User") ≠ canonicalHeaderKey (str "X-Tailscale-Login") ∧
      canonicalHeaderKey (str "X-Tailscale-User") ≠ canonicalHeaderKey (str "X-Tailscale-Device") ∧
      canonicalHeaderKey (str "X-Tailscale-User") ≠ canonicalHeaderKey (str "X-Tailscale-IP") ∧
      canonicalHeaderKey (str "X-Tailscale-Login") ≠ canonicalHeaderKey (str "X-Tailscale-Device") ∧
      canonicalHeaderKey (str "X-Tailscale-Login") ≠ canonicalHeaderKey (str "X-Tailscale-IP") ∧
      canonicalHeaderKey (str "X-Tailscale-Device") ≠ canonicalHeaderKey (str "X-Tailscale-IP") := by
    decide
  obtain ⟨hul, hud, hui, hld, hli, hdi⟩ := hl
  simp only [identity, identityHeaders, List.map_cons, List.map_nil, setIdentity, Header.values,
    Header.lookup_set_self, Header.lookup_set_of_ne hul, Header.lookup_set_of_ne hud,
    Header.lookup_set_of_ne hui, Header.lookup_set_of_ne hld, Header.lookup_set_of_ne hli,
    Header.lookup_set_of_ne hdi]

theorem owner_eq_none_iff {nodes : Option (List Device)} {ip : Bytes} :
    owner nodes ip = none ↔ ∀ ns, nodes = some ns → ∀ n ∈ ns, ip ∉ n.ipAddresses := by
  cases nodes with
  | none => simp [owner]
  | some ns => simp [owner]

/-- The identity that is injected, in terms of the request as the client sent it. -/
theorem identity_director (c : NodeCache) (now done : ℕ) (listing : Option (List Device))
    (r : Request) :
    identity (director c now done listing r).2 =
      match isTailnetIP (extractIP r), owner (c.get now done listing).2 (extractIP r) with
      | true, some n =>
        [some [n.userName], some [n.userName], some [n.givenName], some [extractIP r]]
      | _, _ => [none, none, none, none] := by
  unfold director
  dsimp only
  rw [extractIP_stripIdentity]
  cases isTailnetIP (extractIP r) with
  | false => exact identity_stripIdentity r.header
  | true =>
    cases owner (c.get now done listing).2 (extractIP r) with
    | none => exact identity_stripIdentity r.header
    | some n => exact identity_setIdentity _ n _

/-- The identity passed on is authentic exactly if the address that the forwarding headers name, or
else that of the peer, is outside the tailnet, is listed by no node, or is that of the peer. -/
theorem authentic_director_iff (c : NodeCache) (now done : ℕ) (listing : Option (List Device))
    (r : Request) :
    Authentic (c.get now done listing).2 r (director c now done listing r).2 ↔
      isTailnetIP ((namedIP r.header).getD (peerIP r)) = false ∨
      (∀ ns, (c.get now done listing).2 = some ns → ∀ n ∈ ns,
        (namedIP r.header).getD (peerIP r) ∉ n.ipAddresses) ∨
      (namedIP r.header).getD (peerIP r) = peerIP r := by
  rw [Authentic, identity_director, ← extractIP_eq, ← owner_eq_none_iff]
  cases ht : isTailnetIP (extractIP r) with
  | false => simp
  | true =>
    cases ho : owner (c.get now done listing).2 (extractIP r) with
    | none => simp
    | some n =>
      simp only [Bool.true_eq_false, reduceCtorEq, false_or]
      constructor
      · rintro (h | ⟨m, -, h⟩)
        · simp at h
        · simp only [List.cons.injEq, Option.some.injEq, and_true] at h
          exact h.2.2.2
      · intro hip
        rw [hip] at ho ⊢
        exact .inr ⟨n, ho, rfl⟩

/-- Two nodes of two users. -/
def twoNodes : List Device :=
  [⟨⟨[str "100.64.0.1"], str "alice"⟩, str "alice-phone"⟩,
    ⟨⟨[str "100.64.0.2"], str "bob"⟩, str "bob-laptop"⟩]

/-- A request from the second node that names the address of the first one. -/
def spoofed : Request where
  method := str "GET"
  host := str "headfwd-server"
  remoteAddr := str "100.64.0.2:51820"
  header := [(str "X-Forwarded-For", [str "100.64.0.1"])]
  tls := false

/-- It is passed on under the identity of the first one. -/
theorem spoofed_identity :
    identity (director ⟨twoNodes, 1⟩ 0 0 none spoofed).2 =
        [some [str "alice"], some [str "alice"], some [str "alice-phone"], some [str "100.64.0.1"]] ∧
      ¬ Authentic (NodeCache.get ⟨twoNodes, 1⟩ 0 0 none).2 spoofed
        (director ⟨twoNodes, 1⟩ 0 0 none spoofed).2 := by
  have hi : identity (director ⟨twoNodes, 1⟩ 0 0 none spoofed).2 = [some [str "alice"],
      some [str "alice"], some [str "alice-phone"], some [str "100.64.0.1"]] := by
    decide
  have hip : peerIP spoofed ≠ str "100.64.0.1" := by decide
  constructor
  · exact hi
  · rintro (h | ⟨n, -, h⟩)
    · rw [hi] at h
      simp at h
    · rw [hi] at h
      simp only [List.cons.injEq, Option.some.injEq, and_true] at h
      exact hip h.2.2.2.symm

end HeadFwd.Portal
