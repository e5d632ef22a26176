import HeadFwd.Portal.Upstream

/-! # The admin answer of `/api/me`

The interface shows the management pages to a caller whom `/api/me` calls an
admin, and the gate decides on its own whom it admits to them. The handler looks
a caller up only under a tailnet address, and without a store it calls nobody but
a local caller an admin, while the gate then admits everybody.
-/

namespace HeadFwd.Portal

open Text Net

structure MeResponse where
  userName : Bytes
  isAdmin : Bool
  isLocalAccess : Bool
  deriving DecidableEq, Repr

/-- The answer to a request; `nodes` is `none` when there is no client or listing failed. -/
def me (store : Option Admins) (nodes : Option (List Node)) (r : Request) : MeResponse :=
  let ip := extractIP r
  let isLocal := isLocalIP ip
  let userName := if isTailnetIP ip then resolveUser ip nodes else []
  let isAdmin :=
    match store with
    | some admins => if isLocal = false ∧ userName ≠ [] then decide (userName ∈ admins) else isLocal
    | none => isLocal
  { userName, isAdmin, isLocalAccess := isLocal }

section

variable {store : Option Admins} {admins : Admins} {nodes : Option (List Node)} {r : Request}

/-- Without a store only local callers are called admins. -/
theorem me_isAdmin_none : (me none nodes r).isAdmin = true ↔ isLocalIP (extractIP r) = true :=
  Iff.rfl

theorem me_isAdmin_some :
    (me (some admins) nodes r).isAdmin = true ↔ isLocalIP (extractIP r) = true ∨
      isTailnetIP (extractIP r) = true ∧ resolveUser (extractIP r) nodes ≠ [] ∧
        resolveUser (extractIP r) nodes ∈ admins := by
  simp only [me]
  cases isLocalIP (extractIP r) with
  | true => simp
  | false =>
    cases isTailnetIP (extractIP r) with
    | true =>
      by_cases hu : resolveUser (extractIP r) nodes = []
      · simp [hu]
      · simp [hu]
    | false => simp

/-- The first node that lists the address is one of an admin. -/
def AdminNode (admins : Admins) (nodes : Option (List Node)) (ip : Bytes) : Prop :=
  ∃ n ∈ nodes.bind fun ns => ns.find? fun n => ip ∈ n.ipAddresses,
    n.userName ≠ [] ∧ n.userName ∈ admins

theorem adminNode_iff {ip : Bytes} :
    AdminNode admins nodes ip ↔ resolveUser ip nodes ≠ [] ∧ resolveUser ip nodes ∈ admins := by
  cases nodes with
  | none => simp [AdminNode, resolveUser]
  | some ns =>
    simp only [AdminNode, resolveUser, Option.bind_some]
    cases ns.find? fun n => ip ∈ n.ipAddresses with
    | none => simp
    | some n => simp

/-- The answer and the gate agree exactly on the callers with a local address and, when there is a
store, on those with a tailnet address or with one that no node of an admin lists. -/
theorem me_agrees_iff :
    ((me store nodes r).isAdmin = true ↔ (adminOnly store nodes r).isSome = true) ↔
      isLocalIP (extractIP r) = true ∨ ∃ admins, store = some admins ∧
        (isTailnetIP (extractIP r) = true ∨ ¬ AdminNode admins nodes (extractIP r)) := by
  cases store with
  | none =>
    rw [me_isAdmin_none]
    simp [adminOnly]
  | some admins =>
    have hgate : (adminOnly (some admins) nodes r).isSome = true ↔
        isLocalIP (extractIP r) = true ∨ AdminNode admins nodes (extractIP r) := by
      rw [adminNode_iff]
      exact admits_iff
    rw [me_isAdmin_some, hgate, ← adminNode_iff]
    simp only [Option.some.injEq, exists_eq_left']
    tauto

end

/-- A portal without a store turns nobody away and calls a tailnet peer no admin; with one, so does
an admin whose node has an address outside the two prefixes. -/
theorem me_denies_admitted :
    ((me none (some []) (tailnetRequest [])).isAdmin = false ∧
      (adminOnly none (some []) (tailnetRequest [])).isSome = true) ∧
    let r := { tailnetRequest [] with remoteAddr := str "198.51.100.7:51820" }
    let nodes := some [⟨[str "198.51.100.7"], str "alice"⟩]
    (me (some {str "alice"}) nodes r).isAdmin = false ∧
      (adminOnly (some {str "alice"}) nodes r).isSome = true := by
  decide +kernel

end HeadFwd.Portal
