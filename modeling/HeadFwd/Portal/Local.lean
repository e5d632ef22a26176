import HeadFwd.Net.Url
import HeadFwd.Portal.Gate
import Mathlib.Algebra.Group.Int.Defs
import Mathlib.Data.FinEnum
import Mathlib.Tactic.Common

/-! # Local addresses

The gate takes a text for a local address when it parses to a loopback address
or begins like a private one. What begins like a private address need not be an
address at all, and the number after `172.` is read without a bound on its length.
A private address in IPv6 notation is not recognised.
-/

namespace HeadFwd.Portal

open Text Net

/-- The private networks: `10.0.0.0/8`, `172.16.0.0/12` and `192.168.0.0/16`. -/
def isPrivate (ip : Bytes) : Bool :=
  match to4 ip with
  | some (a :: b :: _) => a = 10 || (a = 172 && 16 ≤ b && b ≤ 31) || (a = 192 && b = 168)
  | _ => false

/-- The text of a loopback address or of one in a private network. -/
def LocalText (s : Bytes) : Prop := ∃ ip ∈ parseIP s, isLoopback ip = true ∨ isPrivate ip = true

/-- `172.` and a number, which is between 16 and 31 modulo `2 ^ 64`. -/
def Wraps (s : Bytes) : Prop :=
  ∃ p rest, s = str "172." ++ (p ++ rest) ∧ (rest = [] ∨ rest.head? = some (chr '.')) ∧
    (∀ c ∈ p, isDigit c = true) ∧ 16 ≤ decimal p % 2 ^ 64 ∧ decimal p % 2 ^ 64 ≤ 31

/-- The text begins like a private address. -/
def LooksPrivate (s : Bytes) : Prop := str "10." <+: s ∨ str "192.168." <+: s ∨ Wraps s

theorem decimal64_append (s : Bytes) (c : UInt8) :
    decimal64 (s ++ [c]) = (decimal64 s).bind fun n =>
      if isDigit c then some (Int.bmod (n * 10 + (c.toNat - 48)) (2 ^ 64)) else none := by
  simp only [decimal64, List.foldl_append, List.foldl_cons, List.foldl_nil]

/-- The loop over the digits computes their number modulo `2 ^ 64`. -/
theorem decimal64_eq (s : Bytes) :
    decimal64 s =
      if ∀ c ∈ s, isDigit c = true then some (Int.bmod (decimal s) (2 ^ 64)) else none := by
  induction s using List.reverseRecOn with
  | nil =>
    have hall : ∀ c ∈ ([] : Bytes), isDigit c = true := by
      rintro c ⟨⟩
    rw [if_pos hall]
    rfl
  | append_singleton s c ih =>
    rw [decimal64_append, ih]
    by_cases hs : ∀ c ∈ s, isDigit c = true
    · by_cases hc : isDigit c = true
      · have hd := isDigit_iff.mp hc
        have hall : ∀ b ∈ s ++ [c], isDigit b = true := by
          intro b hb
          rcases List.mem_append.mp hb with hb | hb
          · exact hs b hb
          · exact List.mem_singleton.mp hb ▸ hc
        have hcast : ((decimal s * 10 + (c.toNat - 48) : ℕ) : ℤ) =
            decimal s * 10 + (c.toNat - 48) := by omega
        rw [if_pos hs, if_pos hall, Option.bind_some, if_pos hc, decimal_append, hcast,
          ← Int.bmod_add_bmod, Int.bmod_mul_bmod, Int.bmod_add_bmod]
      · have hall : ¬ ∀ b ∈ s ++ [c], isDigit b = true := fun h => hc (h c (by simp))
        rw [if_pos hs, if_neg hall, Option.bind_some, if_neg hc]
    · have hall : ¬ ∀ b ∈ s ++ [c], isDigit b = true := fun h =>
        hs fun b hb => h b (List.mem_append_left _ hb)
      rw [if_neg hs, if_neg hall, Option.bind_none]

/-- The number is taken for one from 16 to 31. -/
theorem decimal64_range {p : Bytes} :
    (∃ n ∈ decimal64 p, 16 ≤ n ∧ n ≤ 31) ↔
      (∀ c ∈ p, isDigit c = true) ∧ 16 ≤ decimal p % 2 ^ 64 ∧ decimal p % 2 ^ 64 ≤ 31 := by
  rw [decimal64_eq]
  by_cases hp : ∀ c ∈ p, isDigit c = true
  · have hmod : Int.bmod (decimal p) (2 ^ 64) =
        if decimal p % 2 ^ 64 < 2 ^ 63 then ((decimal p % 2 ^ 64 : ℕ) : ℤ)
        else (decimal p % 2 ^ 64 : ℕ) - 2 ^ 64 := by
      rw [Int.bmod_def]
      split_ifs <;> omega
    rw [if_pos hp, hmod]
    rw [and_iff_right hp]
    simp only [Option.mem_some_iff, exists_eq_left']
    split_ifs <;> omega
  · simp [hp]

/-- The first part of a text that is split. -/
theorem splitByteN_cons (c : UInt8) (n : ℕ) (s : Bytes) :
    ∃ ps, splitByteN c (n + 2) s = s.takeWhile (fun b => b ≠ c) :: ps := by
  rw [splitByteN]
  by_cases hc : c ∈ s
  · obtain ⟨a, t, rfl, ha⟩ := List.eq_append_cons_of_mem hc
    rw [indexByte_append ha, takeWhile_append_of_notMem ha]
    simp only [List.take_left]
    exact ⟨_, rfl⟩
  · have hi : indexByte s c = none := by
      apply List.findIdx?_eq_none_iff.mpr
      intro b hb
      simpa using ne_of_mem_of_not_mem hb hc
    have ht : s.takeWhile (fun b => b ≠ c) = s := by
      rw [List.takeWhile_eq_self_iff]
      intro b hb
      simpa using ne_of_mem_of_not_mem hb hc
    rw [hi, ht]
    exact ⟨_, rfl⟩

/-- The second part of a text that starts with `172.`. -/
theorem splitByteN_172 (t : Bytes) :
    ∃ ps, splitByteN (chr '.') 4 (str "172." ++ t) =
      str "172" :: t.takeWhile (fun b => b ≠ chr '.') :: ps := by
  have happ : str "172." ++ t = str "172" ++ chr '.' :: t := rfl
  obtain ⟨ps, hps⟩ := splitByteN_cons (chr '.') 1 t
  rw [happ, splitByteN, indexByte_append (by decide)]
  refine ⟨ps, ?_⟩
  simp only [List.take_left]
  rw [← List.drop_drop, List.drop_left, List.drop_one, List.tail_cons, hps]

theorem wraps_iff {t : Bytes} :
    Wraps (str "172." ++ t) ↔
      ∃ n ∈ decimal64 (t.takeWhile fun b => b ≠ chr '.'), 16 ≤ n ∧ n ≤ 31 := by
  rw [decimal64_range]
  constructor
  · rintro ⟨p, rest, hs, hrest, hp, hrange⟩
    have hdot : chr '.' ∉ p := fun h => absurd (hp _ h) (by decide)
    have ht : t.takeWhile (fun b => b ≠ chr '.') = p := by
      rw [List.append_cancel_left hs]
      cases rest with
      | nil =>
        rw [List.append_nil, List.takeWhile_eq_self_iff]
        intro b hb
        simpa using ne_of_mem_of_not_mem hb hdot
      | cons c rest =>
        have hc : c = chr '.' := by simpa using hrest
        rw [hc, takeWhile_append_of_notMem hdot]
    rw [ht]
    exact ⟨hp, hrange⟩
  · rintro ⟨hp, hrange⟩
    refine ⟨_, t.dropWhile fun b => b ≠ chr '.', by rw [List.takeWhile_append_dropWhile], ?_, hp, hrange⟩
    cases hd : t.dropWhile fun b => b ≠ chr '.' with
    | nil => exact .inl rfl
    | cons c rest =>
      have hc := List.head?_dropWhile_not (fun b => b ≠ chr '.') t
      rw [hd] at hc
      exact .inr (by simpa using hc)

/-- What the gate takes for a local address. -/
theorem isLocalIP_iff {s : Bytes} :
    isLocalIP s = true ↔ (∃ ip ∈ parseIP s, isLoopback ip = true) ∨ LooksPrivate s := by
  have hany : (parseIP s).any isLoopback = true ↔ ∃ ip ∈ parseIP s, isLoopback ip = true := by
    cases parseIP s <;> simp
  have h172 : ¬ (str "172.").isPrefixOf s = true → ¬ Wraps s := by
    rintro h ⟨p, rest, rfl, -⟩
    exact h (List.isPrefixOf_iff_prefix.mpr (List.prefix_append ..))
  unfold isLocalIP LooksPrivate
  rw [← hany, ← List.isPrefixOf_iff_prefix, ← List.isPrefixOf_iff_prefix]
  split_ifs with hloop hten hone hseven
  · simp [hloop]
  · simp [hten]
  · simp [hone]
  · obtain ⟨t, rfl⟩ := List.isPrefixOf_iff_prefix.mp hseven
    obtain ⟨ps, hps⟩ := splitByteN_172 t
    rw [or_iff_right hloop, or_iff_right hten, or_iff_right hone, wraps_iff, hps]
    dsimp only
    cases decimal64 (t.takeWhile fun b => b ≠ chr '.') with
    | none => simp
    | some n => simp
  · simp [hloop, hten, hone, h172 hseven]

section Dotted

variable {a b x : Bytes}

/-- A text before the first dot. -/
theorem label_prefix_iff (hx : chr '.' ∉ x) (ha : chr '.' ∉ a) {u rest : Bytes} :
    x ++ chr '.' :: u <+: a ++ chr '.' :: rest ↔ x = a ∧ u <+: rest := by
  constructor
  · rintro ⟨t, ht⟩
    have hxa : x = a := by
      have hl := congrArg (List.takeWhile fun c => c ≠ chr '.') ht
      rw [List.append_assoc, List.cons_append, takeWhile_append_of_notMem hx,
        takeWhile_append_of_notMem ha] at hl
      exact hl
    subst hxa
    rw [List.append_assoc, List.append_cancel_left_eq, List.cons_append, List.cons.injEq] at ht
    exact ⟨rfl, t, ht.2⟩
  · rintro ⟨rfl, t, rfl⟩
    exact ⟨t, by simp⟩

theorem wraps_dotted_iff (ha : IsOctet a) (hb : IsOctet b) {rest : Bytes} :
    Wraps (a ++ chr '.' :: (b ++ chr '.' :: rest)) ↔
      a = str "172" ∧ 16 ≤ decimal b ∧ decimal b ≤ 31 := by
  have h172 : a = str "172" → (Wraps (a ++ chr '.' :: (b ++ chr '.' :: rest)) ↔
      16 ≤ decimal b ∧ decimal b ≤ 31) := by
    rintro rfl
    have hle := hb.le
    have happ : str "172" ++ chr '.' :: (b ++ chr '.' :: rest) =
        str "172." ++ (b ++ chr '.' :: rest) := rfl
    rw [happ, wraps_iff, takeWhile_append_of_notMem (hb.notMem rfl), decimal64_range,
      and_iff_right hb.digits, Nat.mod_eq_of_lt (by omega)]
  constructor
  · intro h
    have hpre : str "172" ++ chr '.' :: [] <+: a ++ chr '.' :: (b ++ chr '.' :: rest) := by
      obtain ⟨p, t, ht, -⟩ := h
      rw [ht]
      exact List.prefix_append (str "172.") _
    have hl := ((label_prefix_iff (by decide) (ha.notMem rfl)).mp hpre).1.symm
    exact ⟨hl, (h172 hl).mp h⟩
  · rintro ⟨hl, hrange⟩
    exact (h172 hl).mpr hrange

/-- Among dotted addresses the texts that begin like private ones are the private ones. -/
theorem looksPrivate_dotted_iff (ha : IsOctet a) (hb : IsOctet b) {rest v4 : Bytes} :
    LooksPrivate (a ++ chr '.' :: (b ++ chr '.' :: rest)) ↔
      isPrivate (mapped (UInt8.ofNat (decimal a) :: UInt8.ofNat (decimal b) :: v4)) = true := by
  have hten : IsOctet (str "10") :=
    ⟨by decide +kernel, by decide, by decide, by decide⟩
  have h172 : IsOctet (str "172") :=
    ⟨by decide +kernel, by decide, by decide, by decide⟩
  have h192 : IsOctet (str "192") :=
    ⟨by decide +kernel, by decide, by decide, by decide⟩
  have h168 : IsOctet (str "168") :=
    ⟨by decide +kernel, by decide, by decide, by decide⟩
  have hp10 : str "10." <+: a ++ chr '.' :: (b ++ chr '.' :: rest) ↔ decimal a = 10 := by
    have hs : str "10." = str "10" ++ chr '.' :: [] := rfl
    rw [hs, label_prefix_iff (hten.notMem rfl) (ha.notMem rfl), and_iff_left List.nil_prefix]
    exact ha.eq_iff hten rfl
  have hp192 : str "192.168." <+: a ++ chr '.' :: (b ++ chr '.' :: rest) ↔
      decimal a = 192 ∧ decimal b = 168 := by
    have hs : str "192.168." = str "192" ++ chr '.' :: (str "168" ++ chr '.' :: []) := rfl
    rw [hs, label_prefix_iff (h192.notMem rfl) (ha.notMem rfl),
      label_prefix_iff (h168.notMem rfl) (hb.notMem rfl), and_iff_left List.nil_prefix,
      ha.eq_iff (n := 192) h192 rfl, hb.eq_iff (n := 168) h168 rfl]
  have hp172 : a = str "172" ↔ decimal a = 172 := eq_comm.trans (ha.eq_iff h172 rfl)
  have hto4 : to4 (mapped (UInt8.ofNat (decimal a) :: UInt8.ofNat (decimal b) :: v4)) =
      some (UInt8.ofNat (decimal a) :: UInt8.ofNat (decimal b) :: v4) := rfl
  have hal := ha.le
  have hbl := hb.le
  rw [LooksPrivate, hp10, hp192, wraps_dotted_iff ha hb, hp172, isPrivate, hto4]
  simp only [Bool.or_eq_true, Bool.and_eq_true, decide_eq_true_eq, ← UInt8.toNat_inj,
    UInt8.le_iff_toNat_le, UInt8.toNat_ofNat', UInt8.reduceToNat]
  omega

end Dotted

/-- A text that begins like a private address is read as a dotted one. -/
theorem find_of_looksPrivate {s : Bytes} (h : LooksPrivate s) :
    (s.find? fun b => b = chr '.' ∨ b = chr ':' ∨ b = chr '%') = some (chr '.') := by
  rcases h with ⟨t, rfl⟩ | ⟨t, rfl⟩ | ⟨p, t, rfl, -⟩
  · rfl
  · rfl
  · rfl

theorem not_isPrivate_of_isLoopback {ip : Bytes} (h : isLoopback ip = true) :
    isPrivate ip = false := by
  unfold isLoopback at h
  unfold isPrivate
  cases hv : to4 ip with
  | none => rfl
  | some v4 =>
    rw [hv] at h
    match v4, h with
    | a :: b :: v4, h =>
      have ha : a = 127 := by simpa using h
      simp [ha]
    | [_], _ => rfl

/-- The gate recognises the texts of local addresses exactly, but for texts that begin like a private
address and are none, and for private addresses in IPv6 notation. -/
theorem isLocalIP_exact_iff (s : Bytes) :
    (isLocalIP s = true ↔ LocalText s) ↔
      (parseIP s = none → ¬ LooksPrivate s) ∧
        ∀ ip ∈ parseIP s, isPrivate ip = true → chr ':' ∉ s := by
  rw [isLocalIP_iff, LocalText]
  cases hp : parseIP s with
  | none => simp
  | some ip =>
    simp only [Option.mem_some_iff, exists_eq_left', forall_eq', reduceCtorEq, false_imp_iff, true_and]
    unfold parseIP at hp
    split at hp
    · rename_i c hfind
      split_ifs at hp with hdot hcolon
      · obtain ⟨v4, hv, rfl⟩ := Option.map_eq_some_iff.mp hp
        obtain ⟨a, b, c, d, ho, rfl, rfl⟩ := parseIPv4Fields_eq_some hv
        have hlooks : LooksPrivate (a ++ chr '.' :: (b ++ chr '.' :: (c ++ chr '.' :: d))) ↔
            isPrivate (mapped ([a, b, c, d].map fun p => UInt8.ofNat (decimal p))) = true :=
          looksPrivate_dotted_iff (ho a (by simp)) (ho b (by simp))
        have hcolon : chr ':' ∉ a ++ chr '.' :: (b ++ chr '.' :: (c ++ chr '.' :: d)) := by
          have hoct : ∀ p ∈ [a, b, c, d], chr ':' ∉ p := fun p hp => (ho p hp).notMem rfl
          simp only [List.mem_append, List.mem_cons, not_or]
          exact ⟨hoct a (by simp), by decide, hoct b (by simp), by decide, hoct c (by simp),
            by decide, hoct d (by simp)⟩
        rw [hlooks]
        exact iff_of_true Iff.rfl fun _ => hcolon
      · have hmem : chr ':' ∈ s := hcolon ▸ List.mem_of_find?_eq_some hfind
        have hlooks : ¬ LooksPrivate s := by
          intro h
          exact hdot (Option.some.inj (hfind.symm.trans (find_of_looksPrivate h)))
        by_cases hpriv : isPrivate ip = true
        · have hloop : ¬ isLoopback ip = true := fun hl => by
            rw [not_isPrivate_of_isLoopback hl] at hpriv
            cases hpriv
          simp [hlooks, hpriv, hloop, hmem]
        · simp [hlooks, hpriv]
    · cases hp

/-- Texts that are no addresses are let in as local: with anything after the first octets, and with a
number that wraps around. A private address in IPv6 notation is not. -/
theorem isLocalIP_inexact :
    let wrapped := str "172.18446744073709551632.0.1"
    (isLocalIP (str "10.example.net") = true ∧ ¬ LocalText (str "10.example.net")) ∧
      (isLocalIP wrapped = true ∧ ¬ LocalText wrapped) ∧
      isLocalIP (str "::ffff:10.0.0.1") = false ∧ LocalText (str "::ffff:10.0.0.1") := by
  have hn : ∀ {s : Bytes}, parseIP s = none → ¬ LocalText s := by
    rintro s hs ⟨ip, hip, -⟩
    cases hs.symm.trans hip
  refine ⟨⟨by decide +kernel, hn (by decide +kernel)⟩,
    ⟨by decide +kernel, hn (by decide +kernel)⟩, by decide +kernel, ?_⟩
  exact ⟨mapped [10, 0, 0, 1], by decide +kernel, .inr (by decide +kernel)⟩

end HeadFwd.Portal
