import HeadFwd.Text.Bytes

/-! # Host, port and IP address texts

The standard parsers of socket addresses and IP addresses, with the same
accepted texts: decimal octets without leading zeros, IPv6 groups of at most
four digits, one ellipsis, and a trailing embedded IPv4 address. Addresses are
sixteen bytes, IPv4 addresses in mapped form.
-/

namespace HeadFwd.Net

open Text

/-- Split `host:port` or `[host]:port`; `none` is an error. -/
def splitHostPort (hp : Bytes) : Option (Bytes × Bytes) := do
  let i ← lastIndexByte hp (chr ':')
  if hp.head? = some (chr '[') then
    let e ← indexByte hp (chr ']')
    if e + 1 ≠ i then none
    else if chr '[' ∈ hp.drop 1 ∨ chr ']' ∈ hp.drop (e + 1) then none
    else some ((hp.take e).drop 1, hp.drop (i + 1))
  else if chr ':' ∈ hp.take i then none
  else if chr '[' ∈ hp ∨ chr ']' ∈ hp then none
  else some (hp.take i, hp.drop (i + 1))

def isDigit (b : UInt8) : Bool := chr '0' ≤ b && b ≤ chr '9'

/-- Read the remaining dotted fields. `prev` is the previous byte, `val` and `digits` the field
in progress, `fields` the finished ones. -/
def ipv4Fields : Bytes → Option UInt8 → ℕ → ℕ → Bytes → Option Bytes
  | [], _, val, _, fields => if fields.length < 3 then none else some (fields ++ [UInt8.ofNat val])
  | b :: s, prev, val, digits, fields =>
    if isDigit b then
      if digits = 1 ∧ val = 0 then none
      else if 255 < val * 10 + (b.toNat - 48) then none
      else ipv4Fields s (some b) (val * 10 + (b.toNat - 48)) (digits + 1) fields
    else if b = chr '.' then
      if prev = none ∨ s = [] ∨ prev = some (chr '.') then none
      else if fields.length = 3 then none
      else ipv4Fields s (some b) 0 0 (fields ++ [UInt8.ofNat val])
    else none

def parseIPv4Fields (s : Bytes) : Option Bytes := ipv4Fields s none 0 0 []

/-- The sixteen-byte form of an IPv4 address. -/
def mapped (v4 : Bytes) : Bytes := List.replicate 10 0 ++ [0xFF, 0xFF] ++ v4

/-- The hexadecimal digits at the head of a group, with their value and what follows them. -/
def hexGroup : Bytes → ℕ → ℕ → Option (ℕ × ℕ × Bytes)
  | [], off, acc => some (off, acc, [])
  | b :: s, off, acc =>
    match hexVal b with
    | some d => if 3 < off then none else hexGroup s (off + 1) (16 * acc + d)
    | none => some (off, acc, b :: s)

/-- The bytes read, the position of the ellipsis, and the rest of the text. -/
structure V6Read where
  ip : Bytes
  ellipsis : Option ℕ
  rest : Bytes

/-- Read colon-separated groups, at most `fuel` of them. -/
def ipv6Groups : ℕ → Bytes → Bytes → Option ℕ → Option V6Read
  | 0, s, ip, ellipsis => some ⟨ip, ellipsis, s⟩
  | fuel + 1, s, ip, ellipsis => do
    if 16 ≤ ip.length then return ⟨ip, ellipsis, s⟩
    let (off, acc, t) ← hexGroup s 0 0
    if off = 0 then none
    else if t.head? = some (chr '.') then
      if ellipsis = none ∧ ip.length ≠ 12 then none
      else if 16 < ip.length + 4 then none
      else do
        let v4 ← parseIPv4Fields s
        return ⟨ip ++ v4, ellipsis, []⟩
    else
      let ip := ip ++ [UInt8.ofNat (acc / 256), UInt8.ofNat (acc % 256)]
      match t with
      | [] => return ⟨ip, ellipsis, []⟩
      | c :: u =>
        if c ≠ chr ':' then none
        else match u with
          | [] => none
          | d :: v =>
            if d ≠ chr ':' then ipv6Groups fuel u ip ellipsis
            else if ellipsis ≠ none then none
            else if v = [] then return ⟨ip, some ip.length, []⟩
            else ipv6Groups fuel v ip (some ip.length)

/-- Expand the ellipsis to sixteen bytes. -/
def expand (r : V6Read) : Option Bytes :=
  if r.rest ≠ [] then none
  else if r.ip.length < 16 then
    r.ellipsis.map fun e => r.ip.take e ++ List.replicate (16 - r.ip.length) 0 ++ r.ip.drop e
  else if r.ellipsis ≠ none then none
  else some r.ip

/-- Addresses with a zone are rejected, as the caller rejects them. -/
def parseIPv6 (s : Bytes) : Option Bytes :=
  if chr '%' ∈ s then none
  else if (str "::").isPrefixOf s then
    if s.length = 2 then some (List.replicate 16 0)
    else (ipv6Groups 8 (s.drop 2) [] (some 0)).bind expand
  else (ipv6Groups 8 s [] none).bind expand

/-- The first of the three deciding characters selects the family. -/
def parseIP (s : Bytes) : Option Bytes :=
  match s.find? fun b => b = chr '.' ∨ b = chr ':' ∨ b = chr '%' with
  | some b =>
    if b = chr '.' then (parseIPv4Fields s).map mapped
    else if b = chr ':' then parseIPv6 s
    else none
  | none => none

/-- The four bytes of an address in mapped form. -/
def to4 (ip : Bytes) : Option Bytes :=
  if (List.replicate 10 (0 : UInt8) ++ [0xFF, 0xFF]).isPrefixOf ip then some (ip.drop 12) else none

def isLoopback (ip : Bytes) : Bool :=
  match to4 ip with
  | some v4 => v4.head? = some 127
  | none => ip = List.replicate 15 0 ++ [1]

/-- The number that a text of decimal digits stands for. -/
def decimal (s : Bytes) : ℕ := s.foldl (fun n c => n * 10 + (c.toNat - 48)) 0

theorem decimal_append (s : Bytes) (c : UInt8) :
    decimal (s ++ [c]) = decimal s * 10 + (c.toNat - 48) := by
  simp [decimal]

theorem isDigit_iff {b : UInt8} : isDigit b = true ↔ 48 ≤ b.toNat ∧ b.toNat ≤ 57 := by
  simp [isDigit, chr, UInt8.le_iff_toNat_le]

/-- A decimal number below 256 without leading zeros. -/
structure IsOctet (t : Bytes) : Prop where
  digits : ∀ c ∈ t, isDigit c = true
  ne_nil : t ≠ []
  leading : 1 < t.length → t.head? ≠ some (chr '0')
  le : decimal t ≤ 255

/-- The texts with dots between them. -/
def dotted : List Bytes → Bytes
  | [] => []
  | [p] => p
  | p :: q :: ps => p ++ chr '.' :: dotted (q :: ps)

/-- What the parser knows of the field in progress, `t`, and of the text around it. -/
structure Reading (t : Bytes) (prev : Option UInt8) (s fields : Bytes) : Prop where
  digits : ∀ c ∈ t, isDigit c = true
  leading : 1 < t.length → t.head? ≠ some (chr '0')
  le : decimal t ≤ 255
  start : t = [] → prev = none ∨ prev = some (chr '.')
  more : t = [] → s ≠ [] ∨ fields.length < 3
  count : fields.length ≤ 3

theorem Reading.digit {t : Bytes} {prev : Option UInt8} {b : UInt8} {s fields : Bytes}
    (h : Reading t prev (b :: s) fields) (hb : isDigit b = true)
    (hz : ¬ (t.length = 1 ∧ decimal t = 0)) (hle : ¬ 255 < decimal t * 10 + (b.toNat - 48)) :
    Reading (t ++ [b]) (some b) s fields where
  digits c hc := by
    rcases List.mem_append.mp hc with hc | hc
    · exact h.digits c hc
    · rw [List.mem_singleton.mp hc]
      exact hb
  leading hl hh := by
    cases t with
    | nil => simp at hl
    | cons c t =>
      have hc : c = chr '0' := by simpa using hh
      by_cases ht : 1 < (c :: t).length
      · exact h.leading ht (by rw [List.head?_cons, hc])
      · have hnil : t = [] := by simpa using ht
        subst hnil hc
        exact hz (by decide)
  le := by
    rw [decimal_append]
    omega
  start ht := by simp at ht
  more ht := by simp at ht
  count := h.count

/-- A text that is parsed consists of four octets, or of as many as are missing. -/
theorem ipv4Fields_eq_some {s t fields out : Bytes} {prev : Option UInt8}
    (hr : Reading t prev s fields)
    (h : ipv4Fields s prev (decimal t) t.length fields = some out) :
    ∃ ps : List Bytes, (∀ p ∈ ps, IsOctet p) ∧ ps ≠ [] ∧ dotted ps = t ++ s ∧
      fields.length + ps.length = 4 ∧ out = fields ++ ps.map fun p => UInt8.ofNat (decimal p) := by
  induction s generalizing t prev fields with
  | nil =>
    rw [ipv4Fields] at h
    split_ifs at h with hlt
    cases h
    have ht : t ≠ [] := fun ht => (hr.more ht).elim (absurd rfl) hlt
    have hcount := hr.count
    refine ⟨[t], ?_, by simp, by simp [dotted], by simp; omega, rfl⟩
    rintro p (_ | ⟨_, ⟨⟩⟩)
    exact ⟨hr.digits, ht, hr.leading, hr.le⟩
  | cons b s ih =>
    rw [ipv4Fields] at h
    split_ifs at h with hb hz hle hdot hstop hfull
    · have hnext := hr.digit hb hz hle
      rw [← decimal_append] at h
      obtain ⟨ps, hps, hne, hd, hc, rfl⟩ := ih hnext (by simpa using h)
      exact ⟨ps, hps, hne, by simpa using hd, hc, rfl⟩
    · simp only [not_or] at hstop
      have ht : t ≠ [] := fun ht => (hr.start ht).elim hstop.1 hstop.2.2
      have hnext : Reading [] (some b) s (fields ++ [UInt8.ofNat (decimal t)]) := by
        have hcount := hr.count
        refine ⟨nofun, by simp, by simp [decimal], fun _ => .inr (by rw [hdot]),
          fun _ => .inl hstop.2.1, ?_⟩
        simp only [List.length_append, List.length_singleton]
        omega
      obtain ⟨ps, hps, hne, hd, hc, rfl⟩ := ih hnext h
      obtain ⟨q, qs, rfl⟩ := List.exists_cons_of_ne_nil hne
      refine ⟨t :: q :: qs, ?_, by simp, ?_, ?_, by simp⟩
      · rintro p (_ | ⟨_, hp⟩)
        · exact ⟨hr.digits, ht, hr.leading, hr.le⟩
        · exact hps p hp
      · rw [dotted, hd, hdot]
        rfl
      · simp only [List.length_append, List.length_cons, List.length_nil] at hc ⊢
        omega

theorem parseIPv4Fields_eq_some {s v4 : Bytes} (h : parseIPv4Fields s = some v4) :
    ∃ a b c d : Bytes, (∀ p ∈ [a, b, c, d], IsOctet p) ∧
      s = a ++ chr '.' :: (b ++ chr '.' :: (c ++ chr '.' :: d)) ∧
      v4 = [a, b, c, d].map fun p => UInt8.ofNat (decimal p) := by
  have hr : Reading [] none s [] :=
    ⟨nofun, by simp, by simp [decimal], fun _ => .inl rfl, fun _ => .inr (by simp), by simp⟩
  obtain ⟨ps, hps, -, hd, hc, rfl⟩ := ipv4Fields_eq_some hr h
  obtain ⟨a, b, c, d, rfl⟩ : ∃ a b c d, ps = [a, b, c, d] := by
    match ps, hc with
    | [a, b, c, d], _ => exact ⟨a, b, c, d, rfl⟩
  exact ⟨a, b, c, d, hps, hd.symm, rfl⟩

theorem le_foldl_decimal (s : Bytes) (n : ℕ) : n ≤ s.foldl (fun n c => n * 10 + (c.toNat - 48)) n := by
  induction s generalizing n with
  | nil => exact le_rfl
  | cons c s ih =>
    have h := ih (n * 10 + (c.toNat - 48))
    rw [List.foldl_cons]
    omega

/-- The digits of an octet: there are at most three. -/
theorem IsOctet.shape {t : Bytes} (h : IsOctet t) :
    (∃ x, t = [x] ∧ decimal t < 10) ∨ (∃ x y, t = [x, y] ∧ 10 ≤ decimal t ∧ decimal t < 100) ∨
      ∃ x y z, t = [x, y, z] ∧ 100 ≤ decimal t := by
  have first : ∀ {x y : UInt8} {r : Bytes}, t = x :: y :: r → 49 ≤ x.toNat := by
    rintro x y r rfl
    have hx := isDigit_iff.mp (h.digits x (by simp))
    have hne : x ≠ chr '0' := fun hx => h.leading (by simp) (by rw [List.head?_cons, hx])
    have hne : x.toNat ≠ 48 := fun hn => hne (UInt8.toNat_inj.mp hn)
    omega
  match t, h with
  | [], h => exact absurd rfl h.ne_nil
  | [x], h =>
    have hx := isDigit_iff.mp (h.digits x (by simp))
    refine .inl ⟨x, rfl, ?_⟩
    simp only [decimal, List.foldl_cons, List.foldl_nil]
    omega
  | [x, y], h =>
    have hx := isDigit_iff.mp (h.digits x (by simp))
    have hy := isDigit_iff.mp (h.digits y (by simp))
    have hone := first rfl
    refine .inr (.inl ⟨x, y, rfl, ?_⟩)
    simp only [decimal, List.foldl_cons, List.foldl_nil]
    omega
  | [x, y, z], h =>
    have hone := first rfl
    refine .inr (.inr ⟨x, y, z, rfl, ?_⟩)
    simp only [decimal, List.foldl_cons, List.foldl_nil]
    omega
  | x :: y :: z :: w :: r, h =>
    have hone := first rfl
    have hle := h.le
    have hge := le_foldl_decimal r
      ((((0 * 10 + (x.toNat - 48)) * 10 + (y.toNat - 48)) * 10 + (z.toNat - 48)) * 10 + (w.toNat - 48))
    simp only [decimal, List.foldl_cons] at hle
    omega

/-- An octet is determined by its value. -/
theorem IsOctet.eq_of_decimal {t u : Bytes} (ht : IsOctet t) (hu : IsOctet u)
    (h : decimal t = decimal u) : t = u := by
  have eq : ∀ {x y : UInt8}, 48 ≤ x.toNat → 48 ≤ y.toNat → x.toNat - 48 = y.toNat - 48 → x = y := by
    intro x y hx hy hxy
    apply UInt8.toNat_inj.mp
    omega
  have hdt := fun c hc => isDigit_iff.mp (ht.digits c hc)
  have hdu := fun c hc => isDigit_iff.mp (hu.digits c hc)
  rcases ht.shape with ⟨x, rfl, _⟩ | ⟨x, y, rfl, _⟩ | ⟨x, y, z, rfl, _⟩ <;>
    rcases hu.shape with ⟨x', rfl, _⟩ | ⟨x', y', rfl, _⟩ | ⟨x', y', z', rfl, _⟩ <;>
    first | omega | skip
  all_goals
    simp only [decimal, List.foldl_cons, List.foldl_nil, List.mem_cons, List.not_mem_nil, or_false,
      forall_eq_or_imp, forall_eq] at h hdt hdu
  · rw [eq (x := x) (y := x')] <;> omega
  · rw [eq (x := x) (y := x'), eq (x := y) (y := y')] <;> omega
  · rw [eq (x := x) (y := x'), eq (x := y) (y := y'), eq (x := z) (y := z')] <;> omega

theorem IsOctet.notMem {a : Bytes} (h : IsOctet a) {c : UInt8} (hc : isDigit c = false) : c ∉ a := by
  intro hm
  rw [h.digits c hm] at hc
  cases hc

/-- An octet is found by its digits or by its value. -/
theorem IsOctet.eq_iff {a x : Bytes} (h : IsOctet a) {n : ℕ} (hx : IsOctet x) (hn : decimal x = n) :
    x = a ↔ decimal a = n := by
  constructor
  · rintro rfl
    exact hn
  · intro ha
    exact hx.eq_of_decimal h (hn.trans ha.symm)

end HeadFwd.Net
