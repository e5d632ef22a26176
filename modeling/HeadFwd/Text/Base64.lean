import HeadFwd.Text.Bytes

/-! # Base64

Standard base64 with padding. Decoding skips line ends, accepts padding only at
the very end and does not look at the bits that padding leaves over.
-/

namespace HeadFwd.Text

def base64Digit (n : ℕ) : UInt8 :=
  if n < 26 then UInt8.ofNat (65 + n)
  else if n < 52 then UInt8.ofNat (71 + n)
  else if n < 62 then UInt8.ofNat (n - 4)
  else if n = 62 then chr '+'
  else chr '/'

def base64Val (b : UInt8) : Option ℕ :=
  if chr 'A' ≤ b ∧ b ≤ chr 'Z' then some (b.toNat - 65)
  else if chr 'a' ≤ b ∧ b ≤ chr 'z' then some (b.toNat - 71)
  else if chr '0' ≤ b ∧ b ≤ chr '9' then some (b.toNat + 4)
  else if b = chr '+' then some 62
  else if b = chr '/' then some 63
  else none

def encodeBase64 : Bytes → Bytes
  | [] => []
  | [a] =>
    let n := a.toNat * 2 ^ 16
    [base64Digit (n / 2 ^ 18), base64Digit (n / 2 ^ 12 % 64), chr '=', chr '=']
  | [a, b] =>
    let n := a.toNat * 2 ^ 16 + b.toNat * 2 ^ 8
    [base64Digit (n / 2 ^ 18), base64Digit (n / 2 ^ 12 % 64), base64Digit (n / 2 ^ 6 % 64), chr '=']
  | a :: b :: c :: s =>
    let n := a.toNat * 2 ^ 16 + b.toNat * 2 ^ 8 + c.toNat
    base64Digit (n / 2 ^ 18) :: base64Digit (n / 2 ^ 12 % 64) :: base64Digit (n / 2 ^ 6 % 64) ::
      base64Digit (n % 64) :: encodeBase64 s

/-- Decode groups of four characters, without line ends. -/
def decodeGroups : Bytes → Option Bytes
  | [] => some []
  | a :: b :: c :: d :: s => do
    let x ← base64Val a
    let y ← base64Val b
    let n := x * 2 ^ 18 + y * 2 ^ 12
    if c = chr '=' then
      if d = chr '=' ∧ s = [] then return [UInt8.ofNat (n / 2 ^ 16)] else none
    else
      let z ← base64Val c
      let n := n + z * 2 ^ 6
      if d = chr '=' then
        if s = [] then return [UInt8.ofNat (n / 2 ^ 16), UInt8.ofNat (n / 2 ^ 8)] else none
      else
        let w ← base64Val d
        let n := n + w
        let t ← decodeGroups s
        return UInt8.ofNat (n / 2 ^ 16) :: UInt8.ofNat (n / 2 ^ 8) :: UInt8.ofNat n :: t
  | _ => none

def decodeBase64 (s : Bytes) : Option Bytes :=
  decodeGroups (s.filter fun b => b ≠ chr '\n' ∧ b ≠ chr '\r')

theorem base64Val_base64Digit : ∀ {n : ℕ}, n < 64 → base64Val (base64Digit n) = some n := by
  decide

/-- A digit is ASCII, and neither padding nor a line end. -/
theorem base64Digit_plain : ∀ {n : ℕ}, n < 64 → base64Digit n < 0x80 ∧
    base64Digit n ≠ chr '=' ∧ base64Digit n ≠ chr '\n' ∧ base64Digit n ≠ chr '\r' := by
  decide

theorem mem_encodeBase64 {s : Bytes} {b : UInt8} (h : b ∈ encodeBase64 s) :
    (∃ n < 64, b = base64Digit n) ∨ b = chr '=' := by
  fun_induction encodeBase64 s with
  | case1 => cases h
  | case2 a n =>
    have ha := a.toNat_lt
    simp only [List.mem_cons, List.not_mem_nil, or_false] at h
    rcases h with rfl | rfl | rfl | rfl
    · exact .inl ⟨_, by omega, rfl⟩
    · exact .inl ⟨_, by omega, rfl⟩
    · exact .inr rfl
    · exact .inr rfl
  | case3 a c n =>
    have ha := a.toNat_lt
    have hc := c.toNat_lt
    simp only [List.mem_cons, List.not_mem_nil, or_false] at h
    rcases h with rfl | rfl | rfl | rfl
    · exact .inl ⟨_, by omega, rfl⟩
    · exact .inl ⟨_, by omega, rfl⟩
    · exact .inl ⟨_, by omega, rfl⟩
    · exact .inr rfl
  | case4 a c d s n ih =>
    have ha := a.toNat_lt
    have hc := c.toNat_lt
    have hd := d.toNat_lt
    simp only [List.mem_cons] at h
    rcases h with rfl | rfl | rfl | rfl | h
    · exact .inl ⟨_, by omega, rfl⟩
    · exact .inl ⟨_, by omega, rfl⟩
    · exact .inl ⟨_, by omega, rfl⟩
    · exact .inl ⟨_, by omega, rfl⟩
    · exact ih h

theorem lt_of_mem_encodeBase64 {s : Bytes} {b : UInt8} (h : b ∈ encodeBase64 s) : b < 0x80 := by
  rcases mem_encodeBase64 h with ⟨n, hn, rfl⟩ | rfl
  · exact (base64Digit_plain hn).1
  · decide

/-- There are no line ends to skip. -/
theorem filter_encodeBase64 (s : Bytes) :
    (encodeBase64 s).filter (fun b => b ≠ chr '\n' ∧ b ≠ chr '\r') = encodeBase64 s := by
  rw [List.filter_eq_self]
  intro b hb
  rcases mem_encodeBase64 hb with ⟨n, hn, rfl⟩ | rfl
  · simpa using (base64Digit_plain hn).2.2
  · decide

theorem decodeGroups_encodeBase64 (s : Bytes) : decodeGroups (encodeBase64 s) = some s := by
  have hval : ∀ {n}, n < 64 → base64Val (base64Digit n) = some n := base64Val_base64Digit
  have hpad : ∀ {n}, n < 64 → base64Digit n ≠ chr '=' := fun hn => (base64Digit_plain hn).2.1
  have hbyte : ∀ (n : ℕ) (a : UInt8), n % 256 = a.toNat → UInt8.ofNat n = a := by
    intro n a h
    rw [← UInt8.toNat_inj, UInt8.toNat_ofNat']
    exact h
  fun_induction encodeBase64 s with
  | case1 => rfl
  | case2 a n =>
    have ha := a.toNat_lt
    have h₁ : n / 2 ^ 18 < 64 := by omega
    have h₂ : n / 2 ^ 12 % 64 < 64 := by omega
    simp only [decodeGroups, hval h₁, hval h₂, Option.bind_eq_bind, Option.bind_some, if_true,
      and_self]
    exact congrArg (fun b => some [b]) (hbyte _ a (by omega))
  | case3 a b n =>
    have ha := a.toNat_lt
    have hb := b.toNat_lt
    have h₁ : n / 2 ^ 18 < 64 := by omega
    have h₂ : n / 2 ^ 12 % 64 < 64 := by omega
    have h₃ : n / 2 ^ 6 % 64 < 64 := by omega
    simp only [decodeGroups, hval h₁, hval h₂, hval h₃, if_neg (hpad h₃), Option.bind_eq_bind,
      Option.bind_some, if_true]
    rw [hbyte _ a (by omega), hbyte _ b (by omega)]
    rfl
  | case4 a b c s n ih =>
    have ha := a.toNat_lt
    have hb := b.toNat_lt
    have hc := c.toNat_lt
    have h₁ : n / 2 ^ 18 < 64 := by omega
    have h₂ : n / 2 ^ 12 % 64 < 64 := by omega
    have h₃ : n / 2 ^ 6 % 64 < 64 := by omega
    have h₄ : n % 64 < 64 := by omega
    simp only [decodeGroups, hval h₁, hval h₂, hval h₃, hval h₄, if_neg (hpad h₃),
      if_neg (hpad h₄), Option.bind_eq_bind, Option.bind_some, ih]
    rw [hbyte _ a (by omega), hbyte _ b (by omega), hbyte _ c (by omega)]
    rfl

theorem decodeBase64_encodeBase64 (s : Bytes) : decodeBase64 (encodeBase64 s) = some s := by
  rw [decodeBase64, filter_encodeBase64, decodeGroups_encodeBase64]

end HeadFwd.Text
