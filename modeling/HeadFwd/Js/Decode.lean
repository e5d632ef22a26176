import HeadFwd.Js.Value
import HeadFwd.Text.Utf8

/-! # Decoding UTF-8 to strings

`request.text()` writes one U+FFFD for every maximal part of an encoding that is cut
short, and keeps a byte order mark. Encoding the result gives the input back exactly
if that is valid.
-/

namespace HeadFwd.Js

open Text

/-- How many bytes after the leading byte `a` belong to an encoding that is not completed. -/
def subpart (a : UInt8) : Bytes → ℕ
  | [] => 0
  | [b] => if 3 ≤ leadWidth a ∧ secondOk a b then 1 else 0
  | b :: c :: _ =>
    if 3 ≤ leadWidth a ∧ secondOk a b then if leadWidth a = 4 ∧ isCont c then 2 else 1 else 0

def decodeRunes : Bytes → List Rune
  | [] => []
  | a :: s =>
    match runeWidth (a :: s), s with
    | 1, s => .ascii a :: decodeRunes s
    | 2, b :: s => .multi [a, b] :: decodeRunes s
    | 3, b :: c :: s => .multi [a, b, c] :: decodeRunes s
    | 4, b :: c :: d :: s => .multi [a, b, c, d] :: decodeRunes s
    | _, s =>
      match subpart a s, s with
      | 1, _ :: s => .invalid :: decodeRunes s
      | 2, _ :: _ :: s => .invalid :: decodeRunes s
      | _, s => .invalid :: decodeRunes s

/-- The code units of a character. -/
def units : Rune → JsString
  | .ascii a => [UInt16.ofNat a.toNat]
  | .multi [a, b] => [UInt16.ofNat ((a.toNat - 0xC0) * 64 + (b.toNat - 0x80))]
  | .multi [a, b, c] =>
    [UInt16.ofNat ((a.toNat - 0xE0) * 4096 + (b.toNat - 0x80) * 64 + (c.toNat - 0x80))]
  | .multi [a, b, c, d] =>
    let n := (a.toNat - 0xF0) * 2 ^ 18 + (b.toNat - 0x80) * 4096 + (c.toNat - 0x80) * 64 +
      (d.toNat - 0x80) - 0x10000
    [UInt16.ofNat (0xD800 + n / 1024), UInt16.ofNat (0xDC00 + n % 1024)]
  | _ => [0xFFFD]

def decodeUtf8 (s : Bytes) : JsString := (decodeRunes s).flatMap units

/-! ## Encodings are valid -/

theorem leadWidth_eq_two {a : UInt8} : leadWidth a = 2 ↔ 0xC2 ≤ a.toNat ∧ a.toNat < 0xE0 := by
  simp only [leadWidth, UInt8.lt_iff_toNat_lt, UInt8.reduceToNat]
  grind

theorem leadWidth_eq_three {a : UInt8} : leadWidth a = 3 ↔ 0xE0 ≤ a.toNat ∧ a.toNat < 0xF0 := by
  simp only [leadWidth, UInt8.lt_iff_toNat_lt, UInt8.reduceToNat]
  grind

theorem leadWidth_eq_four {a : UInt8} : leadWidth a = 4 ↔ 0xF0 ≤ a.toNat ∧ a.toNat < 0xF5 := by
  simp only [leadWidth, UInt8.lt_iff_toNat_lt, UInt8.reduceToNat]
  grind

theorem isCont_iff {b : UInt8} : isCont b = true ↔ 0x80 ≤ b.toNat ∧ b.toNat ≤ 0xBF := by
  simp only [isCont, Bool.and_eq_true, decide_eq_true_eq, UInt8.le_iff_toNat_le, UInt8.reduceToNat]

theorem secondOk_iff {a b : UInt8} :
    secondOk a b = true ↔ 0x80 ≤ b.toNat ∧ b.toNat ≤ 0xBF ∧ (a.toNat = 0xE0 → 0xA0 ≤ b.toNat) ∧
      (a.toNat = 0xF0 → 0x90 ≤ b.toNat) ∧ (a.toNat = 0xED → b.toNat ≤ 0x9F) ∧
      (a.toNat = 0xF4 → b.toNat ≤ 0x8F) := by
  simp only [secondOk, Bool.and_eq_true, decide_eq_true_eq, UInt8.le_iff_toNat_le,
    ← UInt8.toNat_inj, UInt8.reduceToNat]
  split_ifs <;> simp only [UInt8.reduceToNat] <;> omega

theorem wf_two {a b : UInt8} (ha : leadWidth a = 2) (hb : secondOk a b) : (Rune.multi [a, b]).Wf := by
  constructor
  · simp
  · intro t
    simp [runeWidth, ha, tailOk, hb]

theorem wf_three {a b c : UInt8} (ha : leadWidth a = 3) (hb : secondOk a b) (hc : isCont c) :
    (Rune.multi [a, b, c]).Wf := by
  constructor
  · simp
  · intro t
    simp [runeWidth, ha, tailOk, hb, hc]

theorem wf_four {a b c d : UInt8} (ha : leadWidth a = 4) (hb : secondOk a b) (hc : isCont c)
    (hd : isCont d) : (Rune.multi [a, b, c, d]).Wf := by
  constructor
  · simp
  · intro t
    simp [runeWidth, ha, tailOk, hb, hc, hd]

theorem toNat_ofNat_of_lt {n : ℕ} (h : n < 256) : (UInt8.ofNat n).toNat = n := by
  rw [UInt8.toNat_ofNat', Nat.mod_eq_of_lt h]

/-- A code unit on its own encodes to one character, a lone surrogate to U+FFFD. -/
theorem utf8Unit_eq_bytes (a : UInt16) : ∃ r : Rune, r.Wf ∧ utf8Unit a = r.bytes := by
  have ha : a.toNat < 65536 := a.toNat_lt
  unfold utf8Unit
  dsimp only
  split_ifs with h₁ h₂ h₃
  · refine ⟨.ascii (UInt8.ofNat a.toNat), ?_, rfl⟩
    rw [Rune.Wf, UInt8.lt_iff_toNat_lt, toNat_ofNat_of_lt (by omega)]
    exact h₁
  · refine ⟨.multi _, wf_two ?_ ?_, rfl⟩
    · rw [leadWidth_eq_two, toNat_ofNat_of_lt (by omega)]
      omega
    · rw [secondOk_iff, toNat_ofNat_of_lt (by omega), toNat_ofNat_of_lt (by omega)]
      omega
  · exact ⟨.invalid, trivial, rfl⟩
  · refine ⟨.multi _, wf_three ?_ ?_ ?_, rfl⟩
    · rw [leadWidth_eq_three, toNat_ofNat_of_lt (by omega)]
      omega
    · rw [secondOk_iff, toNat_ofNat_of_lt (by omega), toNat_ofNat_of_lt (by omega)]
      omega
    · rw [isCont_iff, toNat_ofNat_of_lt (by omega)]
      omega

theorem utf8Pair_eq_bytes {a b : UInt16} (ha : 0xD800 ≤ a) (ha' : a < 0xDC00) (hb : 0xDC00 ≤ b)
    (hb' : b < 0xE000) : ∃ r : Rune, r.Wf ∧ utf8Pair a b = r.bytes := by
  have ha : 0xD800 ≤ a.toNat := ha
  have ha' : a.toNat < 0xDC00 := ha'
  have hb : 0xDC00 ≤ b.toNat := hb
  have hb' : b.toNat < 0xE000 := hb'
  unfold utf8Pair
  dsimp only
  refine ⟨.multi _, wf_four ?_ ?_ ?_ ?_, rfl⟩
  · rw [leadWidth_eq_four, toNat_ofNat_of_lt (by omega)]
    omega
  · rw [secondOk_iff, toNat_ofNat_of_lt (by omega), toNat_ofNat_of_lt (by omega)]
    omega
  · rw [isCont_iff, toNat_ofNat_of_lt (by omega)]
    omega
  · rw [isCont_iff, toNat_ofNat_of_lt (by omega)]
    omega

theorem utf8_eq_flatMap (s : JsString) : ∃ rs : List Rune, (∀ r ∈ rs, r.Wf) ∧
    utf8 s = rs.flatMap Rune.bytes := by
  fun_induction utf8 s with
  | case1 => exact ⟨[], by simp, rfl⟩
  | case2 a =>
    obtain ⟨r, hr, he⟩ := utf8Unit_eq_bytes a
    exact ⟨[r], by simpa using hr, by simpa using he⟩
  | case3 a b s hp ih =>
    obtain ⟨r, hr, he⟩ := utf8Pair_eq_bytes hp.1 hp.2.1 hp.2.2.1 hp.2.2.2
    obtain ⟨rs, hrs, hes⟩ := ih
    exact ⟨r :: rs, by simpa using ⟨hr, hrs⟩, by rw [he, hes, List.flatMap_cons]⟩
  | case4 a b s hp ih =>
    obtain ⟨r, hr, he⟩ := utf8Unit_eq_bytes a
    obtain ⟨rs, hrs, hes⟩ := ih
    exact ⟨r :: rs, by simpa using ⟨hr, hrs⟩, by rw [he, hes, List.flatMap_cons]⟩

theorem validUtf8_utf8 (s : JsString) : ValidUtf8 (utf8 s) := by
  obtain ⟨rs, hrs, he⟩ := utf8_eq_flatMap s
  rw [he]
  exact sanitize_flatMap_bytes hrs

/-! ## Valid text survives -/

/-- Every byte that is replaced adds two bytes. -/
theorem length_sanitize (s : Bytes) :
    (sanitize s).length = s.length + 2 * (runes s).count .invalid := by
  unfold sanitize
  fun_induction runes s with
  | case1 => rfl
  | case2 a s hw ih =>
    simp only [hw, List.flatMap_cons, List.length_append, Rune.bytes] at ih ⊢
    simp [ih]
    omega
  | case3 a b s hw ih =>
    simp only [hw, List.flatMap_cons, List.length_append, Rune.bytes] at ih ⊢
    simp [ih]
    omega
  | case4 a b c s hw ih =>
    simp only [hw, List.flatMap_cons, List.length_append, Rune.bytes] at ih ⊢
    simp [ih]
    omega
  | case5 a b c d s hw ih =>
    simp only [hw, List.flatMap_cons, List.length_append, Rune.bytes] at ih ⊢
    simp [ih]
    omega
  | case6 a s h₁ h₂ h₃ h₄ ih => simp [Rune.bytes, Rune.replacement, ih]; omega

theorem invalid_notMem_runes {s : Bytes} (h : ValidUtf8 s) : .invalid ∉ runes s := by
  have hl := length_sanitize s
  rw [show sanitize s = s from h] at hl
  rw [← List.count_eq_zero]
  omega

theorem decodeRunes_eq_runes {s : Bytes} (h : .invalid ∉ runes s) : decodeRunes s = runes s := by
  fun_induction runes s with
  | case1 => rfl
  | case2 a s hw ih =>
    simp only [hw, List.mem_cons, not_or] at h
    rw [decodeRunes.eq_def]
    simp only [hw, ih h.2]
  | case3 a b s hw ih =>
    simp only [hw, List.mem_cons, not_or] at h
    rw [decodeRunes.eq_def]
    simp only [hw, ih h.2]
  | case4 a b c s hw ih =>
    simp only [hw, List.mem_cons, not_or] at h
    rw [decodeRunes.eq_def]
    simp only [hw, ih h.2]
  | case5 a b c d s hw ih =>
    simp only [hw, List.mem_cons, not_or] at h
    rw [decodeRunes.eq_def]
    simp only [hw, ih h.2]
  | case6 a s h₁ h₂ h₃ h₄ ih => simp at h

theorem utf8_cons {a : UInt16} (ha : ¬ (0xD800 ≤ a.toNat ∧ a.toNat < 0xDC00)) (t : JsString) :
    utf8 (a :: t) = utf8Unit a ++ utf8 t := by
  cases t with
  | nil => simp [utf8]
  | cons b t => exact if_neg fun h => ha ⟨h.1, h.2.1⟩

theorem utf8_ofAscii {s : Bytes} (h : ∀ b ∈ s, b < 0x80) : utf8 (ofAscii s) = s := by
  induction s with
  | nil => rfl
  | cons a s ih =>
    have ha : a.toUInt16.toNat < 0x80 := h a List.mem_cons_self
    change utf8 (a.toUInt16 :: ofAscii s) = _
    rw [utf8_cons (by omega), ih fun b hb => h b (List.mem_cons_of_mem _ hb), utf8Unit]
    rw [if_pos ha]
    simp

theorem not_lt_ofNat {n : ℕ} (h : 0x80 ≤ n) (h' : n < 256) : ¬ UInt8.ofNat n < 0x80 := by
  rw [UInt8.lt_iff_toNat_lt, UInt8.toNat_ofNat', Nat.mod_eq_of_lt h']
  exact Nat.not_lt.mpr h

/-- A unit whose encoding is ASCII is the unit of that byte. -/
theorem ofAscii_utf8Unit {a : UInt16} (h : ∀ b ∈ utf8Unit a, b < 0x80) :
    ofAscii (utf8Unit a) = [a] := by
  have ha : a.toNat < 65536 := a.toNat_lt
  unfold utf8Unit at h ⊢
  dsimp only at h ⊢
  split_ifs at h ⊢ with h₁ h₂ h₃
  · have hb : (UInt8.ofNat a.toNat).toUInt16 = a := by
      apply UInt16.toNat_inj.mp
      rw [UInt8.toNat_toUInt16, UInt8.toNat_ofNat', Nat.mod_eq_of_lt (by omega)]
    rw [ofAscii, List.map_singleton, hb]
  · exact absurd (h _ List.mem_cons_self) (not_lt_ofNat (by omega) (by omega))
  · exact absurd (h _ List.mem_cons_self) (by decide)
  · exact absurd (h _ List.mem_cons_self) (not_lt_ofNat (by omega) (by omega))

/-- Text whose encoding is ASCII consists of those bytes. -/
theorem ofAscii_utf8 {s : JsString} (h : ∀ b ∈ utf8 s, b < 0x80) : ofAscii (utf8 s) = s := by
  fun_induction utf8 s with
  | case1 => rfl
  | case2 a => exact ofAscii_utf8Unit h
  | case3 a b s hp ih =>
    have ha : a.toNat < 65536 := a.toNat_lt
    refine absurd (h (UInt8.ofNat (0xF0 + (0x10000 + (a.toNat - 0xD800) * 1024 +
      (b.toNat - 0xDC00)) / 2 ^ 18)) ?_) (not_lt_ofNat (by omega) ?_)
    · exact List.mem_append_left _ List.mem_cons_self
    · have ha' : a.toNat < 0xDC00 := hp.2.1
      have hb : b.toNat < 0xE000 := hp.2.2.2
      omega
  | case4 a b s hp ih =>
    have hunit := ofAscii_utf8Unit fun c hc => h c (List.mem_append_left _ hc)
    have hrest := ih fun c hc => h c (List.mem_append_right _ hc)
    rw [ofAscii, List.map_append]
    exact congr_arg₂ _ hunit hrest

theorem toNat_ofNat_of_lt' {n : ℕ} (h : n < 65536) : (UInt16.ofNat n).toNat = n := by
  rw [UInt16.toNat_ofNat', Nat.mod_eq_of_lt h]

theorem ofNat_eq {n : ℕ} {a : UInt8} (h : n = a.toNat) : UInt8.ofNat n = a := by
  rw [h, UInt8.ofNat_toNat]

/-- What a well-formed encoding of several bytes looks like. -/
theorem Wf.bounds {a b : UInt8} {s : Bytes} (h : (Rune.multi (a :: b :: s)).Wf) :
    leadWidth a = s.length + 2 ∧ secondOk a b ∧ s.all isCont := by
  have hw := h.2 []
  rw [List.append_nil] at hw
  rcases runeWidth_cases a (b :: s) with h0 | ⟨he, -, ht⟩
  · rw [h0] at hw
    cases hw
  · have hlead : leadWidth a = s.length + 2 := he.symm.trans hw
    rw [hlead] at ht
    simp only [show s.length + 2 - 1 = s.length + 1 from rfl,
      List.take_succ_cons, List.take_length, tailOk, Bool.and_eq_true] at ht
    exact ⟨hlead, ht.1, ht.2⟩

/-- The code units of a character encode to its bytes. -/
theorem utf8_units_append {r : Rune} (hr : r.Wf) (hi : r ≠ .invalid) (t : JsString) :
    utf8 (units r ++ t) = r.bytes ++ utf8 t := by
  match r, hr, hi with
  | .ascii a, hr, _ =>
    have ha : a.toNat < 0x80 := hr
    have hn := toNat_ofNat_of_lt' (n := a.toNat) (by omega)
    rw [units, List.singleton_append, utf8_cons (by omega), utf8Unit]
    simp only [hn, if_pos ha, UInt8.ofNat_toNat]
    rfl
  | .multi [a, b], hr, _ =>
    obtain ⟨ha, hb, -⟩ := Wf.bounds hr
    rw [List.length_nil, Nat.zero_add, leadWidth_eq_two] at ha
    rw [secondOk_iff] at hb
    have hn := toNat_ofNat_of_lt' (n := (a.toNat - 0xC0) * 64 + (b.toNat - 0x80)) (by omega)
    rw [units, List.singleton_append, utf8_cons (by omega), utf8Unit]
    simp only [hn]
    rw [if_neg (by omega), if_pos (by omega), ofNat_eq (a := a) (by omega),
      ofNat_eq (a := b) (by omega)]
    rfl
  | .multi [a, b, c], hr, _ =>
    obtain ⟨ha, hb, hc⟩ := Wf.bounds hr
    rw [List.length_singleton, leadWidth_eq_three] at ha
    rw [secondOk_iff] at hb
    rw [List.all_cons, List.all_nil, Bool.and_true, isCont_iff] at hc
    have hn := toNat_ofNat_of_lt'
      (n := (a.toNat - 0xE0) * 4096 + (b.toNat - 0x80) * 64 + (c.toNat - 0x80)) (by omega)
    rw [units, List.singleton_append, utf8_cons (by omega), utf8Unit]
    simp only [hn]
    rw [if_neg (by omega), if_neg (by omega), if_neg (by omega), ofNat_eq (a := a) (by omega),
      ofNat_eq (a := b) (by omega), ofNat_eq (a := c) (by omega)]
    rfl
  | .multi [a, b, c, d], hr, _ =>
    obtain ⟨ha, hb, hcd⟩ := Wf.bounds hr
    rw [List.length_cons, List.length_singleton, leadWidth_eq_four] at ha
    rw [secondOk_iff] at hb
    rw [List.all_cons, List.all_cons, List.all_nil, Bool.and_true, Bool.and_eq_true, isCont_iff,
      isCont_iff] at hcd
    obtain ⟨hc, hd⟩ := hcd
    obtain ⟨n, hn⟩ : ∃ n, n = (a.toNat - 0xF0) * 2 ^ 18 + (b.toNat - 0x80) * 4096 +
      (c.toNat - 0x80) * 64 + (d.toNat - 0x80) - 0x10000 := ⟨_, rfl⟩
    have hlt : n < 2 ^ 20 := by omega
    have hhi := toNat_ofNat_of_lt' (n := 0xD800 + n / 1024) (by omega)
    have hlo := toNat_ofNat_of_lt' (n := 0xDC00 + n % 1024) (by omega)
    have hpair : 0xD800 ≤ UInt16.ofNat (0xD800 + n / 1024) ∧
        UInt16.ofNat (0xD800 + n / 1024) < 0xDC00 ∧ 0xDC00 ≤ UInt16.ofNat (0xDC00 + n % 1024) ∧
        UInt16.ofNat (0xDC00 + n % 1024) < 0xE000 := by
      simp only [UInt16.le_iff_toNat_le, UInt16.lt_iff_toNat_lt, hhi, hlo, UInt16.reduceToNat]
      omega
    rw [units, ← hn]
    simp only [List.cons_append, List.nil_append]
    rw [utf8, if_pos hpair, utf8Pair]
    simp only [hhi, hlo]
    rw [ofNat_eq (a := a) (by omega), ofNat_eq (a := b) (by omega), ofNat_eq (a := c) (by omega),
      ofNat_eq (a := d) (by omega)]
    rfl
  | .multi [], hr, _ => exact absurd hr.1 (by simp)
  | .multi [a], hr, _ => exact absurd hr.1 (by simp)
  | .multi (a :: b :: c :: d :: e :: s), hr, _ =>
    have hl := leadWidth_le_four a
    rw [(Wf.bounds hr).1] at hl
    simp at hl

theorem utf8_flatMap_units {rs : List Rune} (hw : ∀ r ∈ rs, r.Wf) (hi : .invalid ∉ rs) :
    utf8 (rs.flatMap units) = rs.flatMap Rune.bytes := by
  induction rs with
  | nil => rfl
  | cons r rs ih =>
    rw [List.mem_cons, not_or] at hi
    rw [List.flatMap_cons, List.flatMap_cons,
      utf8_units_append (hw r List.mem_cons_self) (Ne.symm hi.1),
      ih (fun r hr => hw r (List.mem_cons_of_mem _ hr)) hi.2]

theorem utf8_decodeUtf8 {s : Bytes} (h : ValidUtf8 s) : utf8 (decodeUtf8 s) = s := by
  have hi := invalid_notMem_runes h
  rw [decodeUtf8, decodeRunes_eq_runes hi, utf8_flatMap_units (runes_wf s) hi]
  exact h

/-- Encoding the decoded text gives the bytes back exactly if they are valid. -/
theorem utf8_decodeUtf8_iff (s : Bytes) : utf8 (decodeUtf8 s) = s ↔ ValidUtf8 s := by
  constructor
  · intro h
    rw [← h]
    exact validUtf8_utf8 _
  · exact utf8_decodeUtf8

end HeadFwd.Js
