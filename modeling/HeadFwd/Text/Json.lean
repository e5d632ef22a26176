import HeadFwd.Text.Utf8

/-! # JSON arrays of strings

The encoder escapes a string rune by rune. The decoder is a scanner that reads
one byte at a time, so decoding composes over concatenation and a truncated
text stops in the state its last byte left. Encoding and decoding compose to
the replacement of invalid UTF-8.
-/

namespace HeadFwd.Text.Json

/-- The bytes escaped by a backslash and one letter. -/
def shortEscape (b : UInt8) : Option UInt8 :=
  if b = chr '"' then some (chr '"')
  else if b = chr '\\' then some (chr '\\')
  else if b = 0x08 then some (chr 'b')
  else if b = 0x0C then some (chr 'f')
  else if b = 0x0A then some (chr 'n')
  else if b = 0x0D then some (chr 'r')
  else if b = 0x09 then some (chr 't')
  else none

/-- Control bytes and the bytes that are special in HTML are written as `\u00xx`. -/
def needsUnicode (b : UInt8) : Bool :=
  b < 0x20 || b = chr '<' || b = chr '>' || b = chr '&'

def escapeAscii (b : UInt8) : Bytes :=
  match shortEscape b with
  | some c => [chr '\\', c]
  | none =>
    if needsUnicode b then
      str "\\u00" ++ [hexDigit (b.toNat / 16), hexDigit (b.toNat % 16)]
    else [b]

def escapeRune : Rune → Bytes
  | .ascii b => escapeAscii b
  | .multi bs =>
    if bs = [0xE2, 0x80, 0xA8] then str "\\u2028"
    else if bs = [0xE2, 0x80, 0xA9] then str "\\u2029"
    else bs
  | .invalid => str "\\ufffd"

def quote (s : Bytes) : Bytes :=
  chr '"' :: ((runes s).flatMap escapeRune ++ [chr '"'])

/-- The elements after the first, each behind a comma. -/
def marshalRest (l : List Bytes) : Bytes := l.flatMap fun s => chr ',' :: quote s

/-- Encode a non-nil slice of strings. -/
def marshalStrings : List Bytes → Bytes
  | [] => str "[]"
  | s :: l => chr '[' :: (quote s ++ marshalRest l ++ [chr ']'])

/-- The white space of the JSON grammar. -/
def isSpace (b : UInt8) : Bool := b = 0x20 || b = 0x09 || b = 0x0A || b = 0x0D

def unescape (c : UInt8) : Option UInt8 :=
  if c = chr '"' then some (chr '"')
  else if c = chr '\\' then some (chr '\\')
  else if c = chr '/' then some (chr '/')
  else if c = chr 'b' then some 0x08
  else if c = chr 'f' then some 0x0C
  else if c = chr 'n' then some 0x0A
  else if c = chr 'r' then some 0x0D
  else if c = chr 't' then some 0x09
  else none

/-- The UTF-8 encoding of a code point. -/
def encodeRune (n : ℕ) : Bytes :=
  if n < 0x80 then [UInt8.ofNat n]
  else if n < 0x800 then [UInt8.ofNat (0xC0 + n / 64), UInt8.ofNat (0x80 + n % 64)]
  else if n < 0x10000 then
    [UInt8.ofNat (0xE0 + n / 4096), UInt8.ofNat (0x80 + n / 64 % 64), UInt8.ofNat (0x80 + n % 64)]
  else
    [UInt8.ofNat (0xF0 + n / 262144), UInt8.ofNat (0x80 + n / 4096 % 64),
      UInt8.ofNat (0x80 + n / 64 % 64), UInt8.ofNat (0x80 + n % 64)]

/-- The scanner between two bytes. The lists hold the elements read so far, the byte strings the
current element; `hi` is a high surrogate whose partner may follow. -/
inductive Scan where
  | start
  | opened
  | element (l : List Bytes)
  | text (l : List Bytes) (acc : Bytes) (hi : Option ℕ)
  | escaped (l : List Bytes) (acc : Bytes) (hi : Option ℕ)
  | unicode (l : List Bytes) (acc : Bytes) (hi : Option ℕ) (digits value : ℕ)
  | null (l : Option (List Bytes)) (expected : Bytes)
  | separator (l : List Bytes)
  | done (l : List Bytes)
  | failed

namespace Scan

/-- A high surrogate without its partner reads as U+FFFD. -/
def flush : Option ℕ → Bytes
  | some _ => Rune.replacement
  | none => []

def isLow (n : ℕ) : Bool := 0xDC00 ≤ n && n ≤ 0xDFFF

def isHigh (n : ℕ) : Bool := 0xD800 ≤ n && n ≤ 0xDBFF

/-- The state after the four digits of a `\u` escape. -/
def codeUnit (l : List Bytes) (acc : Bytes) (hi : Option ℕ) (n : ℕ) : Scan :=
  if isLow n then
    match hi with
    | some h => text l (acc ++ encodeRune (0x10000 + (h - 0xD800) * 1024 + (n - 0xDC00))) none
    | none => text l (acc ++ Rune.replacement) none
  else if isHigh n then text l (acc ++ flush hi) (some n)
  else text l (acc ++ flush hi ++ encodeRune n) none

/-- The first byte of an element. Values of other types make the decoding fail, so the scanner
does not follow them. -/
def value (l : List Bytes) (b : UInt8) : Scan :=
  if b = chr '"' then text l [] none
  else if b = chr 'n' then null (some l) (str "ull")
  else failed

def step : Scan → UInt8 → Scan
  | start, b =>
    if isSpace b then start
    else if b = chr '[' then opened
    else if b = chr 'n' then null none (str "ull")
    else failed
  | opened, b =>
    if isSpace b then opened
    else if b = chr ']' then done []
    else value [] b
  | element l, b => if isSpace b then element l else value l b
  | text l acc hi, b =>
    if b = chr '"' then separator (l ++ [sanitize (acc ++ flush hi)])
    else if b = chr '\\' then escaped l acc hi
    else if b < 0x20 then failed
    else text l (acc ++ flush hi ++ [b]) none
  | escaped l acc hi, b =>
    if b = chr 'u' then unicode l acc hi 0 0
    else match unescape b with
      | some c => text l (acc ++ flush hi ++ [c]) none
      | none => failed
  | unicode l acc hi k n, b =>
    match hexVal b with
    | some d => if k < 3 then unicode l acc hi (k + 1) (16 * n + d) else codeUnit l acc hi (16 * n + d)
    | none => failed
  | null l (c :: cs), b =>
    if b ≠ c then failed
    else if cs ≠ [] then null l cs
    else match l with
      | some l => separator (l ++ [[]])
      | none => done []
  | null _ [], _ => failed
  | separator l, b =>
    if isSpace b then separator l
    else if b = chr ',' then element l
    else if b = chr ']' then done l
    else failed
  | done l, b => if isSpace b then done l else failed
  | failed, _ => failed

end Scan

open Scan

/-- Decode a JSON text into a slice of strings; `null` leaves the slice empty. -/
def unmarshalStrings (s : Bytes) : Option (List Bytes) :=
  match s.foldl step start with
  | done l => some l
  | _ => none

theorem unmarshalStrings_eq_some {s : Bytes} {l : List Bytes} :
    unmarshalStrings s = some l ↔ s.foldl step start = done l := by
  unfold unmarshalStrings
  split <;> simp_all

theorem foldl_failed (s : Bytes) : s.foldl step failed = failed := by
  induction s with
  | nil => rfl
  | cons b s ih => exact ih

/-- Only white space may follow a complete text. -/
theorem isSpace_of_foldl_done {l m : List Bytes} {s : Bytes}
    (h : s.foldl step (done l) = done m) : ∀ b ∈ s, isSpace b := by
  induction s with
  | nil => simp
  | cons b s ih =>
    rw [List.foldl_cons, step] at h
    split_ifs at h with hb
    · simpa [hb] using ih h
    · rw [foldl_failed] at h
      cases h

theorem foldl_raw {l : List Bytes} {s : Bytes} (h : ∀ b ∈ s, 0x80 ≤ b) (acc : Bytes) :
    s.foldl step (text l acc none) = text l (acc ++ s) none := by
  induction s generalizing acc with
  | nil => simp
  | cons b s ih =>
    simp only [List.mem_cons, forall_eq_or_imp] at h
    have hb : 128 ≤ b.toNat := h.1
    have hq : b ≠ chr '"' := by rintro rfl; revert hb; decide
    have hs : b ≠ chr '\\' := by rintro rfl; revert hb; decide
    have hc : ¬ b < 0x20 := by rw [UInt8.lt_iff_toNat_lt]; simp; omega
    rw [List.foldl_cons, step, if_neg hq, if_neg hs, if_neg hc, ih h.2]
    simp [flush]

theorem unescape_shortEscape {b c : UInt8} (h : shortEscape b = some c) :
    c ≠ chr 'u' ∧ unescape c = some b := by
  unfold shortEscape at h
  split_ifs at h with h₁ h₂ h₃ h₄ h₅ h₆ h₇ <;> cases h <;> subst b <;> decide

theorem foldl_unicode_byte {b : UInt8} (h : b < 0x80) (l : List Bytes) (acc : Bytes) :
    (str "\\u00" ++ [hexDigit (b.toNat / 16), hexDigit (b.toNat % 16)]).foldl step
      (text l acc none) = text l (acc ++ [b]) none := by
  have hb : b.toNat < 128 := h
  have hn : 16 * (16 * (16 * (16 * 0 + 0) + 0) + b.toNat / 16) + b.toNat % 16 = b.toNat := by omega
  have hlow : isLow b.toNat = false := by simp [isLow]; omega
  have hhigh : isHigh b.toNat = false := by simp [isHigh]; omega
  have h₁ : step (unicode l acc none 2 (16 * (16 * 0 + 0) + 0)) (hexDigit (b.toNat / 16)) =
      unicode l acc none 3 (16 * (16 * (16 * 0 + 0) + 0) + b.toNat / 16) := by
    simp [step, hexVal_hexDigit (show b.toNat / 16 < 16 by omega)]
  have h₂ : step (unicode l acc none 3 (16 * (16 * (16 * 0 + 0) + 0) + b.toNat / 16))
      (hexDigit (b.toNat % 16)) = codeUnit l acc none b.toNat := by
    rw [step, hexVal_hexDigit (show b.toNat % 16 < 16 by omega)]
    simp only [hn, lt_irrefl, if_false]
  change step (step (unicode l acc none 2 (16 * (16 * 0 + 0) + 0)) (hexDigit (b.toNat / 16)))
    (hexDigit (b.toNat % 16)) = _
  rw [h₁, h₂]
  simp [codeUnit, hlow, hhigh, flush, encodeRune, hb]

theorem foldl_escapeAscii {b : UInt8} (h : b < 0x80) (l : List Bytes) (acc : Bytes) :
    (escapeAscii b).foldl step (text l acc none) = text l (acc ++ [b]) none := by
  unfold escapeAscii
  split
  · rename_i c hc
    obtain ⟨hu, he⟩ := unescape_shortEscape hc
    change step (escaped l acc none) c = _
    simp [step, hu, he, flush]
  · rename_i hs
    split_ifs with hn
    · exact foldl_unicode_byte h l acc
    · have hq : b ≠ chr '"' := by rintro rfl; revert hs; decide
      have hb : b ≠ chr '\\' := by rintro rfl; revert hs; decide
      have hc : ¬ b < 0x20 := by intro hc; simp [needsUnicode, hc] at hn
      simp only [List.foldl_cons, List.foldl_nil, step, if_neg hq, if_neg hb, if_neg hc]
      simp [flush]

theorem foldl_escapeRune {r : Rune} (hr : r.Wf) (l : List Bytes) (acc : Bytes) :
    (escapeRune r).foldl step (text l acc none) = text l (acc ++ r.bytes) none := by
  cases r with
  | ascii b => exact foldl_escapeAscii hr l acc
  | multi bs =>
    simp only [escapeRune]
    split_ifs with h₁ h₂
    · subst h₁
      change codeUnit l acc none 0x2028 = _
      simp [codeUnit, flush, Rune.bytes, encodeRune, isLow, isHigh]
    · subst h₂
      change codeUnit l acc none 0x2029 = _
      simp [codeUnit, flush, Rune.bytes, encodeRune, isLow, isHigh]
    · exact foldl_raw hr.high acc
  | invalid =>
    change codeUnit l acc none 0xFFFD = _
    simp [codeUnit, flush, Rune.bytes, Rune.replacement, encodeRune, isLow, isHigh]

theorem foldl_escape {rs : List Rune} (h : ∀ r ∈ rs, r.Wf) (l : List Bytes) (acc : Bytes) :
    (rs.flatMap escapeRune).foldl step (text l acc none) =
      text l (acc ++ rs.flatMap Rune.bytes) none := by
  induction rs generalizing acc with
  | nil => simp
  | cons r rs ih =>
    simp only [List.mem_cons, forall_eq_or_imp] at h
    rw [List.flatMap_cons, List.foldl_append, foldl_escapeRune h.1, ih h.2]
    simp

theorem foldl_quote {st : Scan} {l : List Bytes} (h : step st (chr '"') = text l [] none)
    (s : Bytes) : (quote s).foldl step st = separator (l ++ [sanitize s]) := by
  have hv : sanitize (sanitize s) = sanitize s := validUtf8_sanitize s
  rw [quote, List.foldl_cons, h, List.foldl_append, foldl_escape (runes_wf s)]
  change separator (l ++ [sanitize (sanitize s ++ flush none)]) = _
  rw [flush, List.append_nil, hv]

theorem foldl_marshalRest (l m : List Bytes) :
    (marshalRest m).foldl step (separator l) = separator (l ++ m.map sanitize) := by
  induction m generalizing l with
  | nil => simp [marshalRest]
  | cons s m ih =>
    have hq : (quote s).foldl step (element l) = separator (l ++ [sanitize s]) :=
      foldl_quote rfl s
    have he : marshalRest (s :: m) = chr ',' :: (quote s ++ marshalRest m) := by
      simp [marshalRest]
    rw [he, List.foldl_cons, List.foldl_append]
    change (marshalRest m).foldl step ((quote s).foldl step (element l)) = _
    rw [hq, ih]
    simp

/-- Decoding an encoded slice replaces the invalid UTF-8 of its elements. -/
theorem unmarshalStrings_marshalStrings (l : List Bytes) :
    unmarshalStrings (marshalStrings l) = some (l.map sanitize) := by
  rw [unmarshalStrings_eq_some]
  cases l with
  | nil => rfl
  | cons s l =>
    have hq : (quote s).foldl step opened = separator ([] ++ [sanitize s]) := foldl_quote rfl s
    rw [marshalStrings, List.foldl_cons, List.foldl_append, List.foldl_append]
    change step ((marshalRest l).foldl step ((quote s).foldl step opened)) (chr ']') = _
    rw [hq, foldl_marshalRest]
    rfl

theorem getLast_marshalStrings (l : List Bytes) : (marshalStrings l).getLast? = some (chr ']') := by
  cases l with
  | nil => rfl
  | cons s l => rw [marshalStrings, ← List.cons_append, List.getLast?_concat]

/-- No proper initial part of an encoded slice decodes. -/
theorem unmarshalStrings_take {l : List Bytes} {k : ℕ} (h : k < (marshalStrings l).length) :
    unmarshalStrings ((marshalStrings l).take k) = none := by
  by_contra hn
  obtain ⟨m, hm⟩ := Option.ne_none_iff_exists'.mp hn
  have hd := unmarshalStrings_eq_some.mp hm
  have hf := unmarshalStrings_eq_some.mp (unmarshalStrings_marshalStrings l)
  rw [← List.take_append_drop k (marshalStrings l), List.foldl_append, hd] at hf
  have hne : (marshalStrings l).drop k ≠ [] := by simp; omega
  have hlast : chr ']' ∈ (marshalStrings l).drop k := by
    have := getLast_marshalStrings l
    rw [← List.take_append_drop k (marshalStrings l), List.getLast?_append_of_ne_nil _ hne] at this
    exact List.mem_of_getLast? this
  have hspace := isSpace_of_foldl_done hf _ hlast
  revert hspace
  decide

/-- The elements a scanner state holds are valid UTF-8. -/
def Scan.Valid : Scan → Prop
  | element l | text l _ _ | escaped l _ _ | unicode l _ _ _ _ | separator l | done l =>
    ∀ s ∈ l, ValidUtf8 s
  | null l _ => ∀ s ∈ l.getD [], ValidUtf8 s
  | start | opened | failed => True

theorem Scan.Valid.step {st : Scan} (h : st.Valid) (b : UInt8) : (st.step b).Valid := by
  have hs : ∀ l : List Bytes, (∀ s ∈ l, ValidUtf8 s) → ∀ t : Bytes, ValidUtf8 t →
      ∀ s ∈ l ++ [t], ValidUtf8 s := by
    intro l hl t ht s hs
    rcases List.mem_append.mp hs with hs | hs
    · exact hl s hs
    · rw [List.mem_singleton.mp hs]; exact ht
  cases st with
  | start => simp only [Scan.step]; split_ifs <;> simp [Valid]
  | opened => simp only [Scan.step, value]; split_ifs <;> simp [Valid]
  | element l => simp only [Scan.step, value]; split_ifs <;> simp_all [Valid]
  | text l acc hi =>
    simp only [Scan.step]
    split_ifs
    · exact hs l h _ (validUtf8_sanitize _)
    all_goals simp_all [Valid]
  | escaped l acc hi =>
    simp only [Scan.step]
    split_ifs
    · exact h
    · split <;> simp_all [Valid]
  | unicode l acc hi k n =>
    simp only [Scan.step, codeUnit]
    repeat' split
    all_goals simp_all [Valid]
  | null l cs =>
    cases cs with
    | nil => trivial
    | cons c cs =>
      simp only [Scan.step]
      split_ifs
      · trivial
      · exact h
      · split
        · exact hs _ h _ rfl
        · simp [Valid]
  | separator l => simp only [Scan.step]; split_ifs <;> simp_all [Valid]
  | done l => simp only [Scan.step]; split_ifs <;> simp_all [Valid]
  | failed => trivial

theorem validUtf8_of_unmarshalStrings {s : Bytes} {l : List Bytes}
    (h : unmarshalStrings s = some l) : ∀ t ∈ l, ValidUtf8 t := by
  have hv : ∀ st : Scan, st.Valid → (s.foldl step st).Valid := by
    clear h
    induction s with
    | nil => exact fun _ hst => hst
    | cons b s ih => exact fun _ hst => ih _ (hst.step b)
  have hd := hv start trivial
  rw [unmarshalStrings_eq_some.mp h] at hd
  exact hd

end HeadFwd.Text.Json
