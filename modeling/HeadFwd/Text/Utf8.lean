import HeadFwd.Text.Bytes

/-! # Valid UTF-8 and its replacement characters

A byte string splits into well-formed UTF-8 encodings and single bytes that
start none. `sanitize` keeps the encodings and writes U+FFFD for each such
byte, which is what a string becomes when it passes through JSON.
-/

namespace HeadFwd.Text

/-- A UTF-8 continuation byte. -/
def isCont (b : UInt8) : Bool := 0x80 ≤ b && b ≤ 0xBF

/-- The second bytes admitted after a leading byte. -/
def secondOk (a b : UInt8) : Bool :=
  (if a = 0xE0 then 0xA0 else if a = 0xF0 then 0x90 else 0x80) ≤ b &&
    b ≤ (if a = 0xED then 0x9F else if a = 0xF4 then 0x8F else 0xBF)

/-- The bytes that may follow a leading byte in one encoding. -/
def tailOk (a : UInt8) : Bytes → Bool
  | [] => true
  | b :: s => secondOk a b && s.all isCont

/-- The width announced by a leading byte, zero when the byte starts no encoding. -/
def leadWidth (a : UInt8) : ℕ :=
  if a < 0x80 then 1
  else if a < 0xC2 then 0
  else if a < 0xE0 then 2
  else if a < 0xF0 then 3
  else if a < 0xF5 then 4
  else 0

/-- The width of the encoding at the head of a byte string, zero when there is none. -/
def runeWidth : Bytes → ℕ
  | [] => 0
  | a :: s =>
    if leadWidth a ≤ s.length + 1 ∧ tailOk a (s.take (leadWidth a - 1)) then leadWidth a else 0

/-- One step of decoding a byte string. -/
inductive Rune where
  | ascii (b : UInt8)
  | multi (bs : Bytes)
  | invalid
  deriving DecidableEq, Repr

namespace Rune

/-- The encoding of U+FFFD. -/
def replacement : Bytes := [0xEF, 0xBF, 0xBD]

def bytes : Rune → Bytes
  | ascii b => [b]
  | multi bs => bs
  | invalid => replacement

/-- The bytes of a decoded rune form one encoding, whatever follows them. -/
def Wf : Rune → Prop
  | ascii b => b < 0x80
  | multi bs => 1 < bs.length ∧ ∀ t, runeWidth (bs ++ t) = bs.length
  | invalid => True

end Rune

def runes : Bytes → List Rune
  | [] => []
  | a :: s =>
    match runeWidth (a :: s), s with
    | 1, s => .ascii a :: runes s
    | 2, b :: s => .multi [a, b] :: runes s
    | 3, b :: c :: s => .multi [a, b, c] :: runes s
    | 4, b :: c :: d :: s => .multi [a, b, c, d] :: runes s
    | _, s => .invalid :: runes s

attribute [elab_as_elim] runes.induct_unfolding

/-- Replace every byte outside a well-formed encoding by U+FFFD. -/
def sanitize (s : Bytes) : Bytes := (runes s).flatMap Rune.bytes

/-- A byte string is valid UTF-8 when replacement changes nothing. -/
def ValidUtf8 (s : Bytes) : Prop := sanitize s = s

instance (s : Bytes) : Decidable (ValidUtf8 s) := inferInstanceAs (Decidable (sanitize s = s))

theorem leadWidth_eq_one {a : UInt8} : leadWidth a = 1 ↔ a < 0x80 := by
  unfold leadWidth
  split_ifs <;> simp_all

theorem leadWidth_le_four (a : UInt8) : leadWidth a ≤ 4 := by
  unfold leadWidth
  split_ifs <;> omega

theorem runeWidth_ascii {a : UInt8} (h : a < 0x80) (s : Bytes) : runeWidth (a :: s) = 1 := by
  simp [runeWidth, leadWidth_eq_one.mpr h, tailOk]

theorem runeWidth_cases (a : UInt8) (s : Bytes) :
    runeWidth (a :: s) = 0 ∨ runeWidth (a :: s) = leadWidth a ∧
      leadWidth a ≤ s.length + 1 ∧ tailOk a (s.take (leadWidth a - 1)) := by
  simp only [runeWidth]
  split_ifs with h
  · exact .inr ⟨rfl, h⟩
  · exact .inl rfl

/-- The width of an encoding depends only on its own bytes. -/
theorem runeWidth_take {a : UInt8} {s : Bytes} {w : ℕ} (h : runeWidth (a :: s) = w + 1)
    (t : Bytes) : runeWidth (a :: (s.take w ++ t)) = w + 1 := by
  rcases runeWidth_cases a s with h0 | ⟨hw, hl, ht⟩
  · omega
  · have he : leadWidth a = w + 1 := hw.symm.trans h
    have hlen : (s.take w).length = w := by simp; omega
    rw [he, Nat.add_sub_cancel] at ht
    simp only [runeWidth, he, Nat.add_sub_cancel, List.take_append_of_le_length hlen.ge,
      List.take_of_length_le hlen.le, ht, List.length_append, hlen]
    simp

theorem isCont_high {b : UInt8} (h : isCont b) : 0x80 ≤ b := by
  simp only [isCont, Bool.and_eq_true, decide_eq_true_eq] at h
  exact h.1

theorem secondOk_high {a b : UInt8} (h : secondOk a b) : 0x80 ≤ b := by
  simp only [secondOk, Bool.and_eq_true, decide_eq_true_eq] at h
  refine le_trans ?_ h.1
  split_ifs <;> decide

theorem tailOk_high {a : UInt8} {s : Bytes} (h : tailOk a s) : ∀ b ∈ s, 0x80 ≤ b := by
  cases s with
  | nil => simp
  | cons b s =>
    simp only [tailOk, Bool.and_eq_true, List.all_eq_true] at h
    simp only [List.mem_cons, forall_eq_or_imp]
    exact ⟨secondOk_high h.1, fun c hc => isCont_high (h.2 c hc)⟩

/-- An encoding of more than one byte has no ASCII byte. -/
theorem Rune.Wf.high {bs : Bytes} (h : (Rune.multi bs).Wf) : ∀ b ∈ bs, 0x80 ≤ b := by
  obtain ⟨hl, hw⟩ := h
  have hw := hw []
  rw [List.append_nil] at hw
  cases bs with
  | nil => simp
  | cons a s =>
    rcases runeWidth_cases a s with h0 | ⟨he, -, ht⟩
    · rw [h0] at hw; simp at hw
    · have hlead : leadWidth a = s.length + 1 := he.symm.trans hw
      rw [hlead, Nat.add_sub_cancel, List.take_length] at ht
      simp only [List.mem_cons, forall_eq_or_imp]
      refine ⟨?_, tailOk_high ht⟩
      by_contra ha
      have := leadWidth_eq_one.mpr (not_le.mp ha)
      simp only [List.length_cons] at hl
      omega

theorem runes_wf (s : Bytes) : ∀ r ∈ runes s, r.Wf := by
  fun_induction runes s with
  | case1 => simp
  | case2 a s h ih =>
    have ha : a < 0x80 := by
      rcases runeWidth_cases a s with h0 | ⟨hw, -⟩
      · omega
      · exact leadWidth_eq_one.mp (hw.symm.trans h)
    simpa [h, Rune.Wf, ha] using ih
  | case3 a b s h ih =>
    have hw : (Rune.multi [a, b]).Wf := ⟨by simp, fun t => runeWidth_take h t⟩
    simpa [h, hw] using ih
  | case4 a b c s h ih =>
    have hw : (Rune.multi [a, b, c]).Wf := ⟨by simp, fun t => runeWidth_take h t⟩
    simpa [h, hw] using ih
  | case5 a b c d s h ih =>
    have hw : (Rune.multi [a, b, c, d]).Wf := ⟨by simp, fun t => runeWidth_take h t⟩
    simpa [h, hw] using ih
  | case6 a s _ _ _ _ ih => simpa [Rune.Wf] using ih

theorem runes_ascii {a : UInt8} (h : a < 0x80) (s : Bytes) :
    runes (a :: s) = .ascii a :: runes s := by
  rw [runes.eq_def]
  simp only [runeWidth_ascii h]

theorem runes_multi {bs : Bytes} (h : (Rune.multi bs).Wf) (t : Bytes) :
    runes (bs ++ t) = .multi bs :: runes t := by
  obtain ⟨hl, hw⟩ := h
  have hw := hw t
  match bs, hl with
  | [a, b], _ =>
    rw [runes.eq_def]
    simp only [List.cons_append, List.nil_append] at hw ⊢
    simp only [hw, List.length_cons, List.length_nil]
  | [a, b, c], _ =>
    rw [runes.eq_def]
    simp only [List.cons_append, List.nil_append] at hw ⊢
    simp only [hw, List.length_cons, List.length_nil]
  | [a, b, c, d], _ =>
    rw [runes.eq_def]
    simp only [List.cons_append, List.nil_append] at hw ⊢
    simp only [hw, List.length_cons, List.length_nil]
  | a :: b :: c :: d :: e :: bs, _ =>
    have := leadWidth_le_four a
    rcases runeWidth_cases a (b :: c :: d :: e :: bs ++ t) with h0 | ⟨h', -⟩ <;>
      simp only [List.cons_append, List.length_cons] at * <;> omega

theorem replacement_wf : (Rune.multi Rune.replacement).Wf :=
  ⟨by decide, fun t => runeWidth_take (s := [0xBF, 0xBD]) (w := 2) (by decide) t⟩

/-- The bytes of a well-formed rune pass through replacement unchanged. -/
theorem sanitize_bytes_append {r : Rune} (hr : r.Wf) (t : Bytes) :
    sanitize (r.bytes ++ t) = r.bytes ++ sanitize t := by
  cases r with
  | ascii b => simp [sanitize, Rune.bytes, runes_ascii hr]
  | multi bs => simp [sanitize, Rune.bytes, runes_multi hr]
  | invalid =>
    change sanitize (Rune.replacement ++ t) = Rune.replacement ++ sanitize t
    simp [sanitize, Rune.bytes, runes_multi replacement_wf]

theorem sanitize_flatMap_bytes {rs : List Rune} (h : ∀ r ∈ rs, r.Wf) :
    sanitize (rs.flatMap Rune.bytes) = rs.flatMap Rune.bytes := by
  induction rs with
  | nil => rfl
  | cons r rs ih =>
    simp only [List.mem_cons, forall_eq_or_imp] at h
    rw [List.flatMap_cons, sanitize_bytes_append h.1, ih h.2]

/-- Replacement leaves valid UTF-8. -/
theorem validUtf8_sanitize (s : Bytes) : ValidUtf8 (sanitize s) :=
  sanitize_flatMap_bytes (runes_wf s)

theorem validUtf8_of_ascii {s : Bytes} (h : ∀ b ∈ s, b < 0x80) : ValidUtf8 s := by
  induction s with
  | nil => rfl
  | cons b s ih =>
    simp only [List.mem_cons, forall_eq_or_imp] at h
    have hb := sanitize_bytes_append (r := .ascii b) h.1 s
    rw [ih h.2] at hb
    exact hb

theorem sanitize_append_of_ascii {a : Bytes} (h : ∀ b ∈ a, b < 0x80) (s : Bytes) :
    sanitize (a ++ s) = a ++ sanitize s := by
  induction a with
  | nil => rfl
  | cons b a ih =>
    simp only [List.mem_cons, forall_eq_or_imp] at h
    have hb := sanitize_bytes_append (r := .ascii b) h.1 (a ++ s)
    rw [ih h.2] at hb
    exact hb

/-- Replacement neither adds nor removes an ASCII byte. -/
theorem mem_sanitize {c : UInt8} (hc : c < 0x80) (s : Bytes) : c ∈ sanitize s ↔ c ∈ s := by
  unfold sanitize
  fun_induction runes s with
  | case1 => simp
  | case2 a s h ih => simp [h, Rune.bytes, ih]
  | case3 a b s h ih => simp [h, Rune.bytes, ih]
  | case4 a b c s h ih => simp [h, Rune.bytes, ih]
  | case5 a b c d s h ih => simp [h, Rune.bytes, ih]
  | case6 a s h1 _ _ _ ih =>
    have hr : c ∉ Rune.replacement := by
      have hhigh : ∀ b ∈ Rune.replacement, 0x80 ≤ b := by decide +kernel
      exact fun hm => absurd (hhigh c hm) (not_le.mpr hc)
    have ha : c ≠ a := by
      rintro rfl
      exact h1 (runeWidth_ascii hc s)
    simp [Rune.bytes, hr, ha, ih]

/-- Replacement lengthens exactly what is not valid. -/
theorem length_sanitize (s : Bytes) :
    s.length ≤ (sanitize s).length ∧ ((sanitize s).length = s.length ↔ ValidUtf8 s) := by
  unfold ValidUtf8 sanitize
  fun_induction runes s with
  | case1 => simp
  | case2 a s h ih => simpa [h, Rune.bytes] using ih
  | case3 a b s h ih => simpa [h, Rune.bytes] using ih
  | case4 a b c s h ih => simpa [h, Rune.bytes] using ih
  | case5 a b c d s h ih => simpa [h, Rune.bytes] using ih
  | case6 a s _ _ _ _ ih =>
    have hlt : (a :: s).length < (List.flatMap Rune.bytes (.invalid :: runes s)).length := by
      have hle := ih.1
      simp only [List.flatMap_cons, List.length_append, Rune.bytes, Rune.replacement,
        List.length_cons, List.length_nil]
      omega
    simp only
    refine ⟨hlt.le, ?_⟩
    apply iff_of_false hlt.ne'
    exact fun h => hlt.ne' (congrArg List.length h)

theorem sanitize_eq_nil {s : Bytes} : sanitize s = [] ↔ s = [] := by
  constructor
  · intro h
    have hle := (length_sanitize s).1
    rw [h] at hle
    exact List.eq_nil_of_length_eq_zero (Nat.le_zero.mp hle)
  · rintro rfl
    rfl

/-- An ASCII byte at an end was there before. -/
theorem head?_sanitize {c : UInt8} (hc : c < 0x80) {s : Bytes} (h : (sanitize s).head? = some c) :
    s.head? = some c := by
  unfold sanitize at h
  fun_cases runes s with
  | case1 => cases h
  | case2 a s hw => simpa [runes, hw, Rune.bytes] using h
  | case3 a b s hw => simpa [runes, hw, Rune.bytes] using h
  | case4 a b d s hw => simpa [runes, hw, Rune.bytes] using h
  | case5 a b d e s hw => simpa [runes, hw, Rune.bytes] using h
  | case6 a s =>
    simp only [runes] at h
    have he : (0xEF : UInt8) = c := Option.some.inj h
    rw [← he] at hc
    exact absurd hc (by decide)

theorem getLast?_append_sanitize {c : UInt8} {a b s : Bytes}
    (hab : b.getLast? = some c → a.getLast? = some c)
    (hs : (sanitize s).getLast? = some c → s.getLast? = some c)
    (h : (b ++ sanitize s).getLast? = some c) : (a ++ s).getLast? = some c := by
  by_cases hnil : s = []
  · subst hnil
    rw [List.append_nil]
    apply hab
    rwa [sanitize_eq_nil.mpr rfl, List.append_nil] at h
  · rw [List.getLast?_append_of_ne_nil _ (mt sanitize_eq_nil.mp hnil)] at h
    rw [List.getLast?_append_of_ne_nil _ hnil]
    exact hs h

theorem getLast?_sanitize {c : UInt8} (hc : c < 0x80) {s : Bytes}
    (h : (sanitize s).getLast? = some c) : s.getLast? = some c := by
  induction s using runes.induct with
  | case1 => cases h
  | case2 a s hw ih =>
    refine getLast?_append_sanitize (a := [a]) (b := [a]) id ih ?_
    simpa [sanitize, runes, hw, Rune.bytes] using h
  | case3 a b s hw ih =>
    refine getLast?_append_sanitize (a := [a, b]) (b := [a, b]) id ih ?_
    simpa [sanitize, runes, hw, Rune.bytes] using h
  | case4 a b d s hw ih =>
    refine getLast?_append_sanitize (a := [a, b, d]) (b := [a, b, d]) id ih ?_
    simpa [sanitize, runes, hw, Rune.bytes] using h
  | case5 a b d e s hw ih =>
    refine getLast?_append_sanitize (a := [a, b, d, e]) (b := [a, b, d, e]) id ih ?_
    simpa [sanitize, runes, hw, Rune.bytes] using h
  | case6 a s _ _ _ _ ih =>
    refine getLast?_append_sanitize (a := [a]) (b := Rune.replacement) ?_ ih ?_
    · intro he
      have he : (0xBD : UInt8) = c := Option.some.inj he
      rw [← he] at hc
      exact absurd hc (by decide)
    · simpa [sanitize, runes, Rune.bytes] using h

/-- The encodings of the white-space characters. -/
def spaces : List Bytes :=
  [[0x09], [0x0A], [0x0B], [0x0C], [0x0D], [0x20], [0xC2, 0x85], [0xC2, 0xA0], [0xE1, 0x9A, 0x80],
    [0xE2, 0x80, 0x80], [0xE2, 0x80, 0x81], [0xE2, 0x80, 0x82], [0xE2, 0x80, 0x83],
    [0xE2, 0x80, 0x84], [0xE2, 0x80, 0x85], [0xE2, 0x80, 0x86], [0xE2, 0x80, 0x87],
    [0xE2, 0x80, 0x88], [0xE2, 0x80, 0x89], [0xE2, 0x80, 0x8A], [0xE2, 0x80, 0xA8],
    [0xE2, 0x80, 0xA9], [0xE2, 0x80, 0xAF], [0xE2, 0x81, 0x9F], [0xE3, 0x80, 0x80]]

/-- Drop the listed prefixes as often as they occur, at most `fuel` times. -/
def dropSpaces (sp : List Bytes) : ℕ → Bytes → Bytes
  | 0, s => s
  | fuel + 1, s => match sp.find? fun p => p.isPrefixOf s with
    | some p => dropSpaces sp fuel (s.drop p.length)
    | none => s

/-- Remove leading and trailing white space. -/
def trimSpace (s : Bytes) : Bytes :=
  let t := dropSpaces spaces s.length s
  (dropSpaces (spaces.map List.reverse) t.length t.reverse).reverse

theorem dropSpaces_suffix (sp : List Bytes) (fuel : ℕ) (s : Bytes) : dropSpaces sp fuel s <:+ s := by
  induction fuel generalizing s with
  | zero => exact List.suffix_refl s
  | succ fuel ih =>
    unfold dropSpaces
    split
    · rename_i p hp
      exact (ih _).trans (List.drop_suffix _ s)
    · exact List.suffix_refl s

/-- With enough fuel no listed prefix is left. -/
theorem not_prefix_dropSpaces {sp : List Bytes} (hsp : [] ∉ sp) {fuel : ℕ} {s : Bytes}
    (h : s.length ≤ fuel) {p : Bytes} (hp : p ∈ sp) : ¬ p <+: dropSpaces sp fuel s := by
  induction fuel generalizing s with
  | zero =>
    obtain rfl : s = [] := List.length_eq_zero_iff.mp (Nat.le_zero.mp h)
    intro hpre
    exact hsp (List.prefix_nil.mp hpre ▸ hp)
  | succ fuel ih =>
    unfold dropSpaces
    split
    · rename_i q hq
      have hpos : 0 < q.length := by
        refine List.length_pos_iff.mpr fun hnil => hsp ?_
        exact hnil ▸ List.mem_of_find?_eq_some hq
      apply ih
      rw [List.length_drop]
      omega
    · rename_i hnone
      intro hpre
      exact List.find?_eq_none.mp hnone p hp (List.isPrefixOf_iff_prefix.mpr hpre)

theorem dropSpaces_eq_self {sp : List Bytes} {s : Bytes} (h : ∀ p ∈ sp, ¬ p <+: s) (fuel : ℕ) :
    dropSpaces sp fuel s = s := by
  cases fuel with
  | zero => rfl
  | succ fuel =>
    have hnone : sp.find? (fun p => p.isPrefixOf s) = none := List.find?_eq_none.mpr fun p hp hpre =>
      h p hp (List.isPrefixOf_iff_prefix.mp hpre)
    simp only [dropSpaces, hnone]

/-- White space is removed at once. -/
theorem trimSpace_trimSpace (s : Bytes) : trimSpace (trimSpace s) = trimSpace s := by
  have hfront : [] ∉ spaces := by decide
  have hback : [] ∉ spaces.map List.reverse := by decide
  set t := dropSpaces spaces s.length s with ht
  set r := dropSpaces (spaces.map List.reverse) t.length t.reverse with hr
  have hu : trimSpace s = r.reverse := rfl
  have hpre : r.reverse <+: t := by
    have h := dropSpaces_suffix (spaces.map List.reverse) t.length t.reverse
    rw [← hr] at h
    exact List.reverse_suffix.mp (by rwa [List.reverse_reverse])
  have hstart : dropSpaces spaces r.reverse.length r.reverse = r.reverse :=
    dropSpaces_eq_self (fun p hp hq => not_prefix_dropSpaces hfront le_rfl hp (hq.trans hpre)) _
  have hend : dropSpaces (spaces.map List.reverse) r.reverse.length r = r := by
    refine dropSpaces_eq_self (fun p hp => ?_) _
    exact not_prefix_dropSpaces hback (List.length_reverse.le) hp
  rw [hu, trimSpace, hstart, List.reverse_reverse, hend]

/-! ## Trimming listed characters -/

/-- Remove the listed characters from both ends. -/
def trimming (sp : List Bytes) (s : Bytes) : Bytes :=
  let t := dropSpaces sp s.length s
  (dropSpaces (sp.map List.reverse) t.length t.reverse).reverse

section Trimming

variable {sp : List Bytes} {s front back : Bytes}

/-- Single bytes from the list are dropped in front of any text. -/
theorem dropSpaces_append {fuel : ℕ}
    (hf : ∀ b ∈ front, ∀ t, sp.find? (fun p => p.isPrefixOf (b :: t)) = some [b])
    (hfuel : front.length ≤ fuel) :
    dropSpaces sp fuel (front ++ s) = dropSpaces sp (fuel - front.length) s := by
  induction front generalizing fuel with
  | nil => rfl
  | cons b front ih =>
    cases fuel with
    | zero => cases hfuel
    | succ fuel =>
      simp only [List.cons_append, dropSpaces, hf b List.mem_cons_self, List.length_singleton,
        List.drop_succ_cons, List.drop_zero]
      rw [ih (fun c hc => hf c (List.mem_cons_of_mem b hc)) (Nat.le_of_succ_le_succ hfuel),
        List.length_cons, Nat.add_sub_add_right]

theorem not_prefix_of_notMem {p t : Bytes} (hp : p ≠ []) (hps : ∀ b ∈ p, b ∉ s) (hs : s ≠ []) :
    ¬ p <+: s ++ t := by
  obtain ⟨b, p, rfl⟩ := List.exists_cons_of_ne_nil hp
  obtain ⟨c, s, rfl⟩ := List.exists_cons_of_ne_nil hs
  intro h
  obtain rfl := (List.cons_prefix_cons.mp h).1
  exact hps b List.mem_cons_self List.mem_cons_self

/-- What is listed goes from both ends of a text without bytes of the list. -/
theorem trimming_append (hsp : [] ∉ sp) (hs : ∀ p ∈ sp, ∀ b ∈ p, b ∉ s) (hne : s ≠ [])
    (hfront : ∀ b ∈ front, ∀ t, sp.find? (fun p => p.isPrefixOf (b :: t)) = some [b])
    (hback : ∀ b ∈ back, ∀ t,
      (sp.map List.reverse).find? (fun p => p.isPrefixOf (b :: t)) = some [b]) :
    trimming sp (front ++ s ++ back) = s := by
  have hdrop : dropSpaces sp (front ++ s ++ back).length (front ++ s ++ back) = s ++ back := by
    rw [List.append_assoc, dropSpaces_append hfront (by simp)]
    apply dropSpaces_eq_self
    intro p hp
    exact not_prefix_of_notMem (fun hnil => hsp (hnil ▸ hp)) (hs p hp) hne
  have hend : dropSpaces (sp.map List.reverse) (s ++ back).length (s ++ back).reverse =
      s.reverse := by
    rw [List.reverse_append, dropSpaces_append (fun b hb => hback b (List.mem_reverse.mp hb))
      (by simp)]
    apply dropSpaces_eq_self
    intro p hp
    obtain ⟨q, hq, rfl⟩ := List.mem_map.mp hp
    have hnil : q.reverse ≠ [] := fun hnil => hsp (List.reverse_eq_nil_iff.mp hnil ▸ hq)
    rw [← List.append_nil s.reverse]
    apply not_prefix_of_notMem hnil
    · intro b hb hm
      exact hs q hq b (List.mem_reverse.mp hb) (List.mem_reverse.mp hm)
    · exact fun h => hne (List.reverse_eq_nil_iff.mp h)
  rw [trimming, hdrop, hend, List.reverse_reverse]

theorem trimming_eq_self (hsp : [] ∉ sp) (hs : ∀ p ∈ sp, ∀ b ∈ p, b ∉ s) (hne : s ≠ []) :
    trimming sp s = s := by
  have h : trimming sp ([] ++ s ++ []) = s := trimming_append hsp hs hne (by simp) (by simp)
  rwa [List.nil_append, List.append_nil] at h

end Trimming

end HeadFwd.Text
