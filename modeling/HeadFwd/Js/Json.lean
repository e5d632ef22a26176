import HeadFwd.Document.Marshal
import HeadFwd.Js.Decode

/-! # Documents in JavaScript

`JSON.stringify` and `JSON.parse` over strings of code units. Only quotes, backslashes,
control characters and lone surrogates are escaped, so the encoding of a document in
UTF-8 is a document over bytes, and Go and JavaScript read what the other wrote.
-/

namespace HeadFwd.Js

open Text Document

def codeUnits : Alphabet UInt16 where
  ofByte := UInt8.toUInt16
  toByte a := if a < 0x80 then some a.toUInt8 else none
  toByte_ofByte {b} h := by
    have hlt : b.toUInt16 < 0x80 := by
      rw [UInt16.lt_iff_toNat_lt, UInt8.toNat_toUInt16]
      exact h
    rw [if_pos hlt, UInt8.toUInt8_toUInt16]
  ofByte_toByte {a b} h := by
    split_ifs at h with ha
    rw [← Option.some.inj h, ← UInt16.toNat_inj, UInt8.toNat_toUInt16, UInt16.toNat_toUInt8]
    exact Nat.mod_eq_of_lt (lt_trans ha (by decide))

/-- A unit that is escaped where it does not belong to a pair. -/
def Escaped (a : UInt16) : Prop :=
  a < 0x20 ∨ a = 0x22 ∨ a = 0x5C ∨ 0xD800 ≤ a ∧ a < 0xE000

instance (a : UInt16) : Decidable (Escaped a) := inferInstanceAs (Decidable (_ ∨ _))

/-- A surrogate pair. -/
def Pair (a b : UInt16) : Prop := 0xD800 ≤ a ∧ a < 0xDC00 ∧ 0xDC00 ≤ b ∧ b < 0xE000

instance (a b : UInt16) : Decidable (Pair a b) := inferInstanceAs (Decidable (_ ∧ _))

def unitPieces (a : UInt16) : Pieces UInt16 := if Escaped a then [.unit a] else [.char a]

/-- A string as it is written. -/
def quoted : JsString → Pieces UInt16
  | [] => []
  | [a] => unitPieces a
  | a :: b :: s =>
    if Pair a b then .char a :: .char b :: quoted s else unitPieces a ++ quoted (b :: s)

def unquote (s : Pieces UInt16) : JsString :=
  s.map fun p => match p with
    | .char a => a
    | .unit n => n

def stringify (v : Value JsString) : JsString := codeUnits.write (v.map quoted)

mutual

/-- The value of a document. `number` gives the string conversion of a number, and the last member
of a name counts. -/
def ofDocument (number : Bytes → JsString) : Value JsString → JsValue
  | .null => .null
  | .bool b => .bool b
  | .number t => .number (number t)
  | .string s => .string s
  | .array xs => .array (ofElements number xs)
  | .object members => .object
      ((ofMembers number members).foldl (fun fields p => insertKey fields p.1 p.2) [])

def ofElements (number : Bytes → JsString) : List (Value JsString) → List JsValue
  | [] => []
  | x :: xs => ofDocument number x :: ofElements number xs

def ofMembers (number : Bytes → JsString) :
    List (JsString × Value JsString) → List (JsString × JsValue)
  | [] => []
  | (k, v) :: members => (k, ofDocument number v) :: ofMembers number members

end

/-- `JSON.parse`, up to the value of the document. -/
def readDocument (s : JsString) : Option (Value JsString) :=
  (codeUnits.parse s).map (Value.map unquote)

def parseJson (number : Bytes → JsString) (s : JsString) : Option JsValue :=
  (readDocument s).map (ofDocument number)

/-! ## Read by Go -/

/-- The pieces of a unit in UTF-8. -/
def utf8UnitPieces (a : UInt16) : Pieces UInt8 :=
  if Escaped a then [.unit a] else (utf8Unit a).map .char

/-- A string as it is written, in UTF-8. -/
def utf8Quoted : JsString → Pieces UInt8
  | [] => []
  | [a] => utf8UnitPieces a
  | a :: b :: s =>
    if Pair a b then (utf8Pair a b).map .char ++ utf8Quoted s
    else utf8UnitPieces a ++ utf8Quoted (b :: s)

theorem not_high {a : UInt16} (h : ¬ Escaped a) : ¬ (0xD800 ≤ a.toNat ∧ a.toNat < 0xDC00) := by
  rintro ⟨hlo, hhi⟩
  refine h (.inr (.inr (.inr ⟨hlo, ?_⟩)))
  rw [UInt16.lt_iff_toNat_lt]
  exact lt_trans hhi (by decide)

theorem utf8_ofByte {b : UInt8} (hb : b < 0x80) (t : JsString) :
    utf8 (codeUnits.ofByte b :: t) = b :: utf8 t := by
  have hn : b.toUInt16.toNat = b.toNat := UInt8.toNat_toUInt16 b
  have hlt : b.toNat < 128 := hb
  change utf8 (b.toUInt16 :: t) = _
  rw [utf8_cons (by omega), utf8Unit]
  simp only [hn, if_pos hlt, UInt8.ofNat_toNat]
  rfl

theorem utf8_ascii {s : Bytes} (hs : ∀ b ∈ s, b < 0x80) (t : JsString) :
    utf8 (codeUnits.ascii s ++ t) = s ++ utf8 t := by
  induction s with
  | nil => rfl
  | cons b s ih =>
    rw [List.forall_mem_cons] at hs
    change utf8 (codeUnits.ofByte b :: (codeUnits.ascii s ++ t)) = _
    rw [utf8_ofByte hs.1, ih hs.2]
    rfl

theorem utf8_unitPieces (a : UInt16) (t : JsString) :
    utf8 ((unitPieces a).flatMap codeUnits.pieceText ++ t) =
      (utf8UnitPieces a).flatMap octets.pieceText ++ utf8 t := by
  rw [unitPieces, utf8UnitPieces]
  split_ifs with h
  · rw [List.flatMap_singleton, List.flatMap_singleton]
    refine (utf8_ascii (Alphabet.ascii_unitText a) t).trans ?_
    rw [Alphabet.pieceText]
    exact congrArg (· ++ utf8 t) (List.map_id _).symm
  · have hchars : ((utf8Unit a).map Piece.char).flatMap octets.pieceText = utf8Unit a := by
      rw [List.flatMap_map]
      exact List.flatMap_singleton' _
    rw [hchars]
    exact utf8_cons (not_high h) t

theorem utf8_quoted (s t : JsString) : utf8 ((quoted s).flatMap codeUnits.pieceText ++
    codeUnits.ofByte (chr '"') :: t) = (utf8Quoted s).flatMap octets.pieceText ++
      octets.ofByte (chr '"') :: utf8 t := by
  have hquote : utf8 (codeUnits.ofByte (chr '"') :: t) = octets.ofByte (chr '"') :: utf8 t :=
    utf8_ofByte (by decide) t
  fun_induction quoted s with
  | case1 => exact hquote
  | case2 a =>
    rw [utf8_unitPieces, hquote]
    rfl
  | case3 a b s hp ih =>
    have hchars : ((utf8Pair a b).map Piece.char).flatMap octets.pieceText = utf8Pair a b := by
      rw [List.flatMap_map]
      exact List.flatMap_singleton' _
    rw [utf8Quoted, if_pos hp, List.flatMap_append, hchars, List.append_assoc, ← ih]
    exact if_pos hp
  | case4 a b s hp ih =>
    rw [utf8Quoted, if_neg hp, List.flatMap_append, List.flatMap_append, List.append_assoc,
      utf8_unitPieces, ih, List.append_assoc]

theorem converts_utf8 : Alphabet.Converts codeUnits octets utf8 quoted utf8Quoted where
  ofByte := utf8_ofByte
  string := utf8_quoted

/-- The encoding of a written document is a document over bytes. -/
theorem utf8_stringify {v : Value JsString} (hv : Alphabet.Whole v) :
    utf8 (stringify v) = octets.write (v.map utf8Quoted) := by
  have h := converts_utf8.write hv []
  rw [List.append_nil] at h
  exact h.trans (List.append_nil _)

/-- The only ASCII byte of a unit is the unit itself. -/
theorem mem_utf8Unit {a : UInt16} {b : UInt8} (hb : b ∈ utf8Unit a) (hlt : b < 0x80) :
    b.toUInt16 = a := by
  have ha := a.toNat_lt
  have hhigh : ∀ n, 0x80 ≤ n → n < 256 → b ≠ UInt8.ofNat n := by
    rintro n hn hn' rfl
    exact not_lt_ofNat hn hn' hlt
  unfold utf8Unit at hb
  dsimp only at hb
  split_ifs at hb with h₁ h₂ h₃
  · rw [List.mem_singleton.mp hb, ← UInt16.toNat_inj, UInt8.toNat_toUInt16, UInt8.toNat_ofNat']
    exact Nat.mod_eq_of_lt (by omega)
  · simp only [List.mem_cons, List.not_mem_nil, or_false] at hb
    rcases hb with hb | hb
    · exact absurd hb (hhigh _ (by omega) (by omega))
    · exact absurd hb (hhigh _ (by omega) (by omega))
  · simp only [List.mem_cons, List.not_mem_nil, or_false] at hb
    rcases hb with rfl | rfl | rfl <;> exact absurd hlt (by decide)
  · simp only [List.mem_cons, List.not_mem_nil, or_false] at hb
    rcases hb with hb | hb | hb
    · exact absurd hb (hhigh _ (by omega) (by omega))
    · exact absurd hb (hhigh _ (by omega) (by omega))
    · exact absurd hb (hhigh _ (by omega) (by omega))

theorem mem_utf8Pair {a b : UInt16} (h : Pair a b) {c : UInt8} (hc : c ∈ utf8Pair a b) :
    ¬ c < 0x80 := by
  have ha : a.toNat < 0xDC00 := h.2.1
  have hb : b.toNat < 0xE000 := h.2.2.2
  rw [utf8Pair] at hc
  simp only [List.mem_cons, List.not_mem_nil, or_false] at hc
  rcases hc with rfl | rfl | rfl | rfl
  · exact not_lt_ofNat (by omega) (by omega)
  · exact not_lt_ofNat (by omega) (by omega)
  · exact not_lt_ofNat (by omega) (by omega)
  · exact not_lt_ofNat (by omega) (by omega)

theorem plainPiece_utf8UnitPieces (a : UInt16) : ∀ p ∈ utf8UnitPieces a, octets.PlainPiece p := by
  intro p hp
  rw [utf8UnitPieces] at hp
  split_ifs at hp with h
  · rw [List.mem_singleton.mp hp]
    trivial
  · obtain ⟨b, hb, rfl⟩ := List.mem_map.mp hp
    intro c hc
    obtain rfl : c = b := octets.ofByte_toByte hc
    have hlt : c < 0x80 := by
      by_contra hge
      exact absurd (hc.symm.trans (if_neg hge)) (by simp)
    have ha := mem_utf8Unit hb hlt
    subst ha
    refine ⟨?_, ?_, ?_⟩
    · rintro rfl
      exact h (.inr (.inl rfl))
    · rintro rfl
      exact h (.inr (.inr (.inl rfl)))
    · intro hsmall
      refine h (.inl ?_)
      rw [UInt16.lt_iff_toNat_lt, UInt8.toNat_toUInt16]
      exact hsmall

theorem plainPiece_utf8Quoted (s : JsString) : ∀ p ∈ utf8Quoted s, octets.PlainPiece p := by
  fun_induction utf8Quoted s with
  | case1 => exact fun p hp => by cases hp
  | case2 a => exact plainPiece_utf8UnitPieces a
  | case3 a b s hp ih =>
    rw [List.forall_mem_append]
    refine ⟨?_, ih⟩
    intro p hmem
    obtain ⟨c, hc, rfl⟩ := List.mem_map.mp hmem
    intro d hd
    exact absurd (hd.symm.trans (if_neg (mem_utf8Pair hp hc))) (by simp)
  | case4 a b s hp ih =>
    rw [List.forall_mem_append]
    exact ⟨plainPiece_utf8UnitPieces a, ih⟩

/-- The first piece of a text is no low surrogate. -/
def NoLow (s : Pieces UInt8) : Prop :=
  ∀ n t, s = .unit n :: t → Json.Scan.isLow n.toNat = false

/-- A high surrogate that no low one follows is replaced. -/
theorem joined_high {h : ℕ} {s : Pieces UInt8} (hs : NoLow s) :
    joined (some h) s = Rune.replacement ++ joined none s := by
  cases s with
  | nil => rfl
  | cons p s =>
    cases p with
    | char b =>
      rw [joined, joined]
      rfl
    | unit n =>
      rw [joined, joined, hs n s rfl]
      cases Json.Scan.isHigh n.toNat with
      | true => rfl
      | false => exact List.append_assoc _ _ _

theorem isLow_iff {n : ℕ} : Json.Scan.isLow n = true ↔ 0xDC00 ≤ n ∧ n < 0xE000 := by
  simp only [Json.Scan.isLow, Bool.and_eq_true, decide_eq_true_eq]
  omega

theorem isHigh_iff {n : ℕ} : Json.Scan.isHigh n = true ↔ 0xD800 ≤ n ∧ n < 0xDC00 := by
  simp only [Json.Scan.isHigh, Bool.and_eq_true, decide_eq_true_eq]
  omega

/-- A unit is decoded as it is encoded, unless it makes a pair with what follows. -/
theorem joined_utf8UnitPieces {a : UInt16} {s : Pieces UInt8}
    (h : Json.Scan.isHigh a.toNat = true → NoLow s) :
    joined none (utf8UnitPieces a ++ s) = utf8Unit a ++ joined none s := by
  rw [utf8UnitPieces]
  split_ifs with he
  · rw [List.singleton_append]
    by_cases hs : 0xD800 ≤ a.toNat ∧ a.toNat < 0xE000
    · have hunit : utf8Unit a = Rune.replacement := by
        unfold utf8Unit
        dsimp only
        rw [if_neg (by omega), if_neg (by omega), if_pos hs]
        rfl
      rw [joined, hunit]
      split_ifs with hl hh
      · rfl
      · exact joined_high (h hh)
      · rw [isLow_iff] at hl
        rw [isHigh_iff] at hh
        omega
    · have hlt : a.toNat < 0x80 := by
        rcases he with he | rfl | rfl | he
        · exact lt_trans he (by decide)
        · decide
        · decide
        · exact absurd he hs
      have hback : a.toUInt8.toUInt16 = a := by
        rw [← UInt16.toNat_inj, UInt8.toNat_toUInt16, UInt16.toNat_toUInt8]
        exact Nat.mod_eq_of_lt (by omega)
      have hunit : utf8Unit a = [a.toUInt8] := by
        unfold utf8Unit
        dsimp only
        rw [if_pos hlt]
        rfl
      have hbyte : a.toUInt8 < 0x80 := by
        rw [UInt8.lt_iff_toNat_lt, UInt16.toNat_toUInt8]
        exact lt_of_le_of_lt (Nat.mod_le _ _) hlt
      rw [hunit, ← hback, joined_ascii hbyte, hback]
      rfl
  · exact joined_map_char _ s

theorem noLow_utf8Quoted {b : UInt16} (hb : ¬ (0xDC00 ≤ b ∧ b < 0xE000)) (s : JsString) :
    NoLow (utf8Quoted (b :: s)) := by
  have hunit : ∀ {n : UInt16} {s t : Pieces UInt8}, utf8UnitPieces b ++ s = .unit n :: t →
      n = b := by
    intro n s t h
    rw [utf8UnitPieces] at h
    split_ifs at h
    · cases h
      rfl
    · cases hu : utf8Unit b with
      | nil =>
        unfold utf8Unit at hu
        dsimp only at hu
        split_ifs at hu
      | cons c l =>
        rw [hu] at h
        cases h
  intro n t h
  have hn : n = b := by
    cases s with
    | nil =>
      refine hunit (s := []) (t := t) ?_
      rw [List.append_nil]
      exact h
    | cons c s =>
      rw [utf8Quoted] at h
      split_ifs at h
      · cases h
      · exact hunit h
  rw [hn, Bool.eq_false_iff, Ne, isLow_iff]
  exact hb

/-- Go decodes a string as its encoding. -/
theorem joined_utf8Quoted (s : JsString) : joined none (utf8Quoted s) = utf8 s := by
  fun_induction utf8Quoted s with
  | case1 => rfl
  | case2 a =>
    have h := joined_utf8UnitPieces (a := a) (s := []) fun _ n t h => by cases h
    rw [List.append_nil] at h
    exact h.trans (List.append_nil _)
  | case3 a b s hp ih =>
    rw [joined_map_char, ih]
    exact (if_pos hp).symm
  | case4 a b s hp ih =>
    have hlow : Json.Scan.isHigh a.toNat = true → NoLow (utf8Quoted (b :: s)) := by
      intro ha
      rw [isHigh_iff] at ha
      refine noLow_utf8Quoted ?_ s
      rintro ⟨hlo, hhi⟩
      refine hp ⟨ha.1, ?_, hlo, hhi⟩
      rw [UInt16.lt_iff_toNat_lt]
      exact ha.2
    rw [joined_utf8UnitPieces hlow, ih]
    exact (if_neg hp).symm

theorem unquote_utf8Quoted (s : JsString) : Document.unquote (utf8Quoted s) = utf8 s := by
  rw [Document.unquote, joined_utf8Quoted]
  exact validUtf8_utf8 s

/-- Go reads what JavaScript wrote, every string as its encoding. -/
theorem readFirst_stringify {v : Value JsString} (hv : Alphabet.Whole v) :
    readFirst (utf8 (stringify v)) = some (v.map utf8) := by
  have hread := Alphabet.read_write (Alphabet.wf_map plainPiece_utf8Quoted hv) (r := [])
    fun a b ha => by cases ha
  rw [List.append_nil] at hread
  rw [utf8_stringify hv, readFirst, hread, Option.map_some, Value.map_map]
  exact congrArg (fun f => some (v.map f)) (funext unquote_utf8Quoted)

/-! ## Written by Go -/

/-- A string of Go, with U+FFFD for every byte that is not UTF-8. -/
def ofUtf8 (s : Bytes) : JsString := (runes s).flatMap units

def runeUnitPieces : Rune → Pieces UInt16
  | .ascii b =>
    if (Json.shortEscape b).isSome || Json.needsUnicode b then [.unit b.toUInt16]
    else [.char b.toUInt16]
  | .multi bs =>
    if bs = [0xE2, 0x80, 0xA8] then [.unit 0x2028]
    else if bs = [0xE2, 0x80, 0xA9] then [.unit 0x2029]
    else (units (.multi bs)).map .char
  | .invalid => [.unit 0xFFFD]

/-- A string as Go writes it, in code units. -/
def unitsQuoted (s : Bytes) : Pieces UInt16 := (runes s).flatMap runeUnitPieces

theorem ofUtf8_ofByte {b : UInt8} (hb : b < 0x80) (t : Bytes) :
    ofUtf8 (octets.ofByte b :: t) = codeUnits.ofByte b :: ofUtf8 t := by
  change (runes (b :: t)).flatMap units = _
  have hlt := b.toNat_lt
  have hunit : UInt16.ofNat b.toNat = b.toUInt16 := by
    rw [← UInt16.toNat_inj, UInt16.toNat_ofNat', Nat.mod_eq_of_lt (by omega)]
    exact (UInt8.toNat_toUInt16 b).symm
  rw [runes_ascii hb, List.flatMap_cons, units, hunit]
  rfl

theorem ofUtf8_ascii {s : Bytes} (hs : ∀ b ∈ s, b < 0x80) (t : Bytes) :
    ofUtf8 (s ++ t) = codeUnits.ascii s ++ ofUtf8 t := by
  induction s with
  | nil => rfl
  | cons b s ih =>
    rw [List.forall_mem_cons] at hs
    rw [List.cons_append]
    refine (ofUtf8_ofByte hs.1 _).trans ?_
    rw [ih hs.2]
    rfl

theorem ofUtf8_runePieces {r : Rune} (hr : r.Wf) (t : Bytes) :
    ofUtf8 ((runePieces r).flatMap octets.pieceText ++ t) =
      (runeUnitPieces r).flatMap codeUnits.pieceText ++ ofUtf8 t := by
  have hunit : ∀ n : UInt16, ofUtf8 (List.flatMap octets.pieceText [.unit n] ++ t) =
      List.flatMap codeUnits.pieceText [.unit n] ++ ofUtf8 t := by
    intro n
    rw [List.flatMap_singleton, List.flatMap_singleton, Alphabet.pieceText, Alphabet.pieceText]
    refine Eq.trans ?_ (ofUtf8_ascii (Alphabet.ascii_unitText n) t)
    exact congrArg (fun l => ofUtf8 (l ++ t)) (List.map_id _)
  cases r with
  | ascii b =>
    rw [runePieces, runeUnitPieces]
    split_ifs
    · exact hunit _
    · exact ofUtf8_ofByte hr t
  | multi bs =>
    rw [runePieces, runeUnitPieces]
    split_ifs
    · exact hunit _
    · exact hunit _
    · have hbytes : (bs.map Piece.char).flatMap octets.pieceText = bs := by
        rw [List.flatMap_map]
        exact List.flatMap_singleton' _
      have hchars : ((units (.multi bs)).map Piece.char).flatMap codeUnits.pieceText =
          units (.multi bs) := by
        rw [List.flatMap_map]
        exact List.flatMap_singleton' _
      rw [hbytes, hchars, ofUtf8, runes_multi hr, List.flatMap_cons]
      rfl
  | invalid => exact hunit _

theorem ofUtf8_quoted (s t : Bytes) : ofUtf8 ((Document.quoted s).flatMap octets.pieceText ++
    octets.ofByte (chr '"') :: t) = (unitsQuoted s).flatMap codeUnits.pieceText ++
      codeUnits.ofByte (chr '"') :: ofUtf8 t := by
  have hquote : ofUtf8 (octets.ofByte (chr '"') :: t) = codeUnits.ofByte (chr '"') :: ofUtf8 t :=
    ofUtf8_ofByte (by decide) t
  have hrunes : ∀ rs : List Rune, (∀ r ∈ rs, r.Wf) →
      ofUtf8 ((rs.flatMap runePieces).flatMap octets.pieceText ++ octets.ofByte (chr '"') :: t) =
        (rs.flatMap runeUnitPieces).flatMap codeUnits.pieceText ++
          codeUnits.ofByte (chr '"') :: ofUtf8 t := by
    intro rs
    induction rs with
    | nil => exact fun _ => hquote
    | cons r rs ih =>
      intro h
      rw [List.forall_mem_cons] at h
      rw [List.flatMap_cons, List.flatMap_append, List.append_assoc, ofUtf8_runePieces h.1,
        ih h.2, List.flatMap_cons, List.flatMap_append, List.append_assoc]
  exact hrunes (runes s) (runes_wf s)

theorem converts_ofUtf8 :
    Alphabet.Converts octets codeUnits ofUtf8 Document.quoted unitsQuoted where
  ofByte := ofUtf8_ofByte
  string := ofUtf8_quoted

theorem unquote_runeUnitPieces {r : Rune} (hr : r.Wf) : unquote (runeUnitPieces r) = units r := by
  have hchars : ∀ s : JsString, unquote (s.map .char) = s := fun s => by
    rw [unquote, List.map_map]
    exact List.map_id s
  cases r with
  | ascii b =>
    have hlt := b.toNat_lt
    have hunit : UInt16.ofNat b.toNat = b.toUInt16 := by
      rw [← UInt16.toNat_inj, UInt16.toNat_ofNat', Nat.mod_eq_of_lt (by omega)]
      exact (UInt8.toNat_toUInt16 b).symm
    rw [runeUnitPieces, units, hunit]
    split_ifs <;> rfl
  | multi bs =>
    rw [runeUnitPieces]
    split_ifs with h₁ h₂
    · rw [h₁]
      rfl
    · rw [h₂]
      rfl
    · exact hchars _
  | invalid => rfl

/-- JavaScript decodes a string as Go has it. -/
theorem unquote_unitsQuoted (s : Bytes) : unquote (unitsQuoted s) = ofUtf8 s := by
  have hrunes : ∀ rs : List Rune, (∀ r ∈ rs, r.Wf) →
      unquote (rs.flatMap runeUnitPieces) = rs.flatMap units := by
    intro rs
    induction rs with
    | nil => exact fun _ => rfl
    | cons r rs ih =>
      intro h
      rw [List.forall_mem_cons] at h
      rw [List.flatMap_cons, List.flatMap_cons, ← ih h.2, ← unquote_runeUnitPieces h.1]
      exact List.map_append
  exact hrunes (runes s) (runes_wf s)

theorem mem_utf8 {u : UInt16} (hu : u < 0x80) {s : JsString} (h : u ∈ s) : u.toUInt8 ∈ utf8 s := by
  have hlt : u.toNat < 128 := hu
  have hunit : utf8Unit u = [u.toUInt8] := by
    unfold utf8Unit
    dsimp only
    rw [if_pos hlt]
    rfl
  fun_induction utf8 s with
  | case1 => cases h
  | case2 a =>
    rw [← List.mem_singleton.mp h, hunit]
    exact List.mem_singleton_self _
  | case3 a b s hp ih =>
    have ha : 0xD800 ≤ a.toNat := hp.1
    have hb : 0xDC00 ≤ b.toNat := hp.2.2.1
    rw [List.mem_cons, List.mem_cons] at h
    rcases h with rfl | rfl | h
    · omega
    · omega
    · exact List.mem_append_right _ (ih h)
  | case4 a b s hp ih =>
    rcases List.mem_cons.mp h with rfl | h
    · rw [hunit]
      exact List.mem_cons_self
    · exact List.mem_append_right _ (ih h)

theorem plainPiece_runeUnitPieces {r : Rune} (hr : r.Wf) :
    ∀ p ∈ runeUnitPieces r, codeUnits.PlainPiece p := by
  intro p hp
  cases r with
  | ascii b =>
    have hplain : ∀ b : UInt8, ((Json.shortEscape b).isSome || Json.needsUnicode b) = false →
        b ≠ chr '"' ∧ b ≠ chr '\\' ∧ ¬ b < 0x20 := by
      apply forall_byte
      decide +kernel
    rw [runeUnitPieces] at hp
    split_ifs at hp with h
    · rw [List.mem_singleton.mp hp]
      trivial
    · rw [List.mem_singleton.mp hp]
      intro c hc
      rw [show codeUnits.toByte b.toUInt16 = some b from codeUnits.toByte_ofByte hr] at hc
      rw [← Option.some.inj hc]
      exact hplain b (Bool.eq_false_iff.mpr h)
  | multi bs =>
    rw [runeUnitPieces] at hp
    split_ifs at hp with h₁ h₂
    · rw [List.mem_singleton.mp hp]
      trivial
    · rw [List.mem_singleton.mp hp]
      trivial
    · obtain ⟨u, hu, rfl⟩ := List.mem_map.mp hp
      intro c hc
      have hlt : u < 0x80 := by
        by_contra hge
        exact absurd (hc.symm.trans (if_neg hge)) (by simp)
      have hbytes := utf8_units_append hr (by simp) []
      rw [List.append_nil] at hbytes
      have hmem := mem_utf8 hlt hu
      rw [hbytes, utf8, List.append_nil] at hmem
      have hhigh : 128 ≤ u.toUInt8.toNat := hr.high _ hmem
      have hn : u.toNat < 128 := hlt
      rw [UInt16.toNat_toUInt8] at hhigh
      omega
  | invalid =>
    rw [List.mem_singleton.mp hp]
    trivial

theorem plainPiece_unitsQuoted (s : Bytes) : ∀ p ∈ unitsQuoted s, codeUnits.PlainPiece p := by
  intro p hp
  obtain ⟨r, hr, hpr⟩ := List.mem_flatMap.mp hp
  exact plainPiece_runeUnitPieces (runes_wf s r hr) p hpr

/-- JavaScript reads what Go wrote. White space may follow. -/
theorem readDocument_marshal {v : Value Bytes} (hv : Alphabet.Whole v) {r : Bytes}
    (hr : codeUnits.Ends (ofUtf8 r)) (hspace : (ofUtf8 r).all codeUnits.isSpace = true) :
    readDocument (ofUtf8 (marshal v ++ r)) = some (v.map ofUtf8) := by
  have hconvert : ofUtf8 (marshal v ++ r) = codeUnits.write (v.map unitsQuoted) ++ ofUtf8 r :=
    converts_ofUtf8.write hv r
  rw [hconvert, readDocument, Alphabet.parse_write_append
    (Alphabet.wf_map plainPiece_unitsQuoted hv) hr hspace, Option.map_some, Value.map_map]
  exact congrArg (fun f => some (v.map f)) (funext unquote_unitsQuoted)

end HeadFwd.Js
