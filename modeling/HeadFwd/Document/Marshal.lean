import HeadFwd.Document.Convert
import HeadFwd.Net.Head
import Mathlib.Algebra.Group.Int.Defs
import Mathlib.Data.List.Nodup
import Mathlib.Data.List.Sort
import Mathlib.Tactic.Common

/-! # Documents in Go

`encoding/json` over bytes. The encoder escapes a string rune by rune; the decoder
joins escaped surrogates and replaces what is not UTF-8. A struct is decoded into the
fields its members name: the last member of a name counts, `null` changes nothing,
and a value of another type fails the whole.
-/

namespace HeadFwd.Document

open Text Alphabet
open Net (isDigit parseLength upperByte)

/-- Bytes. Those outside ASCII occur in strings only. -/
def octets : Alphabet UInt8 where
  ofByte := id
  toByte b := if b < 0x80 then some b else none
  toByte_ofByte h := if_pos h
  ofByte_toByte h := by
    split_ifs at h
    exact (Option.some.inj h).symm

/-! ## Strings -/

def runePieces : Rune → Pieces UInt8
  | .ascii b =>
    if (Json.shortEscape b).isSome || Json.needsUnicode b then [.unit b.toUInt16] else [.char b]
  | .multi bs =>
    if bs = [0xE2, 0x80, 0xA8] then [.unit 0x2028]
    else if bs = [0xE2, 0x80, 0xA9] then [.unit 0x2029]
    else bs.map .char
  | .invalid => [.unit 0xFFFD]

/-- A string as it is written. -/
def quoted (s : Bytes) : Pieces UInt8 := (runes s).flatMap runePieces

/-- The bytes of a string before what is not UTF-8 is replaced. A high surrogate waits for its
partner. -/
def joined : Option ℕ → Pieces UInt8 → Bytes
  | hi, [] => Json.Scan.flush hi
  | hi, .char b :: s => Json.Scan.flush hi ++ b :: joined none s
  | hi, .unit n :: s =>
    if Json.Scan.isLow n.toNat then
      match hi with
      | some h =>
        Json.encodeRune (0x10000 + (h - 0xD800) * 1024 + (n.toNat - 0xDC00)) ++ joined none s
      | none => Rune.replacement ++ joined none s
    else if Json.Scan.isHigh n.toNat then Json.Scan.flush hi ++ joined (some n.toNat) s
    else Json.Scan.flush hi ++ Json.encodeRune n.toNat ++ joined none s

def unquote (s : Pieces UInt8) : Bytes := sanitize (joined none s)

theorem joined_map_char (bs : Bytes) (s : Pieces UInt8) :
    joined none (bs.map .char ++ s) = bs ++ joined none s := by
  induction bs with
  | nil => rfl
  | cons b bs ih =>
    rw [List.map_cons, List.cons_append, joined, ih]
    rfl

theorem joined_ascii {b : UInt8} (hb : b < 0x80) (s : Pieces UInt8) :
    joined none (.unit b.toUInt16 :: s) = b :: joined none s := by
  have hn : b.toUInt16.toNat = b.toNat := UInt8.toNat_toUInt16 b
  have hlt : b.toNat < 128 := hb
  have hlow : Json.Scan.isLow b.toNat = false := by
    simp only [Json.Scan.isLow, Bool.and_eq_false_iff, decide_eq_false_iff_not]
    omega
  have hhigh : Json.Scan.isHigh b.toNat = false := by
    simp only [Json.Scan.isHigh, Bool.and_eq_false_iff, decide_eq_false_iff_not]
    omega
  rw [joined, hn, hlow, hhigh, Json.encodeRune, if_pos hlt, UInt8.ofNat_toNat]
  rfl

theorem joined_runePieces {r : Rune} (hr : r.Wf) (s : Pieces UInt8) :
    joined none (runePieces r ++ s) = r.bytes ++ joined none s := by
  cases r with
  | ascii b =>
    rw [runePieces]
    split_ifs with h
    · exact joined_ascii hr s
    · exact joined_map_char [b] s
  | multi bs =>
    rw [runePieces]
    split_ifs with h₁ h₂
    · rw [h₁]
      rfl
    · rw [h₂]
      rfl
    · exact joined_map_char bs s
  | invalid => rfl

theorem joined_flatMap {rs : List Rune} (h : ∀ r ∈ rs, r.Wf) :
    joined none (rs.flatMap runePieces) = rs.flatMap Rune.bytes := by
  induction rs with
  | nil => rfl
  | cons r rs ih =>
    rw [List.forall_mem_cons] at h
    rw [List.flatMap_cons, List.flatMap_cons, joined_runePieces h.1, ih h.2]

/-- A string is decoded with its invalid UTF-8 replaced. -/
theorem unquote_quoted (s : Bytes) : unquote (quoted s) = sanitize s := by
  rw [unquote, quoted, joined_flatMap (runes_wf s)]
  exact validUtf8_sanitize s

theorem validUtf8_unquote (s : Pieces UInt8) : ValidUtf8 (unquote s) := validUtf8_sanitize _

theorem plainPiece_runePieces {r : Rune} (hr : r.Wf) :
    ∀ p ∈ runePieces r, octets.PlainPiece p := by
  cases r with
  | ascii b =>
    have hplain : ∀ b : UInt8, ((Json.shortEscape b).isSome || Json.needsUnicode b) = false →
        b ≠ chr '"' ∧ b ≠ chr '\\' ∧ ¬ b < 0x20 := by
      apply forall_byte
      decide +kernel
    intro p hp
    rw [runePieces] at hp
    split_ifs at hp with h
    · rw [List.mem_singleton.mp hp]
      trivial
    · rw [List.mem_singleton.mp hp]
      intro c hc
      obtain rfl := octets.ofByte_toByte hc
      exact hplain c (Bool.eq_false_iff.mpr h)
  | multi bs =>
    intro p hp
    rw [runePieces] at hp
    split_ifs at hp with h₁ h₂
    · rw [List.mem_singleton.mp hp]
      trivial
    · rw [List.mem_singleton.mp hp]
      trivial
    · obtain ⟨b, hb, rfl⟩ := List.mem_map.mp hp
      intro c hc
      have hhigh : 128 ≤ b.toNat := hr.high b hb
      have hnone : octets.toByte b = none := if_neg fun hlt => absurd hhigh (Nat.not_le.mpr hlt)
      rw [hnone] at hc
      cases hc
  | invalid =>
    intro p hp
    rw [List.mem_singleton.mp hp]
    trivial

theorem plainPiece_quoted (s : Bytes) : ∀ p ∈ quoted s, octets.PlainPiece p := by
  intro p hp
  obtain ⟨r, hr, hpr⟩ := List.mem_flatMap.mp hp
  exact plainPiece_runePieces (runes_wf s r hr) p hpr

theorem pieceText_runePieces {r : Rune} (hr : r.Wf) :
    (runePieces r).flatMap octets.pieceText = Json.escapeRune r := by
  cases r with
  | ascii b =>
    have htext : ∀ b : UInt8, b < 0x80 →
        (if (Json.shortEscape b).isSome || Json.needsUnicode b then unitText b.toUInt16 else [b]) =
          Json.escapeAscii b := by
      apply forall_byte
      decide +kernel
    rw [Json.escapeRune, ← htext b hr, runePieces]
    split_ifs
    · exact (List.append_nil _).trans (List.map_id _)
    · rfl
  | multi bs =>
    rw [runePieces, Json.escapeRune]
    split_ifs
    · rfl
    · rfl
    · rw [List.flatMap_map]
      exact List.flatMap_singleton' bs
  | invalid => rfl

/-- The writer of documents and the encoder of slices write a string alike. -/
theorem stringText_quoted (s : Bytes) : octets.stringText (quoted s) = Json.quote s := by
  have hflat : (quoted s).flatMap octets.pieceText = (runes s).flatMap Json.escapeRune := by
    rw [quoted, List.flatMap_assoc]
    exact List.flatMap_congr fun r hr => pieceText_runePieces (runes_wf s r hr)
  rw [Alphabet.stringText, hflat]
  rfl

/-! ## Integers -/

def formatInt : ℤ → Bytes
  | .ofNat n => str (toString n)
  | .negSucc n => chr '-' :: str (toString (n + 1))

/-- An integer of 64 bits without fraction and exponent. -/
def parseInt (t : Bytes) : Option ℤ :=
  match t with
  | [] => none
  | b :: s =>
    if b = chr '-' then do
      let n ← parseLength s
      if n ≤ 2 ^ 63 then some (-(n : ℤ)) else none
    else do
      let n ← parseLength (b :: s)
      if n < 2 ^ 63 then some (n : ℤ) else none

/-- The values of a Go `int`. -/
def Fits (n : ℤ) : Prop := -2 ^ 63 ≤ n ∧ n < 2 ^ 63

theorem head_toDigits {n : ℕ} (hn : 0 < n) : ∀ c ∈ (Nat.toDigits 10 n).head?, c.toNat ≠ 48 := by
  induction n using Nat.strong_induction_on with
  | _ n ih =>
    rcases Nat.lt_or_ge n 10 with hlt | hge
    · have hdigit : ∀ d < 10, 0 < d → (Nat.digitChar d).toNat ≠ 48 := by decide
      rw [Nat.toDigits_of_lt_base hlt]
      rintro c ⟨rfl⟩
      exact hdigit n hlt hn
    · have hne : Nat.toDigits 10 (n / 10) ≠ [] := Nat.toDigits_ne_nil
      rw [Nat.toDigits_of_base_le (by decide) hge, List.head?_append_of_ne_nil _ hne]
      exact ih (n / 10) (by omega) (by omega)

theorem toString_ne_nil (n : ℕ) : str (toString n) ≠ [] := by
  intro h
  have hparse := Net.parseLength_toString n
  rw [h] at hparse
  cases hparse

theorem numeral_toString (n : ℕ) : Numeral (str (toString n)) := by
  refine ⟨toString_ne_nil n, Net.digits_of_parseLength (Net.parseLength_toString n), ?_⟩
  intro s hs
  rcases Nat.eq_zero_or_pos n with rfl | hn
  · cases hs
    rfl
  · exfalso
    rw [str, Nat.toString_eq_ofList_toDigits, String.toList_ofList] at hs
    obtain ⟨c, l, hd, hc, -⟩ := List.map_eq_cons_iff.mp hs
    have hmem : c ∈ Nat.toDigits 10 n := by
      rw [hd]
      exact List.mem_cons_self
    have hdigit : c.isDigit = true := Nat.isDigit_of_mem_toDigits (by decide) (by decide) hmem
    have hle : c.toNat ≤ 57 := (Char.isDigit_iff_toNat.mp hdigit).2
    have hzero : c.toNat = 48 := by
      have := congrArg UInt8.toNat hc
      rwa [UInt8.toNat_ofNat', Nat.mod_eq_of_lt (by omega)] at this
    exact head_toDigits hn c (by rw [hd]; rfl) hzero

theorem integral_formatInt (n : ℤ) : Integral (formatInt n) := by
  cases n with
  | ofNat n => exact ⟨_, numeral_toString n, .inl rfl⟩
  | negSucc n => exact ⟨_, numeral_toString (n + 1), .inr rfl⟩

theorem parseInt_formatInt {n : ℤ} (hn : Fits n) : parseInt (formatInt n) = some n := by
  obtain ⟨hlo, hhi⟩ := hn
  cases n with
  | ofNat n =>
    have hparse := Net.parseLength_toString n
    have hall := Net.digits_of_parseLength hparse
    obtain ⟨b, s, hs⟩ := List.exists_cons_of_ne_nil (toString_ne_nil n)
    have hb : b ≠ chr '-' := by
      rintro rfl
      have := hall (chr '-') (by rw [hs]; exact List.mem_cons_self)
      revert this
      decide
    rw [formatInt, hs, parseInt, if_neg hb, ← hs, hparse]
    simp only [Option.bind_eq_bind, Option.bind_some]
    rw [if_pos (by simp only [Int.ofNat_eq_natCast] at hhi; omega)]
    rfl
  | negSucc n =>
    rw [formatInt, parseInt, if_pos rfl, Net.parseLength_toString]
    simp only [Option.bind_eq_bind, Option.bind_some]
    rw [if_pos (by omega)]
    rfl

theorem fits_of_parseInt {t : Bytes} {n : ℤ} (h : parseInt t = some n) : Fits n := by
  cases t with
  | nil => cases h
  | cons b s =>
    rw [parseInt] at h
    split_ifs at h with hb
    · obtain ⟨k, -, hk⟩ := Option.bind_eq_some_iff.mp h
      split_ifs at hk with hle
      cases hk
      constructor <;> omega
    · obtain ⟨k, -, hk⟩ := Option.bind_eq_some_iff.mp h
      split_ifs at hk with hle
      cases hk
      constructor <;> omega

/-! ## Maps -/

section Maps

variable {κ β : Type} [DecidableEq κ] {m l : List (κ × β)} {k : κ} {v : β}

/-- A map with an entry set. -/
def insertKey (m : List (κ × β)) (k : κ) (v : β) : List (κ × β) :=
  if k ∈ m.map Prod.fst then m.map fun p => if p.1 = k then (k, v) else p else m ++ [(k, v)]

theorem mem_insertKey {p : κ × β} (h : p ∈ insertKey m k v) : p = (k, v) ∨ p ∈ m := by
  rw [insertKey] at h
  split_ifs at h with hk
  · obtain ⟨q, hq, rfl⟩ := List.mem_map.mp h
    split_ifs
    · exact .inl rfl
    · exact .inr hq
  · rcases List.mem_append.mp h with h | h
    · exact .inr h
    · exact .inl (List.mem_singleton.mp h)

theorem keys_insertKey : (insertKey m k v).map Prod.fst =
    if k ∈ m.map Prod.fst then m.map Prod.fst else m.map Prod.fst ++ [k] := by
  rw [insertKey]
  split_ifs with hk
  · rw [List.map_map]
    apply List.map_congr_left
    rintro p -
    rw [Function.comp_apply]
    split_ifs with hp
    · exact hp.symm
    · rfl
  · rw [List.map_append]
    rfl

theorem nodup_insertKey (hm : (m.map Prod.fst).Nodup) : ((insertKey m k v).map Prod.fst).Nodup := by
  rw [keys_insertKey]
  split_ifs with hk
  · exact hm
  · rw [List.nodup_append]
    refine ⟨hm, List.nodup_singleton k, ?_⟩
    rintro a ha b hb rfl
    exact hk (List.mem_singleton.mp hb ▸ ha)

/-- Entries of distinct keys are all kept. -/
theorem foldl_insertKey (h : ((m ++ l).map Prod.fst).Nodup) :
    l.foldl (fun m p => insertKey m p.1 p.2) m = m ++ l := by
  induction l generalizing m with
  | nil => rw [List.foldl_nil, List.append_nil]
  | cons p l ih =>
    have hp : p.1 ∉ m.map Prod.fst := by
      rw [List.map_append, List.map_cons, List.nodup_append] at h
      exact fun hp => h.2.2 p.1 hp p.1 List.mem_cons_self rfl
    have hassoc : m ++ p :: l = (m ++ [p]) ++ l := by rw [List.append_assoc, List.singleton_append]
    rw [List.foldl_cons, insertKey, if_neg hp, hassoc]
    exact ih (hassoc ▸ h)

end Maps

/-! ## Decoding -/

def decodeString : Value Bytes → Bytes → Option Bytes
  | .null, s => some s
  | .string t, _ => some t
  | _, _ => none

def decodeBool : Value Bytes → Bool → Option Bool
  | .null, b => some b
  | .bool b, _ => some b
  | _, _ => none

def decodeInt : Value Bytes → ℤ → Option ℤ
  | .null, n => some n
  | .number t, _ => parseInt t
  | _, _ => none

/-- A pointer to a string. -/
def decodePointer : Value Bytes → Option Bytes → Option (Option Bytes)
  | .null, _ => some none
  | .string t, _ => some (some t)
  | _, _ => none

/-- A map of strings, to which the members of an object are added. -/
def decodeMap : Value Bytes → List (Bytes × Bytes) → Option (List (Bytes × Bytes))
  | .null, _ => some []
  | .object members, m =>
    members.foldlM (fun m p => (decodeString p.2 []).map (insertKey m p.1)) m
  | _, _ => none

/-- A raw message, kept as the document it is. -/
def decodeRaw (v : Value Bytes) (_ : Option (Value Bytes)) : Option (Option (Value Bytes)) :=
  some (some v)

/-- A field of a struct with what a value makes of the struct. -/
structure Member (β : Type) where
  name : Bytes
  decode : Value Bytes → β → Option β

def Member.of {β γ : Type} (name : String) (decode : Value Bytes → γ → Option γ) (get : β → γ)
    (set : β → γ → β) : Member β :=
  ⟨str name, fun v b => (decode v (get b)).map (set b)⟩

/-- The runes that differ from an ASCII letter in case only become that letter. -/
def foldRune : Rune → Bytes
  | .ascii b => [upperByte b]
  | .multi [0xC5, 0xBF] => [chr 'S']
  | .multi [0xE2, 0x84, 0xAA] => [chr 'K']
  | r => r.bytes

/-- Names that differ in case only become one name, if one of them is ASCII. -/
def foldName (s : Bytes) : Bytes := (runes s).flatMap foldRune

section Structs

variable {β : Type}

/-- The field a member is decoded into. -/
def fieldOf (fields : List (Member β)) (name : Bytes) : Option (Member β) :=
  fields.find? fun f => foldName f.name = foldName name

def decodeMember (fields : List (Member β)) (b : β) (m : Bytes × Value Bytes) : Option β :=
  match fieldOf fields m.1 with
  | some f => f.decode m.2 b
  | none => some b

def decodeStruct (fields : List (Member β)) (b : β) : Value Bytes → Option β
  | .null => some b
  | .object members => members.foldlM (decodeMember fields) b
  | _ => none

/-- The first document of a text, whatever follows it. -/
def readFirst (s : Bytes) : Option (Value Bytes) := (octets.read s).map fun p => p.1.map unquote

variable {fields : List (Member β)} {P : β → Prop}

/-- How one field of a struct is decoded. -/
theorem Member.of_decode {γ : Type} {name : String} {decode : Value Bytes → γ → Option γ}
    {get : β → γ} {set : β → γ → β} {v : Value Bytes} {b b' : β}
    (h : (Member.of name decode get set).decode v b = some b') :
    ∃ c, decode v (get b) = some c ∧ b' = set b c := by
  obtain ⟨c, hc, rfl⟩ := Option.map_eq_some_iff.mp h
  exact ⟨c, hc, rfl⟩

theorem foldlM_invariant {δ : Type} {f : β → δ → Option β} {l : List δ}
    (hf : ∀ d ∈ l, ∀ b b', P b → f b d = some b' → P b') {b b' : β} (hb : P b)
    (h : l.foldlM f b = some b') : P b' := by
  induction l generalizing b with
  | nil =>
    cases h
    exact hb
  | cons d l ih =>
    rw [List.forall_mem_cons] at hf
    rw [List.foldlM_cons] at h
    obtain ⟨c, hc, h⟩ := Option.bind_eq_some_iff.mp h
    exact ih hf.2 (hf.1 b c hb hc) h

/-- What every field keeps holds of what is decoded. -/
theorem decodeStruct_invariant {Q : Bytes → Prop}
    (hf : ∀ f ∈ fields, ∀ v b b', v.All Q → P b → f.decode v b = some b' → P b') {b b' : β}
    (hb : P b) {v : Value Bytes} (hv : v.All Q) (h : decodeStruct fields b v = some b') : P b' := by
  cases v with
  | null =>
    cases h
    exact hb
  | object members =>
    rw [Value.All, Value.allMembers_iff] at hv
    refine foldlM_invariant (f := decodeMember fields) ?_ hb h
    intro m hm b b' hb hd
    rw [decodeMember] at hd
    split at hd
    · rename_i f hfind
      exact hf f (List.mem_of_find?_eq_some hfind) m.2 b b' (hv m hm).2 hb hd
    · cases hd
      exact hb
  | _ => cases h

theorem validUtf8_decodeString {v : Value Bytes} {s t : Bytes} (hv : v.All ValidUtf8)
    (hs : ValidUtf8 s) (h : decodeString v s = some t) : ValidUtf8 t := by
  cases v with
  | null =>
    cases h
    exact hs
  | string p =>
    cases h
    rw [Value.All] at hv
    exact hv
  | _ => cases h

theorem validUtf8_decodePointer {v : Value Bytes} {s t : Option Bytes} (hv : v.All ValidUtf8)
    (h : decodePointer v s = some t) : ∀ b ∈ t, ValidUtf8 b := by
  cases v with
  | null =>
    cases h
    rintro b ⟨⟩
  | string p =>
    cases h
    rw [Value.All] at hv
    rintro b ⟨rfl⟩
    exact hv
  | _ => cases h

theorem fits_decodeInt {v : Value Bytes} {n k : ℤ} (hn : Fits n) (h : decodeInt v n = some k) :
    Fits k := by
  cases v with
  | null =>
    cases h
    exact hn
  | number t => exact fits_of_parseInt h
  | _ => cases h

/-- A map whose keys are distinct and whose texts are valid. -/
structure ValidMap (m : List (Bytes × Bytes)) : Prop where
  nodup : (m.map Prod.fst).Nodup
  valid : ∀ p ∈ m, ValidUtf8 p.1 ∧ ValidUtf8 p.2

theorem validMap_nil : ValidMap [] := ⟨List.nodup_nil, fun p hp => by cases hp⟩

theorem validMap_decodeMap {v : Value Bytes} {m m' : List (Bytes × Bytes)}
    (hv : v.All ValidUtf8) (hm : ValidMap m) (h : decodeMap v m = some m') : ValidMap m' := by
  cases v with
  | null =>
    cases h
    exact validMap_nil
  | object members =>
    rw [Value.All, Value.allMembers_iff] at hv
    refine foldlM_invariant (f := fun m (p : Bytes × Value Bytes) =>
      (decodeString p.2 []).map (insertKey m p.1)) ?_ hm h
    intro p hp m m' hm hd
    obtain ⟨s, hs, rfl⟩ := Option.map_eq_some_iff.mp hd
    constructor
    · exact nodup_insertKey hm.nodup
    · intro q hq
      rcases mem_insertKey hq with rfl | hq
      · exact ⟨(hv p hp).1, validUtf8_decodeString (hv p hp).2 (s := []) rfl hs⟩
      · exact hm.valid q hq
  | _ => cases h

theorem all_readFirst {s : Bytes} {v : Value Bytes} (h : readFirst s = some v) :
    v.All ValidUtf8 := by
  obtain ⟨p, -, rfl⟩ := Option.map_eq_some_iff.mp h
  exact Value.all_map validUtf8_unquote p.1

/-- The members of an object whose names are distinct make a map. -/
theorem decodeMap_object {m : List (Bytes × Bytes)} (hm : (m.map Prod.fst).Nodup) :
    decodeMap (.object (m.map fun p => (p.1, .string p.2))) [] = some m := by
  have hfold : ∀ l acc : List (Bytes × Bytes),
      (l.map fun p => (p.1, Value.string p.2)).foldlM
        (fun m p => (decodeString p.2 []).map (insertKey m p.1)) acc =
          some (l.foldl (fun m p => insertKey m p.1 p.2) acc) := by
    intro l
    induction l with
    | nil => exact fun acc => rfl
    | cons p l ih =>
      intro acc
      rw [List.map_cons, List.foldlM_cons]
      exact ih _
  refine (hfold m []).trans (congrArg some ?_)
  exact foldl_insertKey (m := []) hm

/-- Where no two fields have names that differ in case only, a member under the name of a field
goes to that field. -/
theorem decodeMember_of (hn : (fields.map fun f => foldName f.name).Nodup) {f : Member β} {i : ℕ}
    (hf : fields[i]? = some f) (b : β) (v : Value Bytes) :
    decodeMember fields b (f.name, v) = f.decode v b := by
  have hfield : fieldOf fields f.name = some f := by
    rw [fieldOf, List.find?_eq_some_iff_getElem]
    obtain ⟨hi, rfl⟩ := List.getElem?_eq_some_iff.mp hf
    refine ⟨by simp, i, hi, rfl, fun j hj => ?_⟩
    have hne := List.pairwise_iff_getElem.mp hn j i
      (by rw [List.length_map]; omega) (by rw [List.length_map]; exact hi) hj
    rw [List.getElem_map, List.getElem_map] at hne
    simp [hne]
  rw [decodeMember, hfield]

end Structs

/-! ## Encoding -/

def marshal (v : Value Bytes) : Bytes := octets.write (v.map quoted)

/-- A map in the order of its keys. -/
def sortKeys (m : List (Bytes × Bytes)) : List (Bytes × Bytes) :=
  m.insertionSort fun p q => p.1 ≤ q.1

theorem map_unquote_quoted (v : Value Bytes) : (v.map quoted).map unquote = v.map sanitize := by
  rw [Value.map_map]
  exact congrArg (fun f => v.map f) (funext unquote_quoted)

theorem sanitize_runePieces {r : Rune} (hr : r.Wf) (t : Bytes) :
    sanitize ((runePieces r).flatMap octets.pieceText ++ t) =
      (runePieces r).flatMap octets.pieceText ++ sanitize t := by
  have hunit : ∀ n : UInt16, sanitize (List.flatMap octets.pieceText [.unit n] ++ t) =
      List.flatMap octets.pieceText [.unit n] ++ sanitize t := by
    intro n
    have htext : List.flatMap octets.pieceText [.unit n] = unitText n := by
      rw [List.flatMap_singleton]
      exact List.map_id _
    rw [htext, sanitize_append_of_ascii (ascii_unitText n)]
  cases r with
  | ascii b =>
    rw [runePieces]
    split_ifs
    · exact hunit _
    · exact sanitize_bytes_append hr t
  | multi bs =>
    rw [runePieces]
    split_ifs
    · exact hunit _
    · exact hunit _
    · have hbytes : (bs.map Piece.char).flatMap octets.pieceText = bs := by
        rw [List.flatMap_map]
        exact List.flatMap_singleton' _
      rw [hbytes]
      exact sanitize_bytes_append hr t
  | invalid => exact hunit _

theorem converts_sanitize : Converts octets octets sanitize quoted quoted where
  ofByte {b} h t := sanitize_bytes_append (r := .ascii b) h t
  string s t := by
    have hrunes : ∀ rs : List Rune, (∀ r ∈ rs, r.Wf) →
        sanitize ((rs.flatMap runePieces).flatMap octets.pieceText ++ chr '"' :: t) =
          (rs.flatMap runePieces).flatMap octets.pieceText ++ chr '"' :: sanitize t := by
      intro rs
      induction rs with
      | nil =>
        have hq : (Rune.ascii (chr '"')).Wf := show chr '"' < 0x80 by decide
        exact fun _ => sanitize_bytes_append hq t
      | cons r rs ih =>
        intro h
        rw [List.forall_mem_cons] at h
        rw [List.flatMap_cons, List.flatMap_append, List.append_assoc, sanitize_runePieces h.1,
          ih h.2, List.append_assoc]
    exact hrunes (runes s) (runes_wf s)

/-- Whatever the strings of a document, its text is valid. -/
theorem validUtf8_marshal_append {v : Value Bytes} (hv : Whole v) {r : Bytes} (hr : ValidUtf8 r) :
    ValidUtf8 (marshal v ++ r) := by
  have h := converts_sanitize.write hv r
  rw [show sanitize r = r from hr] at h
  exact h

/-- A document comes back with its invalid UTF-8 replaced. -/
theorem readFirst_marshal {v : Value Bytes} (hv : Whole v) {r : Bytes} (hr : octets.Ends r) :
    readFirst (marshal v ++ r) = some (v.map sanitize) := by
  rw [readFirst, marshal, read_write (wf_map plainPiece_quoted hv) hr, Option.map_some,
    map_unquote_quoted]

end HeadFwd.Document
