import HeadFwd.Net.Address
import HeadFwd.Text.Json

/-! # JSON documents

Values and their texts over any alphabet that has ASCII in it. A string in a text
is a list of pieces, characters and code units that were escaped; what it means is
left to those who read it. The writer leaves no white space and the reader skips
it. Reading takes back what was written, whatever follows it.
-/

namespace HeadFwd.Document

open Text
open Net (isDigit)

/-- Characters that have ASCII among them. -/
structure Alphabet (α : Type) where
  ofByte : UInt8 → α
  toByte : α → Option UInt8
  toByte_ofByte : ∀ {b}, b < 0x80 → toByte (ofByte b) = some b
  ofByte_toByte : ∀ {a b}, toByte a = some b → ofByte b = a

/-- A character of a string as it is, or the code unit of an escape. -/
inductive Piece (α : Type) where
  | char (a : α)
  | unit (n : UInt16)
  deriving DecidableEq, Repr

/-- A document with strings of some type. -/
inductive Value (σ : Type) where
  | null
  | bool (b : Bool)
  | number (text : Bytes)
  | string (s : σ)
  | array (xs : List (Value σ))
  | object (fields : List (σ × Value σ))

/-- A string in a text: characters as they are and code units out of escapes. -/
abbrev Pieces (α : Type) := List (Piece α)

/-- An escape, short where there is a letter for the unit. -/
def unitText (n : UInt16) : Bytes :=
  match if n < 0x80 then Json.shortEscape n.toUInt8 else none with
  | some c => [chr '\\', c]
  | none => str "\\u" ++ [hexDigit (n.toNat / 4096), hexDigit (n.toNat / 256 % 16),
      hexDigit (n.toNat / 16 % 16), hexDigit (n.toNat % 16)]

/-- The unit of four hexadecimal digits. -/
def unitOf (w x y z : UInt8) : Option UInt16 := do
  let w ← hexVal w
  let x ← hexVal x
  let y ← hexVal y
  let z ← hexVal z
  return UInt16.ofNat (((w * 16 + x) * 16 + y) * 16 + z)

variable {α : Type} (A : Alphabet α)

namespace Alphabet

/-! ## Writing -/

def ascii (s : Bytes) : List α := s.map A.ofByte

def pieceText : Piece α → List α
  | .char a => [a]
  | .unit n => A.ascii (unitText n)

def stringText (s : Pieces α) : List α :=
  A.ofByte (chr '"') :: (s.flatMap A.pieceText ++ [A.ofByte (chr '"')])

mutual

def write : Value (Pieces α) → List α
  | .null => A.ascii (str "null")
  | .bool true => A.ascii (str "true")
  | .bool false => A.ascii (str "false")
  | .number text => A.ascii text
  | .string s => A.stringText s
  | .array xs => A.ofByte (chr '[') :: (writeElements xs ++ [A.ofByte (chr ']')])
  | .object fields => A.ofByte 0x7B :: (writeMembers fields ++ [A.ofByte 0x7D])

def writeElements : List (Value (Pieces α)) → List α
  | [] => []
  | [x] => write x
  | x :: y :: xs => write x ++ A.ofByte (chr ',') :: writeElements (y :: xs)

def writeMembers : List (Pieces α × Value (Pieces α)) → List α
  | [] => []
  | [(k, v)] => A.stringText k ++ A.ofByte (chr ':') :: write v
  | (k, v) :: m :: fields =>
    A.stringText k ++ A.ofByte (chr ':') ::
      (write v ++ A.ofByte (chr ',') :: writeMembers (m :: fields))

end

/-! ## Reading -/

def isSpace (a : α) : Bool := (A.toByte a).any Json.isSpace

/-- The first character that is not white space, if it is ASCII. -/
def next (s : List α) : Option (UInt8 × List α) :=
  match s.dropWhile A.isSpace with
  | [] => none
  | a :: s => (A.toByte a).map fun b => (b, s)

/-- A text that goes on with the given bytes. -/
def expect : Bytes → List α → Option (List α)
  | [], s => some s
  | _ :: _, [] => none
  | b :: t, a :: s => if A.toByte a = some b then expect t s else none

def digits : List α → Bytes × List α
  | [] => ([], [])
  | a :: s =>
    match A.toByte a with
    | some b => if isDigit b then (b :: (digits s).1, (digits s).2) else ([], a :: s)
    | none => ([], a :: s)

/-- At least one digit. -/
def digits1 (s : List α) : Option (Bytes × List α) :=
  if (A.digits s).1 = [] then none else some (A.digits s)

/-- No digit follows a zero at the front. -/
def integer (s : List α) : Option (Bytes × List α) :=
  match A.digits1 s with
  | some (b :: t, r) => if b = chr '0' then some ([b], A.ascii t ++ r) else some (b :: t, r)
  | _ => none

def fraction : List α → Option (Bytes × List α)
  | [] => some ([], [])
  | a :: s =>
    if A.toByte a = some (chr '.') then (A.digits1 s).map fun (t, r) => (chr '.' :: t, r)
    else some ([], a :: s)

/-- The sign of an exponent. -/
def sign : List α → Bytes × List α
  | [] => ([], [])
  | a :: s =>
    match A.toByte a with
    | some b => if b = chr '+' ∨ b = chr '-' then ([b], s) else ([], a :: s)
    | none => ([], a :: s)

def exponent : List α → Option (Bytes × List α)
  | [] => some ([], [])
  | a :: s =>
    match A.toByte a with
    | some b =>
      if b = chr 'e' ∨ b = chr 'E' then
        (A.digits1 (A.sign s).2).map fun (t, r) => (b :: ((A.sign s).1 ++ t), r)
      else some ([], a :: s)
    | none => some ([], a :: s)

/-- A number without its minus sign. -/
def unsigned (s : List α) : Option (Bytes × List α) := do
  let (int, s) ← A.integer s
  let (frac, s) ← A.fraction s
  let (exp, s) ← A.exponent s
  return (int ++ frac ++ exp, s)

/-- A string after its quote. -/
def readString : List α → Option (Pieces α × List α)
  | [] => none
  | a :: s =>
    match A.toByte a with
    | none => (readString s).map fun (t, r) => (.char a :: t, r)
    | some b =>
      if b = chr '"' then some ([], s)
      else if b = chr '\\' then
        match s with
        | [] => none
        | e :: s =>
          match A.toByte e with
          | none => none
          | some c =>
            if c = chr 'u' then
              match s with
              | w :: x :: y :: z :: s => do
                let n ← unitOf (← A.toByte w) (← A.toByte x) (← A.toByte y) (← A.toByte z)
                let (t, r) ← readString s
                return (.unit n :: t, r)
              | _ => none
            else do
              let n ← Json.unescape c
              let (t, r) ← readString s
              return (.unit n.toUInt16 :: t, r)
      else if b < 0x20 then none
      else (readString s).map fun (t, r) => (.char a :: t, r)

mutual

/-- The first number bounds the steps taken. -/
def readValue : ℕ → List α → Option (Value (Pieces α) × List α)
  | 0, _ => none
  | n + 1, s => do
    let (b, s) ← A.next s
    if b = chr '"' then
      let (t, s) ← A.readString s
      return (.string t, s)
    else if b = chr '[' then
      match A.next s with
      | some (c, t) =>
        if c = chr ']' then return (.array [], t)
        let (xs, s) ← readElements n s
        return (.array xs, s)
      | none => none
    else if b = 0x7B then
      match A.next s with
      | some (c, t) =>
        if c = 0x7D then return (.object [], t)
        let (fields, s) ← readMembers n s
        return (.object fields, s)
      | none => none
    else if b = chr 'n' then
      let s ← A.expect (str "ull") s
      return (.null, s)
    else if b = chr 't' then
      let s ← A.expect (str "rue") s
      return (.bool true, s)
    else if b = chr 'f' then
      let s ← A.expect (str "alse") s
      return (.bool false, s)
    else if b = chr '-' then
      let (t, s) ← A.unsigned s
      return (.number (b :: t), s)
    else
      let (t, s) ← A.unsigned (A.ofByte b :: s)
      return (.number t, s)

def readElements : ℕ → List α → Option (List (Value (Pieces α)) × List α)
  | 0, _ => none
  | n + 1, s => do
    let (x, s) ← readValue n s
    let (b, s) ← A.next s
    if b = chr ',' then
      let (xs, s) ← readElements n s
      return (x :: xs, s)
    else if b = chr ']' then return ([x], s)
    else none

def readMembers : ℕ → List α → Option (List (Pieces α × Value (Pieces α)) × List α)
  | 0, _ => none
  | n + 1, s => do
    let (q, s) ← A.next s
    if q ≠ chr '"' then none
    let (k, s) ← A.readString s
    let (c, s) ← A.next s
    if c ≠ chr ':' then none
    let (v, s) ← readValue n s
    let (b, s) ← A.next s
    if b = chr ',' then
      let (fields, s) ← readMembers n s
      return ((k, v) :: fields, s)
    else if b = 0x7D then return ([(k, v)], s)
    else none

end

/-- The first value of a text and what follows it. -/
def read (s : List α) : Option (Value (Pieces α) × List α) := A.readValue (s.length + 1) s

/-- The value that makes up a text. -/
def parse (s : List α) : Option (Value (Pieces α)) :=
  match A.read s with
  | some (v, r) => if r.all A.isSpace then some v else none
  | none => none

/-! ## Reading what was written -/

/-- A character that a string has as it is. -/
def Plain (a : α) : Prop := ∀ b, A.toByte a = some b → b ≠ chr '"' ∧ b ≠ chr '\\' ∧ ¬ b < 0x20

def PlainPiece : Piece α → Prop
  | .char a => A.Plain a
  | .unit _ => True

/-- Digits without a zero at the front. -/
structure Numeral (t : Bytes) : Prop where
  ne_nil : t ≠ []
  digits : ∀ b ∈ t, isDigit b = true
  front : ∀ s, t = chr '0' :: s → s = []

/-- An integer with or without a minus sign. -/
def Integral (t : Bytes) : Prop := ∃ s, Numeral s ∧ (t = s ∨ t = chr '-' :: s)

mutual

/-- A value whose strings escape what has to be escaped and whose numbers are integers. -/
def Wf : Value (Pieces α) → Prop
  | .null => True
  | .bool _ => True
  | .number t => Integral t
  | .string s => ∀ p ∈ s, A.PlainPiece p
  | .array xs => WfElements xs
  | .object fields => WfMembers fields

def WfElements : List (Value (Pieces α)) → Prop
  | [] => True
  | x :: xs => Wf x ∧ WfElements xs

def WfMembers : List (Pieces α × Value (Pieces α)) → Prop
  | [] => True
  | (k, v) :: fields => (∀ p ∈ k, A.PlainPiece p) ∧ Wf v ∧ WfMembers fields

end

/-- A text that does not go on with a number. -/
def Ends (s : List α) : Prop :=
  ∀ a b, s.head? = some a → A.toByte a = some b →
    isDigit b = false ∧ b ≠ chr '.' ∧ b ≠ chr 'e' ∧ b ≠ chr 'E'

variable {A}

theorem next_ofByte {b : UInt8} (hb : b < 0x80) (hs : Json.isSpace b = false) (s : List α) :
    A.next (A.ofByte b :: s) = some (b, s) := by
  have hspace : A.isSpace (A.ofByte b) = false := by
    rw [isSpace, A.toByte_ofByte hb, Option.any_some, hs]
  rw [next, List.dropWhile_cons_of_neg (by rw [hspace]; decide)]
  simp only [A.toByte_ofByte hb, Option.map_some]

theorem expect_ascii {t : Bytes} (ht : ∀ b ∈ t, b < 0x80) (s : List α) :
    A.expect t (A.ascii t ++ s) = some s := by
  induction t with
  | nil => rfl
  | cons b t ih =>
    rw [List.forall_mem_cons] at ht
    rw [ascii, List.map_cons, List.cons_append, expect, if_pos (A.toByte_ofByte ht.1)]
    exact ih ht.2

theorem unitOf_hexDigits (n : UInt16) : unitOf (hexDigit (n.toNat / 4096))
    (hexDigit (n.toNat / 256 % 16)) (hexDigit (n.toNat / 16 % 16)) (hexDigit (n.toNat % 16)) =
      some n := by
  have hn := n.toNat_lt
  have hsum : ((n.toNat / 4096 * 16 + n.toNat / 256 % 16) * 16 + n.toNat / 16 % 16) * 16 +
      n.toNat % 16 = n.toNat := by omega
  rw [unitOf, hexVal_hexDigit (by omega), hexVal_hexDigit (by omega), hexVal_hexDigit (by omega),
    hexVal_hexDigit (by omega)]
  simp only [Option.bind_eq_bind, Option.bind_some, hsum, UInt16.ofNat_toNat]
  rfl

theorem ascii_unitText (n : UInt16) : ∀ b ∈ unitText n, b < 0x80 := by
  have hshort : ∀ b c : UInt8, Json.shortEscape b = some c → c < 0x80 := by
    intro b c h
    unfold Json.shortEscape at h
    split_ifs at h <;> cases h <;> decide
  have hn := n.toNat_lt
  rw [unitText]
  split
  · rename_i c hc
    split_ifs at hc
    simp only [List.forall_mem_cons]
    exact ⟨by decide, hshort _ _ hc, fun b hb => by cases hb⟩
  · rw [List.forall_mem_append]
    constructor
    · decide +kernel
    · simp only [List.forall_mem_cons]
      exact ⟨hexDigit_lt (by omega), hexDigit_lt (by omega), hexDigit_lt (by omega),
        hexDigit_lt (by omega), fun b hb => by cases hb⟩

/-- A piece is read as it was written. -/
theorem readString_pieceText {p : Piece α} (hp : A.PlainPiece p) (s : List α) :
    A.readString (A.pieceText p ++ s) = (A.readString s).map fun (t, r) => (p :: t, r) := by
  cases p with
  | char a =>
    change A.readString (a :: s) = _
    rw [readString.eq_def]
    cases ha : A.toByte a with
    | none => simp only [ha]
    | some b =>
      obtain ⟨hq, hb, hc⟩ := hp b ha
      simp only [ha, if_neg hq, if_neg hb, if_neg hc]
  | unit n =>
    have hback : A.toByte (A.ofByte (chr '\\')) = some (chr '\\') := A.toByte_ofByte (by decide)
    have hneq : chr '\\' ≠ chr '"' := by decide
    rw [pieceText, unitText]
    split
    · rename_i c hc
      split_ifs at hc with hn
      obtain ⟨hu, hun⟩ := Json.unescape_shortEscape hc
      have hlt : c < 0x80 := by
        unfold Json.shortEscape at hc
        split_ifs at hc <;> cases hc <;> decide
      have hn8 : n.toUInt8.toUInt16 = n := by
        rw [← UInt16.toNat_inj, UInt8.toNat_toUInt16, UInt16.toNat_toUInt8]
        exact Nat.mod_eq_of_lt (lt_trans hn (by decide))
      change A.readString (A.ofByte (chr '\\') :: A.ofByte c :: s) = _
      rw [readString.eq_def]
      simp only [hback, if_neg hneq, if_true, A.toByte_ofByte hlt, if_neg hu, hun,
        Option.bind_eq_bind, Option.bind_some, hn8]
      cases A.readString s with
      | none => rfl
      | some r => rfl
    · have hu : A.toByte (A.ofByte (chr 'u')) = some (chr 'u') := A.toByte_ofByte (by decide)
      have hn := n.toNat_lt
      have hd : ∀ {k : ℕ}, k < 16 → A.toByte (A.ofByte (hexDigit k)) = some (hexDigit k) :=
        fun hk => A.toByte_ofByte (hexDigit_lt hk)
      change A.readString (A.ofByte (chr '\\') :: A.ofByte (chr 'u') ::
        A.ofByte (hexDigit (n.toNat / 4096)) :: A.ofByte (hexDigit (n.toNat / 256 % 16)) ::
          A.ofByte (hexDigit (n.toNat / 16 % 16)) :: A.ofByte (hexDigit (n.toNat % 16)) :: s) = _
      rw [readString.eq_def]
      have h₁ := hd (k := n.toNat / 4096) (by omega)
      have h₂ := hd (k := n.toNat / 256 % 16) (by omega)
      have h₃ := hd (k := n.toNat / 16 % 16) (by omega)
      have h₄ := hd (k := n.toNat % 16) (by omega)
      simp only [hback, if_neg hneq, if_true, hu, h₁, h₂, h₃, h₄, Option.bind_eq_bind,
        Option.bind_some, unitOf_hexDigits]
      cases A.readString s with
      | none => rfl
      | some r => rfl

theorem readString_flatMap {s : Pieces α} (hs : ∀ p ∈ s, A.PlainPiece p) (r : List α) :
    A.readString (s.flatMap A.pieceText ++ A.ofByte (chr '"') :: r) = some (s, r) := by
  induction s with
  | nil =>
    rw [List.flatMap_nil, List.nil_append, readString.eq_def]
    simp only [A.toByte_ofByte (b := chr '"') (by decide), if_true]
  | cons p s ih =>
    rw [List.forall_mem_cons] at hs
    rw [List.flatMap_cons, List.append_assoc, readString_pieceText hs.1, ih hs.2]
    rfl

theorem digit_ne {b : UInt8} (h : isDigit b = true) : b < 0x80 ∧ Json.isSpace b = false ∧
    b ≠ chr '"' ∧ b ≠ chr '[' ∧ b ≠ 0x7B ∧ b ≠ chr 'n' ∧ b ≠ chr 't' ∧ b ≠ chr 'f' ∧
      b ≠ chr '-' := by
  revert b
  apply forall_byte
  decide +kernel

theorem digits_ascii {t : Bytes} (ht : ∀ b ∈ t, isDigit b = true) {r : List α} (hr : A.Ends r) :
    A.digits (A.ascii t ++ r) = (t, r) := by
  induction t with
  | nil =>
    change A.digits r = ([], r)
    cases r with
    | nil => rfl
    | cons a r =>
      rw [digits]
      cases ha : A.toByte a with
      | none => rfl
      | some b =>
        have hb := (hr a b rfl ha).1
        simp only [hb, Bool.false_eq_true, if_false]
  | cons b t ih =>
    rw [List.forall_mem_cons] at ht
    have hlt := (digit_ne ht.1).1
    change A.digits (A.ofByte b :: (A.ascii t ++ r)) = _
    rw [digits, A.toByte_ofByte hlt]
    simp only [ht.1, if_true, ih ht.2]

theorem unsigned_ascii {t : Bytes} (ht : Numeral t) {r : List α} (hr : A.Ends r) :
    A.unsigned (A.ascii t ++ r) = some (t, r) := by
  have hint : A.integer (A.ascii t ++ r) = some (t, r) := by
    obtain ⟨b, s, rfl⟩ := List.exists_cons_of_ne_nil ht.ne_nil
    rw [integer, digits1, digits_ascii ht.digits hr]
    simp only [reduceCtorEq, if_false]
    split_ifs with hb
    · obtain rfl := ht.front s (by rw [hb])
      rfl
    · rfl
  have hfrac : A.fraction r = some ([], r) := by
    cases r with
    | nil => rfl
    | cons a r =>
      have hdot : A.toByte a ≠ some (chr '.') := fun ha => (hr a _ rfl ha).2.1 rfl
      rw [fraction, if_neg hdot]
  have hexp : A.exponent r = some ([], r) := by
    cases r with
    | nil => rfl
    | cons a r =>
      rw [exponent]
      cases ha : A.toByte a with
      | none => rfl
      | some b =>
        obtain ⟨-, -, he, hE⟩ := hr a b rfl ha
        simp only [he, hE, or_self, if_false]
  rw [unsigned, hint]
  simp only [Option.bind_eq_bind, Option.bind_some, hfrac, hexp, List.append_nil]
  rfl

theorem readValue_number {t : Bytes} (ht : Integral t) {r : List α} (hr : A.Ends r) (n : ℕ) :
    A.readValue (n + 1) (A.ascii t ++ r) = some (.number t, r) := by
  obtain ⟨s, hs, rfl | rfl⟩ := ht
  · obtain ⟨b, s, rfl⟩ := List.exists_cons_of_ne_nil hs.ne_nil
    have hb := hs.digits b List.mem_cons_self
    obtain ⟨hlt, hspace, h₁, h₂, h₃, h₄, h₅, h₆, h₇⟩ := digit_ne hb
    have hnext : A.next (A.ascii (b :: s) ++ r) = some (b, A.ascii s ++ r) :=
      next_ofByte hlt hspace _
    have hall : A.unsigned (A.ofByte b :: (A.ascii s ++ r)) = some (b :: s, r) :=
      unsigned_ascii hs hr
    rw [readValue, hnext]
    simp only [Option.bind_eq_bind, Option.bind_some, h₁, h₂, h₃, h₄, h₅, h₆, h₇, if_false, hall]
    rfl
  · have hnext : A.next (A.ascii (chr '-' :: s) ++ r) = some (chr '-', A.ascii s ++ r) :=
      next_ofByte (by decide) (by decide) _
    have hne : chr '-' ≠ chr '"' ∧ chr '-' ≠ chr '[' ∧ chr '-' ≠ 0x7B ∧ chr '-' ≠ chr 'n' ∧
        chr '-' ≠ chr 't' ∧ chr '-' ≠ chr 'f' := by decide
    obtain ⟨h₁, h₂, h₃, h₄, h₅, h₆⟩ := hne
    rw [readValue, hnext]
    simp only [Option.bind_eq_bind, Option.bind_some, h₁, h₂, h₃, h₄, h₅, h₆, if_false, if_true,
      unsigned_ascii hs hr]
    rfl

/-- What a value begins with. -/
theorem write_front {v : Value (Pieces α)} (hv : A.Wf v) : ∃ b s, A.write v = A.ofByte b :: s ∧
    b < 0x80 ∧ Json.isSpace b = false ∧ b ≠ chr ']' := by
  cases v with
  | null => exact ⟨chr 'n', A.ascii (str "ull"), rfl, by decide, by decide, by decide⟩
  | bool b =>
    cases b with
    | true => exact ⟨chr 't', A.ascii (str "rue"), by rw [write]; rfl, by decide, by decide,
        by decide⟩
    | false => exact ⟨chr 'f', A.ascii (str "alse"), by rw [write]; rfl, by decide, by decide,
        by decide⟩
  | number t =>
    rw [Wf] at hv
    obtain ⟨s, hs, rfl | rfl⟩ := hv
    · obtain ⟨b, s, rfl⟩ := List.exists_cons_of_ne_nil hs.ne_nil
      have hd := hs.digits b List.mem_cons_self
      have hne : b ≠ chr ']' := by
        rintro rfl
        revert hd
        decide
      exact ⟨b, A.ascii s, by rw [write]; rfl, (digit_ne hd).1, (digit_ne hd).2.1, hne⟩
    · exact ⟨chr '-', A.ascii s, by rw [write]; rfl, by decide, by decide, by decide⟩
  | string s => exact ⟨chr '"', _, by rw [write, stringText], by decide, by decide, by decide⟩
  | array xs => exact ⟨chr '[', _, by rw [write], by decide, by decide, by decide⟩
  | object fields => exact ⟨0x7B, _, by rw [write], by decide, by decide, by decide⟩

theorem writeElements_front {xs : List (Value (Pieces α))} (hxs : A.WfElements xs) (hne : xs ≠ [])
    (r : List α) : ∃ b s, A.writeElements xs ++ r = A.ofByte b :: s ∧ b < 0x80 ∧
      Json.isSpace b = false ∧ b ≠ chr ']' := by
  match xs, hne with
  | [x], _ =>
    rw [WfElements] at hxs
    obtain ⟨b, s, hs, hb⟩ := write_front hxs.1
    exact ⟨b, s ++ r, by rw [writeElements, hs, List.cons_append], hb⟩
  | x :: y :: xs, _ =>
    rw [WfElements] at hxs
    obtain ⟨b, s, hs, hb⟩ := write_front hxs.1
    exact ⟨b, s ++ A.ofByte (chr ',') :: A.writeElements (y :: xs) ++ r, by
      rw [writeElements, hs, List.cons_append, List.cons_append], hb⟩

theorem next_stringText (s : Pieces α) (r : List α) : A.next (A.stringText s ++ r) =
    some (chr '"', s.flatMap A.pieceText ++ A.ofByte (chr '"') :: r) := by
  rw [stringText, List.cons_append, List.append_assoc]
  exact next_ofByte (by decide) (by decide) _

theorem writeMembers_front (k : Pieces α) (v : Value (Pieces α))
    (fields : List (Pieces α × Value (Pieces α))) (r : List α) :
    ∃ s, A.writeMembers ((k, v) :: fields) ++ r = A.ofByte (chr '"') :: s := by
  cases fields with
  | nil => exact ⟨_, by rw [writeMembers, stringText, List.cons_append, List.cons_append]⟩
  | cons m fields => exact ⟨_, by rw [writeMembers, stringText, List.cons_append, List.cons_append]⟩

theorem ends_ofByte {b : UInt8} (hb : b < 0x80) (hd : isDigit b = false)
    (hne : b ≠ chr '.' ∧ b ≠ chr 'e' ∧ b ≠ chr 'E') (s : List α) : A.Ends (A.ofByte b :: s) := by
  rintro a c ⟨rfl⟩ hc
  obtain rfl := Option.some.inj ((A.toByte_ofByte hb).symm.trans hc)
  exact ⟨hd, hne⟩

mutual

theorem readValue_write : ∀ {v : Value (Pieces α)} {n : ℕ} {r : List α}, A.Wf v → A.Ends r →
    (A.write v).length < n → A.readValue n (A.write v ++ r) = some (v, r)
  | v, 0, r, _, _, hn => absurd hn (Nat.not_lt_zero _)
  | .null, n + 1, r, _, _, _ => by
    have hnext : A.next (A.write .null ++ r) = some (chr 'n', A.ascii (str "ull") ++ r) :=
      next_ofByte (by decide) (by decide) _
    rw [readValue, hnext]
    simp only [Option.bind_eq_bind, Option.bind_some,
      expect_ascii (A := A) (t := str "ull") (by decide +kernel)]
    rfl
  | .bool true, n + 1, r, _, _, _ => by
    have hnext : A.next (A.write (.bool true) ++ r) = some (chr 't', A.ascii (str "rue") ++ r) := by
      rw [write]
      exact next_ofByte (by decide) (by decide) _
    rw [readValue, hnext]
    simp only [Option.bind_eq_bind, Option.bind_some,
      expect_ascii (A := A) (t := str "rue") (by decide +kernel)]
    rfl
  | .bool false, n + 1, r, _, _, _ => by
    have hnext : A.next (A.write (.bool false) ++ r) =
        some (chr 'f', A.ascii (str "alse") ++ r) := by
      rw [write]
      exact next_ofByte (by decide) (by decide) _
    rw [readValue, hnext]
    simp only [Option.bind_eq_bind, Option.bind_some,
      expect_ascii (A := A) (t := str "alse") (by decide +kernel)]
    rfl
  | .number t, n + 1, r, hv, hr, _ => by
    rw [Wf] at hv
    rw [write]
    exact readValue_number hv hr n
  | .string s, n + 1, r, hv, _, _ => by
    rw [Wf] at hv
    have hnext : A.next (A.write (.string s) ++ r) =
        some (chr '"', s.flatMap A.pieceText ++ A.ofByte (chr '"') :: r) := by
      rw [write]
      exact next_stringText s r
    rw [readValue, hnext]
    simp only [Option.bind_eq_bind, Option.bind_some, readString_flatMap hv, if_true]
    rfl
  | .array [], n + 1, r, _, _, _ => by
    have hnext : A.next (A.write (.array []) ++ r) = some (chr '[', A.ofByte (chr ']') :: r) := by
      rw [write, writeElements]
      exact next_ofByte (by decide) (by decide) _
    have hclose : A.next (A.ofByte (chr ']') :: r) = some (chr ']', r) :=
      next_ofByte (by decide) (by decide) _
    have hne : chr '[' ≠ chr '"' := by decide
    rw [readValue, hnext]
    simp only [Option.bind_eq_bind, Option.bind_some, if_neg hne, if_true, hclose]
    rfl
  | .array (x :: xs), n + 1, r, hv, _, hn => by
    rw [Wf] at hv
    rw [write] at hn ⊢
    have hnext : A.next (A.ofByte (chr '[') :: (A.writeElements (x :: xs) ++
        [A.ofByte (chr ']')]) ++ r) =
          some (chr '[', A.writeElements (x :: xs) ++ A.ofByte (chr ']') :: r) := by
      rw [List.cons_append, List.append_assoc]
      exact next_ofByte (by decide) (by decide) _
    obtain ⟨b, s, hs, hb, hspace, hclose⟩ := writeElements_front hv (List.cons_ne_nil x xs)
      (A.ofByte (chr ']') :: r)
    have hfirst : A.next (A.writeElements (x :: xs) ++ A.ofByte (chr ']') :: r) = some (b, s) := by
      rw [hs]
      exact next_ofByte hb hspace s
    have hrest := readElements_write (n := n) (r := r) (List.cons_ne_nil x xs) hv (by
      simp only [List.length_cons, List.length_append, List.length_nil] at hn
      omega)
    have hne : chr '[' ≠ chr '"' := by decide
    rw [readValue, hnext]
    simp only [Option.bind_eq_bind, Option.bind_some, if_neg hne, if_true, hfirst, if_neg hclose,
      hrest]
    rfl
  | .object [], n + 1, r, _, _, _ => by
    have hnext : A.next (A.write (.object []) ++ r) = some (0x7B, A.ofByte 0x7D :: r) := by
      rw [write, writeMembers]
      exact next_ofByte (by decide) (by decide) _
    have hclose : A.next (A.ofByte 0x7D :: r) = some (0x7D, r) :=
      next_ofByte (by decide) (by decide) _
    have hne : (0x7B : UInt8) ≠ chr '"' ∧ (0x7B : UInt8) ≠ chr '[' := by decide
    rw [readValue, hnext]
    simp only [Option.bind_eq_bind, Option.bind_some, if_neg hne.1, if_neg hne.2, if_true, hclose]
    rfl
  | .object ((k, v) :: fields), n + 1, r, hv, _, hn => by
    rw [Wf] at hv
    rw [write] at hn ⊢
    have hnext : A.next (A.ofByte 0x7B :: (A.writeMembers ((k, v) :: fields) ++
        [A.ofByte 0x7D]) ++ r) =
          some (0x7B, A.writeMembers ((k, v) :: fields) ++ A.ofByte 0x7D :: r) := by
      rw [List.cons_append, List.append_assoc]
      exact next_ofByte (by decide) (by decide) _
    obtain ⟨s, hs⟩ := writeMembers_front k v fields (A.ofByte 0x7D :: r)
    have hfirst : A.next (A.writeMembers ((k, v) :: fields) ++ A.ofByte 0x7D :: r) =
        some (chr '"', s) := by
      rw [hs]
      exact next_ofByte (by decide) (by decide) s
    have hrest := readMembers_write (n := n) (r := r) (List.cons_ne_nil (k, v) fields) hv (by
      simp only [List.length_cons, List.length_append, List.length_nil] at hn
      omega)
    have hne : (0x7B : UInt8) ≠ chr '"' ∧ (0x7B : UInt8) ≠ chr '[' ∧ chr '"' ≠ 0x7D := by decide
    rw [readValue, hnext]
    simp only [Option.bind_eq_bind, Option.bind_some, if_neg hne.1, if_neg hne.2.1, if_true,
      hfirst, if_neg hne.2.2, hrest]
    rfl

theorem readElements_write : ∀ {xs : List (Value (Pieces α))} {n : ℕ} {r : List α}, xs ≠ [] →
    A.WfElements xs → (A.writeElements xs).length + 1 < n →
      A.readElements n (A.writeElements xs ++ A.ofByte (chr ']') :: r) = some (xs, r)
  | xs, 0, r, _, _, hn => absurd hn (Nat.not_lt_zero _)
  | [x], n + 1, r, _, hxs, hn => by
    rw [WfElements] at hxs
    rw [writeElements] at hn ⊢
    have hx := readValue_write (n := n) (r := A.ofByte (chr ']') :: r) hxs.1
      (ends_ofByte (by decide) (by decide) (by decide) r) (Nat.lt_of_succ_lt_succ hn)
    have hclose : A.next (A.ofByte (chr ']') :: r) = some (chr ']', r) :=
      next_ofByte (by decide) (by decide) _
    have hne : chr ']' ≠ chr ',' := by decide
    rw [readElements, hx]
    simp only [Option.bind_eq_bind, Option.bind_some, hclose, if_neg hne, if_true]
    rfl
  | x :: y :: xs, n + 1, r, _, hxs, hn => by
    rw [WfElements] at hxs
    rw [writeElements, List.length_append, List.length_cons] at hn
    rw [writeElements, List.append_assoc, List.cons_append]
    have hx := readValue_write (n := n)
      (r := A.ofByte (chr ',') :: (A.writeElements (y :: xs) ++ A.ofByte (chr ']') :: r)) hxs.1
      (ends_ofByte (by decide) (by decide) (by decide) _) (by omega)
    have hcomma : A.next (A.ofByte (chr ',') :: (A.writeElements (y :: xs) ++
        A.ofByte (chr ']') :: r)) = some (chr ',', A.writeElements (y :: xs) ++
          A.ofByte (chr ']') :: r) := next_ofByte (by decide) (by decide) _
    have hrest := readElements_write (n := n) (r := r) (List.cons_ne_nil y xs) hxs.2 (by omega)
    rw [readElements, hx]
    simp only [Option.bind_eq_bind, Option.bind_some, hcomma, if_true, hrest]
    rfl

theorem readMembers_write : ∀ {fields : List (Pieces α × Value (Pieces α))} {n : ℕ} {r : List α},
    fields ≠ [] → A.WfMembers fields → (A.writeMembers fields).length + 1 < n →
      A.readMembers n (A.writeMembers fields ++ A.ofByte 0x7D :: r) = some (fields, r)
  | fields, 0, r, _, _, hn => absurd hn (Nat.not_lt_zero _)
  | [(k, v)], n + 1, r, _, hfs, hn => by
    rw [WfMembers] at hfs
    rw [writeMembers, List.length_append, List.length_cons] at hn
    rw [writeMembers, List.append_assoc, List.cons_append]
    have hv := readValue_write (n := n) (r := A.ofByte 0x7D :: r) hfs.2.1
      (ends_ofByte (by decide) (by decide) (by decide) r) (by omega)
    have hkey := next_stringText (A := A) k
      (A.ofByte (chr ':') :: (A.write v ++ A.ofByte 0x7D :: r))
    have hcolon : A.next (A.ofByte (chr ':') :: (A.write v ++ A.ofByte 0x7D :: r)) =
        some (chr ':', A.write v ++ A.ofByte 0x7D :: r) := next_ofByte (by decide) (by decide) _
    have hclose : A.next (A.ofByte 0x7D :: r) = some (0x7D, r) :=
      next_ofByte (by decide) (by decide) _
    have hne : (0x7D : UInt8) ≠ chr ',' := by decide
    rw [readMembers, hkey]
    simp only [Option.bind_eq_bind, Option.bind_some, ne_eq, not_true_eq_false, if_false,
      readString_flatMap hfs.1, hcolon, hv, hclose, if_neg hne, if_true]
    rfl
  | (k, v) :: m :: fields, n + 1, r, _, hfs, hn => by
    rw [WfMembers] at hfs
    rw [writeMembers, List.length_append, List.length_cons, List.length_append,
      List.length_cons] at hn
    rw [writeMembers, List.append_assoc, List.cons_append, List.append_assoc, List.cons_append]
    have hv := readValue_write (n := n)
      (r := A.ofByte (chr ',') :: (A.writeMembers (m :: fields) ++ A.ofByte 0x7D :: r)) hfs.2.1
      (ends_ofByte (by decide) (by decide) (by decide) _) (by omega)
    have hkey := next_stringText (A := A) k (A.ofByte (chr ':') :: (A.write v ++
      A.ofByte (chr ',') :: (A.writeMembers (m :: fields) ++ A.ofByte 0x7D :: r)))
    have hcolon : A.next (A.ofByte (chr ':') :: (A.write v ++
        A.ofByte (chr ',') :: (A.writeMembers (m :: fields) ++ A.ofByte 0x7D :: r))) =
          some (chr ':', A.write v ++
            A.ofByte (chr ',') :: (A.writeMembers (m :: fields) ++ A.ofByte 0x7D :: r)) :=
      next_ofByte (by decide) (by decide) _
    have hcomma : A.next (A.ofByte (chr ',') :: (A.writeMembers (m :: fields) ++
        A.ofByte 0x7D :: r)) = some (chr ',', A.writeMembers (m :: fields) ++
          A.ofByte 0x7D :: r) := next_ofByte (by decide) (by decide) _
    have hrest := readMembers_write (n := n) (r := r) (List.cons_ne_nil m fields) hfs.2.2
      (by omega)
    rw [readMembers, hkey]
    simp only [Option.bind_eq_bind, Option.bind_some, ne_eq, not_true_eq_false, if_false,
      readString_flatMap hfs.1, hcolon, hv, hcomma, if_true, hrest]
    rfl

end

/-- A value is read back from its text. -/
theorem read_write {v : Value (Pieces α)} (hv : A.Wf v) {r : List α} (hr : A.Ends r) :
    A.read (A.write v ++ r) = some (v, r) := by
  apply readValue_write hv hr
  rw [List.length_append]
  omega

/-- White space may follow. -/
theorem parse_write_append {v : Value (Pieces α)} (hv : A.Wf v) {r : List α} (hr : A.Ends r)
    (hspace : r.all A.isSpace = true) : A.parse (A.write v ++ r) = some v := by
  rw [parse, read_write hv hr]
  exact if_pos hspace

end Alphabet

end HeadFwd.Document
