import HeadFwd.Document.Value

/-! # Conversions of documents

A document whose strings have a meaning is written by mapping them to pieces. A
conversion of texts that passes on ASCII and the strings passes on the document, so
that a text written over one alphabet is read over another.
-/

namespace HeadFwd.Document

open Text

namespace Value

variable {σ τ : Type}

mutual

/-- The same document with other strings. -/
def map (f : σ → τ) : Value σ → Value τ
  | null => null
  | bool b => bool b
  | number text => number text
  | string s => string (f s)
  | array xs => array (mapElements f xs)
  | object fields => object (mapMembers f fields)

def mapElements (f : σ → τ) : List (Value σ) → List (Value τ)
  | [] => []
  | x :: xs => map f x :: mapElements f xs

def mapMembers (f : σ → τ) : List (σ × Value σ) → List (τ × Value τ)
  | [] => []
  | (k, v) :: fields => (f k, map f v) :: mapMembers f fields

end

mutual

theorem map_map {υ : Type} (f : σ → τ) (g : τ → υ) : ∀ v : Value σ,
    (v.map f).map g = v.map fun s => g (f s)
  | null => rfl
  | bool _ => rfl
  | number _ => rfl
  | string _ => rfl
  | array xs => by rw [map, map, map, mapElements_mapElements f g xs]
  | object fields => by rw [map, map, map, mapMembers_mapMembers f g fields]

theorem mapElements_mapElements {υ : Type} (f : σ → τ) (g : τ → υ) : ∀ xs : List (Value σ),
    mapElements g (mapElements f xs) = mapElements (fun s => g (f s)) xs
  | [] => rfl
  | x :: xs => by
    rw [mapElements, mapElements, mapElements, map_map f g x, mapElements_mapElements f g xs]

theorem mapMembers_mapMembers {υ : Type} (f : σ → τ) (g : τ → υ) : ∀ fields : List (σ × Value σ),
    mapMembers g (mapMembers f fields) = mapMembers (fun s => g (f s)) fields
  | [] => rfl
  | (k, v) :: fields => by
    rw [mapMembers, mapMembers, mapMembers, map_map f g v, mapMembers_mapMembers f g fields]

end

theorem mapMembers_eq (f : σ → τ) (fields : List (σ × Value σ)) :
    mapMembers f fields = fields.map fun p => (f p.1, p.2.map f) := by
  induction fields with
  | nil => rfl
  | cons p fields ih => rw [mapMembers, ih, List.map_cons]

mutual

/-- Every string of a document, names of members among them, is as it should be. -/
def All (P : σ → Prop) : Value σ → Prop
  | null => True
  | bool _ => True
  | number _ => True
  | string s => P s
  | array xs => AllElements P xs
  | object fields => AllMembers P fields

def AllElements (P : σ → Prop) : List (Value σ) → Prop
  | [] => True
  | x :: xs => All P x ∧ AllElements P xs

def AllMembers (P : σ → Prop) : List (σ × Value σ) → Prop
  | [] => True
  | (k, v) :: fields => P k ∧ All P v ∧ AllMembers P fields

end

theorem allMembers_iff {P : σ → Prop} {fields : List (σ × Value σ)} :
    AllMembers P fields ↔ ∀ p ∈ fields, P p.1 ∧ p.2.All P := by
  induction fields with
  | nil =>
    rw [AllMembers]
    exact iff_of_true trivial fun p hp => by cases hp
  | cons p fields ih => rw [AllMembers, ih, List.forall_mem_cons, and_assoc]

mutual

theorem all_map {P : τ → Prop} {f : σ → τ} (hf : ∀ s, P (f s)) : ∀ v : Value σ, (v.map f).All P
  | null => by
    rw [map, All]
    trivial
  | bool _ => by
    rw [map, All]
    trivial
  | number _ => by
    rw [map, All]
    trivial
  | string s => by
    rw [map, All]
    exact hf s
  | array xs => by
    rw [map, All]
    exact allElements_map hf xs
  | object fields => by
    rw [map, All]
    exact allMembers_map hf fields

theorem allElements_map {P : τ → Prop} {f : σ → τ} (hf : ∀ s, P (f s)) :
    ∀ xs : List (Value σ), AllElements P (mapElements f xs)
  | [] => by
    rw [mapElements, AllElements]
    trivial
  | x :: xs => by
    rw [mapElements, AllElements]
    exact ⟨all_map hf x, allElements_map hf xs⟩

theorem allMembers_map {P : τ → Prop} {f : σ → τ} (hf : ∀ s, P (f s)) :
    ∀ fields : List (σ × Value σ), AllMembers P (mapMembers f fields)
  | [] => by
    rw [mapMembers, AllMembers]
    trivial
  | (k, v) :: fields => by
    rw [mapMembers, AllMembers]
    exact ⟨hf k, all_map hf v, allMembers_map hf fields⟩

end

end Value

namespace Alphabet

variable {α β σ : Type} {A : Alphabet α}

mutual

/-- A document whose numbers are integers. -/
def Whole : Value σ → Prop
  | .null => True
  | .bool _ => True
  | .number t => Integral t
  | .string _ => True
  | .array xs => WholeElements xs
  | .object fields => WholeMembers fields

def WholeElements : List (Value σ) → Prop
  | [] => True
  | x :: xs => Whole x ∧ WholeElements xs

def WholeMembers : List (σ × Value σ) → Prop
  | [] => True
  | (_, v) :: fields => Whole v ∧ WholeMembers fields

end

theorem wholeMembers_iff {fields : List (σ × Value σ)} :
    WholeMembers fields ↔ ∀ p ∈ fields, Whole p.2 := by
  induction fields with
  | nil =>
    rw [WholeMembers]
    exact iff_of_true trivial fun p hp => by cases hp
  | cons p fields ih => rw [WholeMembers, ih, List.forall_mem_cons]

mutual

theorem wf_map {q : σ → Pieces α} (hq : ∀ s, ∀ p ∈ q s, A.PlainPiece p) :
    ∀ {v : Value σ}, Whole v → A.Wf (v.map q)
  | .null, _ => by
    rw [Value.map, Wf]
    trivial
  | .bool _, _ => by
    rw [Value.map, Wf]
    trivial
  | .number _, h => by
    rw [Whole] at h
    rw [Value.map, Wf]
    exact h
  | .string s, _ => by
    rw [Value.map, Wf]
    exact hq s
  | .array xs, h => by
    rw [Whole] at h
    rw [Value.map, Wf]
    exact wfElements_map hq h
  | .object fields, h => by
    rw [Whole] at h
    rw [Value.map, Wf]
    exact wfMembers_map hq h

theorem wfElements_map {q : σ → Pieces α} (hq : ∀ s, ∀ p ∈ q s, A.PlainPiece p) :
    ∀ {xs : List (Value σ)}, WholeElements xs → A.WfElements (Value.mapElements q xs)
  | [], _ => by
    rw [Value.mapElements, WfElements]
    trivial
  | x :: xs, h => by
    rw [WholeElements] at h
    rw [Value.mapElements, WfElements]
    exact ⟨wf_map hq h.1, wfElements_map hq h.2⟩

theorem wfMembers_map {q : σ → Pieces α} (hq : ∀ s, ∀ p ∈ q s, A.PlainPiece p) :
    ∀ {fields : List (σ × Value σ)}, WholeMembers fields → A.WfMembers (Value.mapMembers q fields)
  | [], _ => by
    rw [Value.mapMembers, WfMembers]
    trivial
  | (k, v) :: fields, h => by
    rw [WholeMembers] at h
    rw [Value.mapMembers, WfMembers]
    exact ⟨hq k, wf_map hq h.1, wfMembers_map hq h.2⟩

end

/-- A conversion of texts that passes ASCII on character by character and the strings that are
written by one writer as those of another. -/
structure Converts (A : Alphabet α) (B : Alphabet β) (f : List α → List β) (q : σ → Pieces α)
    (q' : σ → Pieces β) : Prop where
  ofByte : ∀ {b : UInt8}, b < 0x80 → ∀ t, f (A.ofByte b :: t) = B.ofByte b :: f t
  string : ∀ s t, f ((q s).flatMap A.pieceText ++ A.ofByte (chr '"') :: t) =
    (q' s).flatMap B.pieceText ++ B.ofByte (chr '"') :: f t

variable {B : Alphabet β} {f : List α → List β} {q : σ → Pieces α} {q' : σ → Pieces β}

theorem Converts.ascii (h : Converts A B f q q') {s : Bytes} (hs : ∀ b ∈ s, b < 0x80)
    (t : List α) : f (A.ascii s ++ t) = B.ascii s ++ f t := by
  induction s with
  | nil => rfl
  | cons b s ih =>
    rw [List.forall_mem_cons] at hs
    change f (A.ofByte b :: (A.ascii s ++ t)) = B.ofByte b :: (B.ascii s ++ f t)
    rw [h.ofByte hs.1, ih hs.2]

theorem Converts.stringText (h : Converts A B f q q') (s : σ) (t : List α) :
    f (A.stringText (q s) ++ t) = B.stringText (q' s) ++ f t := by
  rw [Alphabet.stringText, Alphabet.stringText, List.cons_append, List.append_assoc,
    List.singleton_append, h.ofByte (by decide), h.string, List.cons_append, List.append_assoc,
    List.singleton_append]

theorem ascii_of_integral {t : Bytes} (ht : Integral t) : ∀ b ∈ t, b < 0x80 := by
  obtain ⟨s, hs, rfl | rfl⟩ := ht
  · exact fun b hb => (digit_ne (hs.digits b hb)).1
  · rw [List.forall_mem_cons]
    exact ⟨by decide, fun b hb => (digit_ne (hs.digits b hb)).1⟩

mutual

/-- The text of a document becomes the text of the same document. -/
theorem Converts.write (h : Converts A B f q q') : ∀ {v : Value σ}, Whole v → ∀ t,
    f (A.write (v.map q) ++ t) = B.write (v.map q') ++ f t
  | .null, _, t => by
    rw [Value.map, Value.map, Alphabet.write, Alphabet.write]
    exact h.ascii (by decide +kernel) t
  | .bool true, _, t => by
    rw [Value.map, Value.map, Alphabet.write, Alphabet.write]
    exact h.ascii (by decide +kernel) t
  | .bool false, _, t => by
    rw [Value.map, Value.map, Alphabet.write, Alphabet.write]
    exact h.ascii (by decide +kernel) t
  | .number n, hv, t => by
    rw [Whole] at hv
    rw [Value.map, Value.map, Alphabet.write, Alphabet.write]
    exact h.ascii (ascii_of_integral hv) t
  | .string s, _, t => by
    rw [Value.map, Value.map, Alphabet.write, Alphabet.write]
    exact h.stringText s t
  | .array xs, hv, t => by
    rw [Whole] at hv
    rw [Value.map, Value.map, Alphabet.write, Alphabet.write, List.cons_append, List.append_assoc,
      List.singleton_append, h.ofByte (by decide), h.writeElements hv, h.ofByte (by decide),
      List.cons_append, List.append_assoc, List.singleton_append]
  | .object fields, hv, t => by
    rw [Whole] at hv
    rw [Value.map, Value.map, Alphabet.write, Alphabet.write, List.cons_append, List.append_assoc,
      List.singleton_append, h.ofByte (by decide), h.writeMembers hv, h.ofByte (by decide),
      List.cons_append, List.append_assoc, List.singleton_append]

theorem Converts.writeElements (h : Converts A B f q q') : ∀ {xs : List (Value σ)},
    WholeElements xs → ∀ t, f (A.writeElements (Value.mapElements q xs) ++ t) =
      B.writeElements (Value.mapElements q' xs) ++ f t
  | [], _, t => rfl
  | [x], hx, t => by
    rw [WholeElements] at hx
    exact h.write hx.1 t
  | x :: y :: xs, hx, t => by
    rw [WholeElements] at hx
    change f ((A.write (x.map q) ++ A.ofByte (chr ',') ::
      A.writeElements (Value.mapElements q (y :: xs))) ++ t) = (B.write (x.map q') ++
        B.ofByte (chr ',') :: B.writeElements (Value.mapElements q' (y :: xs))) ++ f t
    rw [List.append_assoc, List.cons_append, h.write hx.1, h.ofByte (by decide),
      h.writeElements hx.2, List.append_assoc, List.cons_append]

theorem Converts.writeMembers (h : Converts A B f q q') : ∀ {fields : List (σ × Value σ)},
    WholeMembers fields → ∀ t, f (A.writeMembers (Value.mapMembers q fields) ++ t) =
      B.writeMembers (Value.mapMembers q' fields) ++ f t
  | [], _, t => rfl
  | [(k, v)], hv, t => by
    rw [WholeMembers] at hv
    change f ((A.stringText (q k) ++ A.ofByte (chr ':') :: A.write (v.map q)) ++ t) =
      (B.stringText (q' k) ++ B.ofByte (chr ':') :: B.write (v.map q')) ++ f t
    rw [List.append_assoc, List.cons_append, h.stringText, h.ofByte (by decide), h.write hv.1,
      List.append_assoc, List.cons_append]
  | (k, v) :: m :: fields, hv, t => by
    rw [WholeMembers] at hv
    change f ((A.stringText (q k) ++ A.ofByte (chr ':') :: (A.write (v.map q) ++
      A.ofByte (chr ',') :: A.writeMembers (Value.mapMembers q (m :: fields)))) ++ t) =
        (B.stringText (q' k) ++ B.ofByte (chr ':') :: (B.write (v.map q') ++
          B.ofByte (chr ',') :: B.writeMembers (Value.mapMembers q' (m :: fields)))) ++ f t
    rw [List.append_assoc, List.cons_append, List.append_assoc, List.cons_append, h.stringText,
      h.ofByte (by decide), h.write hv.1, h.ofByte (by decide), h.writeMembers hv.2,
      List.append_assoc, List.cons_append, List.append_assoc, List.cons_append]

end

end Alphabet

end HeadFwd.Document
